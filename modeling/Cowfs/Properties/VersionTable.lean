import Cowfs.Construction.Versions
import Cowfs.Framework.KeyedLog
import Cowfs.Framework.Run

/-!
# The hashed table refines a keyed log

`TableInv` is the representation invariant of the version table: in each bucket every inode
number has at most one record, the record sits in the bucket its number hashes to, and its
counter is the length of its list, at most 64.  `tableView` reads a table as a `KeyedLog`.

Each operation gets one specification lemma against the log: `versionAdd_spec`,
`versionGc_view`, `versionsGcAll_eq`, `versionList_eq`, `versionFind_eq`; users of the table
cite these and unfold nothing.
-/

namespace Cowfs

open KeyedLog

variable {hash : UInt64 → Bucket}

/-! ## The invariant and the view -/

/-- The invariant of the records of bucket `b`. -/
structure BucketInv (hash : UInt64 → Bucket) (b : Bucket) (infos : List CowInodeInfo) :
    Prop where
  unique : (infos.map CowInodeInfo.lowerIno).Nodup
  home : ∀ info ∈ infos, hash info.lowerIno = b
  counted : ∀ info ∈ infos, info.versionCount = info.versions.length
  bounded : ∀ info ∈ infos, info.versions.length ≤ maxVersions

def TableInv (hash : UInt64 → Bucket) (t : VersionsHtable) : Prop :=
  ∀ b, BucketInv hash b (t b)

/-- The list of versions of each inode number. -/
def tableView (hash : UInt64 → Bucket) (t : VersionsHtable) : KeyedLog UInt64 CowVersion :=
  fun ino => ((findInfo (t (hash ino)) ino).map CowInodeInfo.versions).getD []

theorem tableInv_init : TableInv hash VersionsHtable.init := fun _ =>
  ⟨by simp [VersionsHtable.init], by simp [VersionsHtable.init], by simp [VersionsHtable.init],
    by simp [VersionsHtable.init]⟩

@[simp] theorem tableView_init : tableView hash VersionsHtable.init = KeyedLog.empty := by
  funext ino
  simp [tableView, VersionsHtable.init, findInfo]

/-! ## Finding and storing one record -/

theorem findInfo_some {infos : List CowInodeInfo} {ino : UInt64} {info : CowInodeInfo}
    (h : findInfo infos ino = some info) : info ∈ infos ∧ info.lowerIno = ino := by
  have hp := List.find?_some h
  exact ⟨List.mem_of_find?_eq_some h, by simpa using hp⟩

theorem findInfo_eq_some {infos : List CowInodeInfo}
    (hu : (infos.map CowInodeInfo.lowerIno).Nodup) {info : CowInodeInfo} (h : info ∈ infos) :
    findInfo infos info.lowerIno = some info := by
  induction infos with
  | nil => simp at h
  | cons i is ih =>
    rw [List.map_cons, List.nodup_cons] at hu
    rcases List.mem_cons.1 h with rfl | h'
    · simp [findInfo]
    · have hne : i.lowerIno ≠ info.lowerIno := fun he =>
        hu.1 (he ▸ List.mem_map_of_mem h')
      have := ih hu.2 h'
      simpa [findInfo, hne] using this

theorem findInfo_cons (i : CowInodeInfo) (is : List CowInodeInfo) (ino : UInt64) :
    findInfo (i :: is) ino = if i.lowerIno = ino then some i else findInfo is ino := by
  by_cases h : i.lowerIno = ino <;> simp [findInfo, h]

theorem findInfo_setInfo_self {infos : List CowInodeInfo} {info : CowInodeInfo}
    (h : (findInfo infos info.lowerIno).isSome) :
    findInfo (setInfo info infos) info.lowerIno = some info := by
  induction infos with
  | nil => simp [findInfo] at h
  | cons i is ih =>
    by_cases hi : i.lowerIno = info.lowerIno
    · simp [setInfo, hi, findInfo_cons]
    · rw [findInfo_cons, if_neg hi] at h
      simp [setInfo, hi, findInfo_cons, ih h]

theorem findInfo_setInfo_of_ne {infos : List CowInodeInfo} {info : CowInodeInfo} {ino : UInt64}
    (h : ino ≠ info.lowerIno) : findInfo (setInfo info infos) ino = findInfo infos ino := by
  induction infos with
  | nil => rfl
  | cons i is ih =>
    by_cases hi : i.lowerIno = info.lowerIno
    · simp [setInfo, hi, findInfo_cons, Ne.symm h]
    · simp [setInfo, hi, findInfo_cons, ih]

theorem map_lowerIno_setInfo (info : CowInodeInfo) (infos : List CowInodeInfo) :
    (setInfo info infos).map CowInodeInfo.lowerIno = infos.map CowInodeInfo.lowerIno := by
  induction infos with
  | nil => rfl
  | cons i is ih =>
    by_cases hi : i.lowerIno = info.lowerIno
    · simp [setInfo, hi]
    · simp [setInfo, hi, ih]

theorem mem_setInfo {info i : CowInodeInfo} {infos : List CowInodeInfo}
    (h : i ∈ setInfo info infos) : i = info ∨ i ∈ infos := by
  induction infos with
  | nil => simp [setInfo] at h
  | cons j js ih =>
    by_cases hj : j.lowerIno = info.lowerIno
    · simp only [setInfo, hj, beq_self_eq_true, if_true, List.mem_cons] at h ⊢
      tauto
    · simp only [setInfo, beq_iff_eq, hj, if_false, List.mem_cons] at h ⊢
      tauto

/-- A record that meets the invariant may be stored back. -/
theorem BucketInv.setInfo {b : Bucket} {infos : List CowInodeInfo} (h : BucketInv hash b infos)
    {info : CowInodeInfo} (hb : hash info.lowerIno = b)
    (hc : info.versionCount = info.versions.length) (hl : info.versions.length ≤ maxVersions) :
    BucketInv hash b (setInfo info infos) where
  unique := by rw [map_lowerIno_setInfo]; exact h.unique
  home i hi := by
    rcases mem_setInfo hi with rfl | hi
    · exact hb
    · exact h.home i hi
  counted i hi := by
    rcases mem_setInfo hi with rfl | hi
    · exact hc
    · exact h.counted i hi
  bounded i hi := by
    rcases mem_setInfo hi with rfl | hi
    · exact hl
    · exact h.bounded i hi

theorem TableInv.update {t : VersionsHtable} (h : TableInv hash t) {b : Bucket}
    {infos : List CowInodeInfo} (hb : BucketInv hash b infos) :
    TableInv hash (Function.update t b infos) := fun b' => by
  by_cases he : b' = b
  · subst he
    simpa using hb
  · simpa [he] using h b'

/-! ## `cowfs_version_add` -/

/-- The record the insertion works on, found or just created, and its table. -/
theorem findOrCreateInodeInfo_spec {t t' : VersionsHtable} {ino : UInt64} {nomem : Bool}
    {info : CowInodeInfo} (ht : TableInv hash t)
    (h : findOrCreateInodeInfo hash t ino nomem = some (t', info)) :
    TableInv hash t' ∧ tableView hash t' = tableView hash t ∧
      findInfo (t' (hash ino)) ino = some info := by
  unfold findOrCreateInodeInfo at h
  cases hf : findInfo (t (hash ino)) ino with
  | some i =>
    simp only [hf, Option.some.injEq, Prod.mk.injEq] at h
    obtain ⟨rfl, rfl⟩ := h
    exact ⟨ht, rfl, hf⟩
  | none =>
    cases nomem with
    | true => simp [hf] at h
    | false =>
      simp only [hf, Bool.false_eq_true, if_false, Option.some.injEq, Prod.mk.injEq] at h
      obtain ⟨rfl, rfl⟩ := h
      have hnew : ∀ i ∈ t (hash ino), i.lowerIno ≠ ino := by
        intro i hi he
        have := findInfo_eq_some (ht (hash ino)).unique hi
        rw [he, hf] at this
        cases this
      refine ⟨ht.update ⟨?_, ?_, ?_, ?_⟩, ?_, ?_⟩
      · rw [List.map_cons, List.nodup_cons]
        refine ⟨fun hmem => ?_, (ht _).unique⟩
        obtain ⟨i, hi, he⟩ := List.mem_map.1 hmem
        exact hnew i hi he
      · simpa using (ht (hash ino)).home
      · simpa using (ht (hash ino)).counted
      · simpa [maxVersions] using (ht (hash ino)).bounded
      · funext ino'
        by_cases hb : hash ino' = hash ino
        · by_cases hi : ino' = ino
          · subst hi
            simp [tableView, findInfo_cons, hf]
          · simp [tableView, hb, findInfo_cons, Ne.symm hi]
        · simp [tableView, hb]
      · simp [findInfo_cons]

/-- Insertion with eviction of the oldest keeps the newest 64. -/
theorem linkVersion_spec {info info' : CowInodeInfo} {v : CowVersion}
    {oldest : Option CowVersion} (hc : info.versionCount = info.versions.length)
    (hl : info.versions.length ≤ maxVersions) (h : linkVersion v info = (info', oldest)) :
    info'.lowerIno = info.lowerIno ∧
      info'.versions = (v :: info.versions).take maxVersions ∧
      info'.versionCount = info'.versions.length ∧
      oldest.toList = (v :: info.versions).drop maxVersions := by
  unfold linkVersion at h
  by_cases hfull : info.versionCount ≥ maxVersions
  · rw [if_pos hfull, Prod.mk.injEq] at h
    obtain ⟨rfl, rfl⟩ := h
    have hlen : info.versions.length = maxVersions := by omega
    have hpos : info.versions ≠ [] := by
      intro he
      simp [he, maxVersions] at hlen
    refine ⟨rfl, ?_, ?_, ?_⟩
    · rw [maxVersions, List.take_succ_cons, List.dropLast_eq_take, hlen]
      rfl
    · show info.versionCount - 1 + 1 = ((v :: info.versions.dropLast).length : ℤ)
      rw [List.length_cons, List.length_dropLast, hlen, hc, hlen]
      simp [maxVersions]
    · rw [List.getLast?_eq_some_getLast hpos, Option.toList_some, maxVersions,
        List.drop_succ_cons]
      have hlast := List.drop_length_sub_one hpos
      rw [hlen] at hlast
      exact hlast.symm
  · rw [if_neg hfull, Prod.mk.injEq] at h
    obtain ⟨rfl, rfl⟩ := h
    have hlt : info.versions.length < maxVersions := by omega
    refine ⟨rfl, ?_, ?_, ?_⟩
    · rw [List.take_of_length_le (by simpa using hlt)]
    · simp [hc]
    · rw [List.drop_of_length_le (by simpa using hlt), Option.toList_none]

/-- **`cowfs_version_add` is a push.**  A successful insertion keeps the invariant, pushes
the version on the list of its inode number and hands back the overflow. -/
theorem versionAdd_spec {t t' : VersionsHtable} {ino : UInt64} {v : CowVersion} {nomem : Bool}
    {oldest : Option CowVersion} (ht : TableInv hash t)
    (h : versionAdd hash t ino v nomem = some (t', oldest)) :
    TableInv hash t' ∧ tableView hash t' = push maxVersions ino v (tableView hash t) ∧
      oldest.toList = (v :: tableView hash t ino).drop maxVersions := by
  unfold versionAdd at h
  cases hfc : findOrCreateInodeInfo hash t ino nomem with
  | none => simp [hfc] at h
  | some p =>
    obtain ⟨t₁, info⟩ := p
    obtain ⟨ht₁, hview, hfind⟩ := findOrCreateInodeInfo_spec ht hfc
    obtain ⟨hmem, hino⟩ := findInfo_some hfind
    rcases hlink : linkVersion v info with ⟨info', old⟩
    simp only [hfc, hlink, Option.some.injEq, Prod.mk.injEq] at h
    obtain ⟨rfl, rfl⟩ := h
    obtain ⟨hino', hvers, hcount, hold⟩ :=
      linkVersion_spec ((ht₁ _).counted info hmem) ((ht₁ _).bounded info hmem) hlink
    have hkey : info'.lowerIno = ino := hino'.trans hino
    have hlist : tableView hash t ino = info.versions := by
      rw [← hview]
      simp [tableView, hfind]
    refine ⟨ht₁.update ((ht₁ _).setInfo (by rw [hkey]) hcount ?_), ?_, by rw [hlist, hold]⟩
    · rw [hvers, List.length_take]
      exact Nat.min_le_left _ _
    · have hself : findInfo (setInfo info' (t₁ (hash ino))) ino = some info' := by
        have hsome : (findInfo (t₁ (hash ino)) info'.lowerIno).isSome := by
          rw [hkey, hfind]
          rfl
        have hstored := findInfo_setInfo_self hsome
        rwa [hkey] at hstored
      funext ino'
      by_cases hi : ino' = ino
      · subst hi
        rw [push_self, hlist, ← hvers]
        simp [tableView, hself]
      · rw [push_of_ne hi, ← hview]
        have hne : ino' ≠ info'.lowerIno := hkey.symm ▸ hi
        by_cases hb : hash ino' = hash ino
        · simp [tableView, hb, findInfo_setInfo_of_ne hne]
        · simp [tableView, hb]

/-- The insertion fails only when the inode number has no record and none can be had. -/
theorem versionAdd_isSome {t : VersionsHtable} {ino : UInt64} {v : CowVersion} {nomem : Bool}
    (h : nomem = false) : (versionAdd hash t ino v nomem).isSome := by
  subst h
  unfold versionAdd findOrCreateInodeInfo
  cases findInfo (t (hash ino)) ino <;> simp

/-! ## The searches -/

theorem collectVersions_eq (maxCount count : ℤ) (vs : List CowVersion) :
    collectVersions maxCount count vs = vs.take (maxCount - count).toNat := by
  induction vs generalizing count with
  | nil => simp [collectVersions]
  | cons v vs ih =>
    rw [collectVersions, ih]
    by_cases h : count ≥ maxCount
    · rw [if_pos h, show (maxCount - count).toNat = 0 by omega, List.take_zero]
    · rw [if_neg h, show (maxCount - count).toNat = (maxCount - (count + 1)).toNat + 1 by omega,
        List.take_succ_cons]

/-- `cowfs_version_list` copies out the newest versions of the inode number. -/
theorem versionList_eq (t : VersionsHtable) (ino : UInt64) (maxCount : ℤ) :
    versionList hash t ino maxCount = (tableView hash t ino).take maxCount.toNat := by
  cases h : findInfo (t (hash ino)) ino <;>
    simp [versionList, tableView, h, collectVersions_eq]

/-- `cowfs_version_find` takes the newest match, every version matching the timestamp 0. -/
theorem versionFind_eq (t : VersionsHtable) (ino timestamp : UInt64) :
    versionFind hash t ino timestamp =
      (tableView hash t ino).find? fun v => timestamp == 0 || v.timestamp == timestamp := by
  cases h : findInfo (t (hash ino)) ino <;> simp [versionFind, tableView, h]

theorem versionFind_latest (t : VersionsHtable) (ino : UInt64) :
    versionFind hash t ino 0 = (tableView hash t ino).head? := by
  rw [versionFind_eq]
  cases tableView hash t ino <;> simp

theorem versionFind_mem {t : VersionsHtable} {ino timestamp : UInt64} {v : CowVersion}
    (h : versionFind hash t ino timestamp = some v) :
    v ∈ tableView hash t ino ∧ (timestamp = 0 ∨ v.timestamp = timestamp) := by
  rw [versionFind_eq] at h
  have hp := List.find?_some h
  exact ⟨List.mem_of_find?_eq_some h, by simpa using hp⟩

/-! ## The search by name -/

/-- What `cowfs_version_find_deleted` looks for. -/
structure DeletedAs (name : CStr) (timestamp : UInt64) (v : CowVersion) : Prop where
  unlinked : v.opType = .unlink
  named : v.origName = name
  stamped : timestamp = 0 ∨ v.timestamp = timestamp

/-- A latest version of `vs` with the property `p`, if there is one. -/
def Latest (p : CowVersion → Prop) (vs : List CowVersion) : Option CowVersion → Prop
  | none => ∀ v ∈ vs, ¬ p v
  | some w => w ∈ vs ∧ p w ∧ ∀ v ∈ vs, p v → v.timestamp ≤ w.timestamp

/-- A version that is not looked for is passed over. -/
theorem Latest.pass {p : CowVersion → Prop} {vs : List CowVersion} {found : Option CowVersion}
    (h : Latest p vs found) {v : CowVersion} (hv : ¬ p v) : Latest p (vs ++ [v]) found := by
  cases found with
  | none =>
    intro u hu
    rcases List.mem_append.1 hu with hu | hu
    · exact h u hu
    · exact List.mem_singleton.1 hu ▸ hv
  | some w =>
    obtain ⟨hw, hpw, hlatest⟩ := h
    refine ⟨List.mem_append_left _ hw, hpw, fun u hu hpu => ?_⟩
    rcases List.mem_append.1 hu with hu | hu
    · exact hlatest u hu hpu
    · exact absurd (List.mem_singleton.1 hu ▸ hpu) hv

/-- One iteration goes on from the latest of the versions before to the latest with the next. -/
theorem Latest.findDeletedStep {name : CStr} {timestamp : UInt64} {vs : List CowVersion}
    {found : Option CowVersion} (h : Latest (DeletedAs name timestamp) vs found)
    (v : CowVersion) : Latest (DeletedAs name timestamp) (vs ++ [v])
      (findDeletedStep name timestamp found v) := by
  unfold Cowfs.findDeletedStep
  split_ifs with hop hname hstamp
  · exact h.pass fun hv => hop hv.unlinked
  · exact h.pass fun hv => hname hv.named
  · exact h.pass fun hv => hv.stamped.elim hstamp.1 hstamp.2
  have hv : DeletedAs name timestamp v :=
    ⟨not_not.1 hop, not_not.1 hname, or_iff_not_imp_left.2 (by simpa using hstamp)⟩
  cases found with
  | none =>
    refine ⟨by simp, hv, fun u hu hpu => ?_⟩
    rcases List.mem_append.1 hu with hu | hu
    · exact absurd hpu (h u hu)
    · exact List.mem_singleton.1 hu ▸ UInt64.le_refl _
  | some w =>
    obtain ⟨hw, hpw, hlatest⟩ := h
    dsimp only
    split_ifs with hlt
    · refine ⟨by simp, hv, fun u hu hpu => ?_⟩
      rcases List.mem_append.1 hu with hu | hu
      · exact UInt64.le_trans (hlatest u hu hpu) (UInt64.le_of_lt hlt)
      · exact List.mem_singleton.1 hu ▸ UInt64.le_refl _
    · refine ⟨List.mem_append_left _ hw, hpw, fun u hu hpu => ?_⟩
      rcases List.mem_append.1 hu with hu | hu
      · exact hlatest u hu hpu
      · rw [List.mem_singleton.1 hu]
        exact UInt64.not_lt.1 hlt

/-- The scan of any list of versions ends with a latest match of that list. -/
theorem findDeletedScan_latest (vs : List CowVersion) (name : CStr) (timestamp : UInt64) :
    Latest (DeletedAs name timestamp) vs (vs.foldl (findDeletedStep name timestamp) none) := by
  induction vs using List.reverseRecOn with
  | nil => exact fun v hv => absurd hv List.not_mem_nil
  | append_singleton vs v ih =>
    rw [List.foldl_append]
    exact ih.findDeletedStep v

/-- `cowfs_version_find_deleted` finds a latest matching version of the whole table. -/
theorem versionFindDeleted_latest (t : VersionsHtable) (name : CStr) (timestamp : UInt64) :
    Latest (DeletedAs name timestamp) (allVersions t) (versionFindDeleted t name timestamp) :=
  findDeletedScan_latest (allVersions t) name timestamp

/-! ## The versions of the whole table -/

theorem TableInv.mem_allVersions {t : VersionsHtable} (ht : TableInv hash t) {v : CowVersion} :
    v ∈ allVersions t ↔ (tableView hash t).Holds v := by
  simp only [allVersions, List.mem_flatMap, List.mem_finRange, true_and]
  constructor
  · rintro ⟨b, info, hi, hv⟩
    refine ⟨info.lowerIno, ?_⟩
    rw [tableView, (ht b).home info hi, findInfo_eq_some (ht b).unique hi]
    exact hv
  · rintro ⟨ino, hv⟩
    cases hf : findInfo (t (hash ino)) ino with
    | none => simp [tableView, hf] at hv
    | some info =>
      exact ⟨hash ino, info, (findInfo_some hf).1, by simpa [tableView, hf] using hv⟩

theorem TableInv.nodup_allVersions {t : VersionsHtable} (ht : TableInv hash t)
    (hd : (tableView hash t).Distinct CowVersion.node) :
    ((allVersions t).map CowVersion.node).Nodup := by
  -- the list of a record is the view at its number, and equal nodes have equal numbers
  have hview : ∀ b, ∀ info ∈ t b, tableView hash t info.lowerIno = info.versions := by
    intro b info hi
    rw [tableView, (ht b).home info hi, findInfo_eq_some (ht b).unique hi]
    rfl
  have hino : ∀ b, ∀ i ∈ t b, ∀ b', ∀ j ∈ t b', ∀ v ∈ i.versions, ∀ w ∈ j.versions,
      v.node = w.node → i.lowerIno = j.lowerIno := by
    intro b i hi b' j hj v hv w hw he
    exact hd.apart _ _ v w (by rwa [hview b i hi]) (by rwa [hview b' j hj]) he
  rw [allVersions, List.map_flatMap, List.nodup_flatMap]
  refine ⟨fun b _ => ?_, ?_⟩
  · rw [List.map_flatMap, List.nodup_flatMap]
    refine ⟨fun i hi => by rw [← hview b i hi]; exact hd.nodup _, ?_⟩
    have hpw := List.pairwise_map.1 (ht b).unique
    refine hpw.imp_of_mem fun {i j} hi hj hne => ?_
    intro n hn hn'
    obtain ⟨v, hv, rfl⟩ := List.mem_map.1 hn
    obtain ⟨w, hw, he⟩ := List.mem_map.1 hn'
    exact hne (hino b i hi b j hj v hv w hw he.symm)
  · refine (List.nodup_finRange 256).imp_of_mem fun {b c} _ _ hne => ?_
    intro n hn hn'
    simp only [List.mem_map, List.mem_flatMap] at hn hn'
    obtain ⟨v, ⟨i, hi, hv⟩, rfl⟩ := hn
    obtain ⟨w, ⟨j, hj, hw⟩, he⟩ := hn'
    have := hino b i hi c j hj v hv w hw he.symm
    exact hne (by rw [← (ht b).home i hi, ← (ht c).home j hj, this])

/-! ## `cowfs_version_gc` -/

/-- The test of the garbage collector. -/
def expired (cutoff : UInt64) (v : CowVersion) : Bool := v.timestamp < cutoff

theorem gcScan_eq (cutoff : UInt64) (vs : List CowVersion) (count : ℤ)
    (freed : List CowVersion) :
    gcScan cutoff vs count freed =
      (vs.filter (fun v => !expired cutoff v),
        count - (vs.filter (expired cutoff)).length,
        (vs.filter (expired cutoff)).reverse ++ freed) := by
  induction vs generalizing count freed with
  | nil => simp [gcScan]
  | cons v vs ih =>
    by_cases h : v.timestamp < cutoff
    · rw [gcScan, if_pos h, ih]
      simp [expired, h]
      omega
    · rw [gcScan, if_neg h, ih]
      simp [expired, h]

/-- A record after a pass of the collector. -/
def gcInfo (cutoff : UInt64) (info : CowInodeInfo) : CowInodeInfo :=
  { info with
    versions := info.versions.filter fun v => !expired cutoff v
    versionCount := info.versionCount - (info.versions.filter (expired cutoff)).length }

theorem gcBucket_eq (cutoff : UInt64) (infos : List CowInodeInfo) (freed : List CowVersion) :
    gcBucket cutoff infos freed =
      (infos.map (gcInfo cutoff),
        ((infos.flatMap CowInodeInfo.versions).filter (expired cutoff)).reverse ++ freed) := by
  induction infos generalizing freed with
  | nil => simp [gcBucket]
  | cons info infos ih => simp [gcBucket, gcScan_eq, ih, gcInfo]

/-- A bucket that is not visited any more may be rewritten. -/
theorem flatMap_update {bs : List Bucket} {b : Bucket} (hb : b ∉ bs) (t : VersionsHtable)
    (infos : List CowInodeInfo) :
    (bs.flatMap fun c => (Function.update t b infos c).flatMap CowInodeInfo.versions) =
      bs.flatMap fun c => (t c).flatMap CowInodeInfo.versions := by
  refine List.flatMap_congr fun c hc => ?_
  have hne : c ≠ b := fun he => hb (he ▸ hc)
  simp [hne]

theorem gcBuckets_eq (cutoff : UInt64) (bs : List Bucket) (hbs : bs.Nodup) (t : VersionsHtable)
    (freed : List CowVersion) :
    gcBuckets cutoff bs t freed =
      (fun b => if b ∈ bs then (t b).map (gcInfo cutoff) else t b,
        ((bs.flatMap fun b => (t b).flatMap CowInodeInfo.versions).filter
          (expired cutoff)).reverse ++ freed) := by
  induction bs generalizing t freed with
  | nil => simp [gcBuckets]
  | cons b bs ih =>
    rw [List.nodup_cons] at hbs
    -- the buckets still to come are not the one just rewritten
    simp only [gcBuckets, gcBucket_eq, ih hbs.2, flatMap_update hbs.1, Prod.mk.injEq]
    refine ⟨?_, by simp⟩
    funext c
    by_cases hcb : c = b
    · subst hcb
      simp [hbs.1]
    · simp [hcb]

/-- A collector pass keeps what is not expired, everywhere, and frees the rest once. -/
theorem versionGc_eq (t : VersionsHtable) (now windowSeconds : UInt64) :
    versionGc t now windowSeconds =
      (fun b => (t b).map (gcInfo (gcCutoff now windowSeconds)),
        ((allVersions t).filter (expired (gcCutoff now windowSeconds))).reverse) := by
  simp [versionGc, gcBuckets_eq _ _ (List.nodup_finRange 256), allVersions]

theorem findInfo_map_gcInfo (cutoff : UInt64) (infos : List CowInodeInfo) (ino : UInt64) :
    findInfo (infos.map (gcInfo cutoff)) ino = (findInfo infos ino).map (gcInfo cutoff) := by
  induction infos with
  | nil => rfl
  | cons i is ih =>
    rw [List.map_cons, findInfo_cons, findInfo_cons, ih]
    by_cases h : i.lowerIno = ino <;> simp [h, gcInfo]

theorem versionGc_view (t : VersionsHtable) (now windowSeconds : UInt64) :
    tableView hash (versionGc t now windowSeconds).1 =
      prune (fun v => !expired (gcCutoff now windowSeconds) v) (tableView hash t) := by
  funext ino
  rw [versionGc_eq]
  cases h : findInfo (t (hash ino)) ino <;>
    simp [tableView, findInfo_map_gcInfo, h, gcInfo]

theorem versionGc_inv {t : VersionsHtable} (ht : TableInv hash t)
    (now windowSeconds : UInt64) : TableInv hash (versionGc t now windowSeconds).1 := by
  rw [versionGc_eq]
  intro b
  refine ⟨?_, ?_, ?_, ?_⟩
  · have : (CowInodeInfo.lowerIno ∘ gcInfo (gcCutoff now windowSeconds)) =
        CowInodeInfo.lowerIno := rfl
    rw [List.map_map, this]
    exact (ht b).unique
  all_goals
    intro info hi
    obtain ⟨i, hi', rfl⟩ := List.mem_map.1 hi
  · exact (ht b).home i hi'
  · have hlen := List.length_eq_length_filter_add (l := i.versions)
      (expired (gcCutoff now windowSeconds))
    simp only [gcInfo, (ht b).counted i hi']
    omega
  · exact (List.length_filter_le _ _).trans ((ht b).bounded i hi')

theorem mem_versionGc_freed {t : VersionsHtable} (ht : TableInv hash t)
    {now windowSeconds : UInt64} {v : CowVersion} :
    v ∈ (versionGc t now windowSeconds).2 ↔
      (tableView hash t).Holds v ∧ expired (gcCutoff now windowSeconds) v = true := by
  rw [versionGc_eq, List.mem_reverse, List.mem_filter, ht.mem_allVersions]

/-! ## `cowfs_versions_gc_all` -/

theorem drainVersions_eq (vs freed : List CowVersion) :
    drainVersions vs freed = vs.reverse ++ freed := by
  induction vs generalizing freed with
  | nil => rfl
  | cons v vs ih => simp [drainVersions, ih]

theorem drainBucket_eq (infos : List CowInodeInfo) (freed : List CowVersion) :
    drainBucket infos freed = (infos.flatMap CowInodeInfo.versions).reverse ++ freed := by
  induction infos generalizing freed with
  | nil => rfl
  | cons info infos ih => simp [drainBucket, drainVersions_eq, ih]

theorem drainBuckets_eq (bs : List Bucket) (hbs : bs.Nodup) (t : VersionsHtable)
    (freed : List CowVersion) :
    drainBuckets bs t freed =
      (fun b => if b ∈ bs then [] else t b,
        (bs.flatMap fun b => (t b).flatMap CowInodeInfo.versions).reverse ++ freed) := by
  induction bs generalizing t freed with
  | nil => simp [drainBuckets]
  | cons b bs ih =>
    rw [List.nodup_cons] at hbs
    simp only [drainBuckets, drainBucket_eq, ih hbs.2, flatMap_update hbs.1, Prod.mk.injEq]
    refine ⟨?_, by simp⟩
    funext c
    by_cases hcb : c = b
    · subst hcb
      simp [hbs.1]
    · simp [hcb]

theorem versionsGcAll_eq (t : VersionsHtable) :
    versionsGcAll t = (VersionsHtable.init, (allVersions t).reverse) := by
  rw [versionsGcAll, drainBuckets_eq _ (List.nodup_finRange 256), allVersions, List.append_nil]
  simp only [List.mem_finRange, if_true]
  rfl

end Cowfs
