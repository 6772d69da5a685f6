import Cowfs.Properties.TableRefinement

/-!
# The search for deleted files

`cowfs_version_find_deleted` has a name but no inode number, so it walks through every list of
every bucket and keeps the latest removal of the name it has met.  What it returns depends on
the versions in the table and not on where they are: `Latest` says what a result is for a
collection of versions, two results for one collection bear the same timestamp, and they are
the same version when the timestamps tell the matches apart.

In a run whose insertions read increasing clocks they do, and the result of a search without a
timestamp is the removal of that name that was added last, among those still in the table.
-/

namespace Cowfs

open KeyedLog

variable {p : CowVersion → Prop} {vs ws : List CowVersion} {found found' : Option CowVersion}

instance (name : CStr) (timestamp : UInt64) : DecidablePred (DeletedAs name timestamp) :=
  fun v => decidable_of_iff
    (v.opType = .unlink ∧ v.origName = name ∧ (timestamp = 0 ∨ v.timestamp = timestamp))
    ⟨fun h => ⟨h.1, h.2.1, h.2.2⟩, fun h => ⟨h.unlinked, h.named, h.stamped⟩⟩

/-! ## Results for one collection of versions -/

lemma Latest.congr (h : Latest p vs found) (hmem : ∀ v, v ∈ ws ↔ v ∈ vs) :
    Latest p ws found := by
  cases found with
  | none => exact fun v hv => h v ((hmem v).1 hv)
  | some w =>
    obtain ⟨hw, hpw, hle⟩ := h
    exact ⟨(hmem w).2 hw, hpw, fun v hv => hle v ((hmem v).1 hv)⟩

/-- Two results are both absent, or both matches with the same timestamp. -/
lemma Latest.cases_two (h : Latest p vs found) (h' : Latest p vs found') :
    (found = none ∧ found' = none) ∨
      ∃ v w, found = some v ∧ found' = some w ∧ v ∈ vs ∧ w ∈ vs ∧ p v ∧ p w ∧
        v.timestamp = w.timestamp := by
  cases found with
  | none =>
    cases found' with
    | none => exact .inl ⟨rfl, rfl⟩
    | some w => exact absurd h'.2.1 (h w h'.1)
  | some v =>
    cases found' with
    | none => exact absurd h.2.1 (h' v h.1)
    | some w =>
      obtain ⟨hv, hpv, hle⟩ := h
      obtain ⟨hw, hpw, hle'⟩ := h'
      have hstamp : v.timestamp = w.timestamp :=
        UInt64.le_antisymm (hle' v hv hpv) (hle w hw hpw)
      exact .inr ⟨v, w, rfl, rfl, hv, hw, hpv, hpw, hstamp⟩

lemma Latest.timestamp_eq (h : Latest p vs found) (h' : Latest p vs found') :
    found.map CowVersion.timestamp = found'.map CowVersion.timestamp := by
  obtain ⟨rfl, rfl⟩ | ⟨v, w, rfl, rfl, -, -, -, -, hstamp⟩ := h.cases_two h'
  · rfl
  · simp only [Option.map_some, hstamp]

/-- The timestamps of the versions with the property `p` tell them apart. -/
def ToldApart (p : CowVersion → Prop) (vs : List CowVersion) : Prop :=
  ∀ v ∈ vs, ∀ w ∈ vs, p v → p w → v.timestamp = w.timestamp → v = w

lemma Latest.eq (h : Latest p vs found) (h' : Latest p vs found') (happart : ToldApart p vs) :
    found = found' := by
  obtain ⟨rfl, rfl⟩ | ⟨v, w, rfl, rfl, hv, hw, hpv, hpw, hstamp⟩ := h.cases_two h'
  · rfl
  · rw [happart v hv w hw hpv hpw hstamp]

/-! ## The order of insertion -/

lemma toldApart_of_increasing {added : List CowVersion}
    (hinc : added.Pairwise fun v w => v.timestamp < w.timestamp) (hadded : vs ⊆ added) :
    ToldApart p vs := by
  have hnd : (added.map CowVersion.timestamp).Nodup := by
    refine List.pairwise_map.2 (hinc.imp fun {v w} hlt he => ?_)
    rw [he] at hlt
    exact UInt64.lt_irrefl _ hlt
  intro v hv w hw _ _ hstamp
  exact List.inj_on_of_nodup_map hnd (hadded hv) (hadded hw) hstamp

/-- With increasing timestamps the last match in the order of insertion is a latest one. -/
lemma latest_getLast? [DecidablePred p] {added : List CowVersion}
    (hinc : added.Pairwise fun v w => v.timestamp < w.timestamp) (hadded : vs ⊆ added) :
    Latest p vs (added.filter fun v => v ∈ vs ∧ p v).getLast? := by
  have hmem : ∀ v, v ∈ (added.filter fun v => v ∈ vs ∧ p v) ↔ v ∈ vs ∧ p v := by
    intro v
    simp only [List.mem_filter, decide_eq_true_eq]
    exact ⟨fun h => h.2, fun h => ⟨hadded h.1, h⟩⟩
  have hpair := hinc.filter fun v => decide (v ∈ vs ∧ p v)
  generalize (added.filter fun v => v ∈ vs ∧ p v) = ms at hmem hpair ⊢
  cases hlast : ms.getLast? with
  | none =>
    obtain rfl := List.getLast?_eq_none_iff.1 hlast
    exact fun v hv hpv => absurd ((hmem v).2 ⟨hv, hpv⟩) List.not_mem_nil
  | some w =>
    obtain ⟨front, rfl⟩ := List.getLast?_eq_some_iff.1 hlast
    obtain ⟨hw, hpw⟩ := (hmem w).1 (by simp)
    refine ⟨hw, hpw, fun v hv hpv => ?_⟩
    rcases List.mem_append.1 ((hmem v).2 ⟨hv, hpv⟩) with hfront | hself
    · exact UInt64.le_of_lt ((List.pairwise_append.1 hpair).2.2 v hfront w (by simp))
    · rw [List.mem_singleton.1 hself]
      exact UInt64.le_refl _

/-! ## Runs of calls -/

variable {hash : UInt64 → Bucket} {t : VersionsHtable}

/-- A search without a timestamp finds the match added last among those still in the table. -/
lemma versionFindDeleted_added {calls : List TableCall}
    (ht : t = run (tableStep hash) VersionsHtable.init calls)
    (hinc : (added hash calls).Pairwise fun v w => v.timestamp < w.timestamp) (name : CStr) :
    versionFindDeleted t name 0 =
      ((added hash calls).filter fun v => v ∈ allVersions t ∧ DeletedAs name 0 v).getLast? := by
  have hadded : allVersions t ⊆ added hash calls := by
    subst ht
    obtain ⟨hinv, hheld⟩ := tableRun_added hash calls
    exact fun v hv => hheld v (hinv.mem_allVersions.1 hv)
  have hlast := latest_getLast? (p := DeletedAs name 0) hinc hadded
  exact (versionFindDeleted_latest t name 0).eq hlast (toldApart_of_increasing hinc hadded)

/-! ## The result -/

/-- The scan of `cowfs_version_find_deleted` with the buckets visited in the order `bs`. -/
def findDeletedIn (bs : List Bucket) (t : VersionsHtable) (name : CStr) (timestamp : UInt64) :
    Option CowVersion :=
  (bs.flatMap fun b => (t b).flatMap CowInodeInfo.versions).foldl
    (findDeletedStep name timestamp) none

/-- Another table with the same versions, scanned in another order. -/
lemma findDeletedIn_latest {hash' : UInt64 → Bucket} {t' : VersionsHtable} {bs : List Bucket}
    (ht : TableInv hash t) (ht' : TableInv hash' t') (hbs : bs.Perm (List.finRange 256))
    (hsame : ∀ ino, (tableView hash' t' ino).Perm (tableView hash t ino)) (name : CStr)
    (timestamp : UInt64) :
    Latest (DeletedAs name timestamp) (allVersions t) (findDeletedIn bs t' name timestamp) := by
  have hvisit : (bs.flatMap fun b => (t' b).flatMap CowInodeInfo.versions).Perm
      (allVersions t') := hbs.flatMap_right _
  have hmem : ∀ v, v ∈ allVersions t ↔ v ∈ allVersions t' := by
    intro v
    rw [ht.mem_allVersions, ht'.mem_allVersions]
    exact exists_congr fun ino => (hsame ino).mem_iff.symm
  refine (findDeletedScan_latest _ name timestamp).congr fun v => ?_
  rw [hmem v, hvisit.mem_iff]

/-- **What a search by name returns.**  Nothing exactly when no bucket holds a removal of the
name (at that time, if one is given), and otherwise such a version with the greatest timestamp.
Another hash function, another order of the buckets and another order inside the lists give a
version with the same timestamp, and the same one when the timestamps tell the matches apart.
After a run with increasing timestamps, a search without one finds the match added last of
those in the table. -/
theorem find_deleted_result (hash : UInt64 → Bucket) (t : VersionsHtable)
    (ht : TableInv hash t) (name : CStr) (timestamp : UInt64) :
    (versionFindDeleted t name timestamp = none ↔
      ∀ b, ∀ info ∈ t b, ∀ v ∈ info.versions, ¬ DeletedAs name timestamp v) ∧
    (∀ v, versionFindDeleted t name timestamp = some v →
      (∃ b, ∃ info ∈ t b, v ∈ info.versions) ∧ DeletedAs name timestamp v ∧
        ∀ b, ∀ info ∈ t b, ∀ w ∈ info.versions, DeletedAs name timestamp w →
          w.timestamp ≤ v.timestamp) ∧
    (∀ hash' t' bs, TableInv hash' t' → bs.Perm (List.finRange 256) →
      (∀ ino, (tableView hash' t' ino).Perm (tableView hash t ino)) →
        (findDeletedIn bs t' name timestamp).map CowVersion.timestamp =
            (versionFindDeleted t name timestamp).map CowVersion.timestamp ∧
          (ToldApart (DeletedAs name timestamp) (allVersions t) →
            findDeletedIn bs t' name timestamp = versionFindDeleted t name timestamp)) ∧
    ∀ calls, t = run (tableStep hash) VersionsHtable.init calls →
      (added hash calls).Pairwise (fun v w => v.timestamp < w.timestamp) →
        versionFindDeleted t name 0 =
          ((added hash calls).filter fun v =>
            v ∈ allVersions t ∧ DeletedAs name 0 v).getLast? := by
  have hlatest := versionFindDeleted_latest t name timestamp
  have hmem : ∀ v, v ∈ allVersions t ↔ ∃ b, ∃ info ∈ t b, v ∈ info.versions := by
    intro v
    simp only [allVersions, List.mem_flatMap, List.mem_finRange, true_and]
  refine ⟨?_, ?_, ?_, fun calls hrun hinc => versionFindDeleted_added hrun hinc name⟩
  · constructor
    · intro hnone b info hinfo v hv
      rw [hnone] at hlatest
      exact hlatest v ((hmem v).2 ⟨b, info, hinfo, hv⟩)
    · intro hno
      by_contra hsome
      obtain ⟨v, hv⟩ := Option.ne_none_iff_exists'.1 hsome
      rw [hv] at hlatest
      obtain ⟨b, info, hinfo, hin⟩ := (hmem v).1 hlatest.1
      exact hno b info hinfo v hin hlatest.2.1
  · intro v hv
    rw [hv] at hlatest
    obtain ⟨hin, hmatch, hle⟩ := hlatest
    exact ⟨(hmem v).1 hin, hmatch, fun b info hinfo w hw =>
      hle w ((hmem w).2 ⟨b, info, hinfo, hw⟩)⟩
  · intro hash' t' bs ht' hbs hsame
    have hother := findDeletedIn_latest ht ht' hbs hsame name timestamp
    exact ⟨hother.timestamp_eq hlatest, hother.eq hlatest⟩

/-- Two files of one name are removed, a third in between, and a write comes last. -/
def namesakeCalls : List TableCall :=
  [.add 7 { versionAlloc .unlink 100 0 with origName := ['x'] } false,
    .add 8 { versionAlloc .unlink 200 1 with origName := ['y'] } false,
    .add 9 { versionAlloc .unlink 300 2 with origName := ['x'] } false,
    .add 7 { versionAlloc .write 400 3 with origName := ['x'] } false]

theorem find_deleted_result_namesakes :
    (versionFindDeleted (run (tableStep fun _ => 0) VersionsHtable.init namesakeCalls)
      ['x'] 0).map CowVersion.timestamp = some 300 := by
  obtain ⟨-, -, -, hrun⟩ := find_deleted_result (fun _ => 0)
    (run (tableStep fun _ => 0) VersionsHtable.init namesakeCalls)
    (tableRun_added _ namesakeCalls).1 ['x'] 0
  rw [hrun namesakeCalls rfl (by decide +kernel)]
  decide +kernel

end Cowfs
