import Cowfs.Properties.VersionMemory

/-!
# The pointers refine the version table

The searches and the insertion on a memory that represents a layout, and the theorem of the
module: after any sequence of calls the memory holds the table that the same calls leave, nothing
shared and nothing left behind, and every call has answered what the table says.  As the functions
in memory stop where a pointer must not be followed or a record is not there, this also says that
they never do that.
-/

namespace Cowfs

open VersionMemory

variable {hash : UInt64 → Bucket} {m : VersionMemory} {A : Layout} {i : ℕ} {info : CowInodeInfo}
  {v : CowVersion} {fuel : ℕ} {ino : UInt64}

/-! ## The record of an inode number -/

/-- Where the record of `ino` is. -/
def Layout.find (hash : UInt64 → Bucket) (A : Layout) (ino : UInt64) : Option ℕ :=
  (A.buckets (hash ino)).find? fun i => (A.cells i).any (·.lowerIno == ino)

lemma Layout.findInfo_eq (hash : UInt64 → Bucket) (A : Layout) (ino : UInt64) :
    Cowfs.findInfo (A.table (hash ino)) ino = (A.find hash ino).bind A.cells :=
  List.find?_filterMap ..

lemma Layout.find_some (h : A.find hash ino = some i) :
    i ∈ A.buckets (hash ino) ∧ ∃ info, A.cells i = some info ∧ info.lowerIno = ino := by
  have hp := List.find?_some h
  obtain ⟨info, hinfo, hino⟩ := (Option.any_eq_true _ _).1 hp
  exact ⟨List.mem_of_find?_eq_some h, info, hinfo, by simpa using hino⟩

lemma findInfo_spec (hm : Represents hash m A) (hchain : ∀ b, (A.buckets b).length < fuel)
    (ino : UInt64) : m.findInfo hash fuel ino = some (A.find hash ino) := by
  refine hm.chains.find (fun j hj => ?_) (hchain _)
  obtain ⟨info, hinfo, -⟩ := (hm.home _ j).1 hj
  simp [hm.infos j, hinfo, CowInodeInfo.cell]

/-! ## The searches -/

lemma visit_listVersion (maxCount count : ℤ) (vs : List CowVersion) (out : List ℕ) :
    ∃ n, visit (listVersion maxCount) (nodesOf vs) (count, out) =
      some (n, out ++ (collectVersions maxCount count vs).map CowVersion.node) := by
  induction vs generalizing count out with
  | nil => exact ⟨count, by simp [nodesOf, visit, collectVersions]⟩
  | cons v vs ih =>
    have hcons : visit (listVersion maxCount) (nodesOf (v :: vs)) (count, out) =
        if count ≥ maxCount then some (count, out)
        else visit (listVersion maxCount) (nodesOf vs) (count + 1, out ++ [v.node]) := by
      by_cases hfull : count ≥ maxCount <;>
        simp [nodesOf, visit, listVersion, ListHead.entry, hfull]
    rw [hcons, collectVersions]
    by_cases hfull : count ≥ maxCount
    · rw [if_pos hfull, if_pos hfull]
      exact ⟨count, by simp⟩
    · rw [if_neg hfull, if_neg hfull]
      obtain ⟨n, hn⟩ := ih (count + 1) (out ++ [v.node])
      exact ⟨n, by rw [hn]; simp⟩

lemma visit_findVersion (timestamp : UInt64) {vs : List CowVersion}
    (hdata : ∀ v ∈ vs, m.versions v.node = some v) :
    visit (m.findVersion timestamp) (nodesOf vs) none =
      some ((vs.find? fun v => timestamp == 0 || v.timestamp == timestamp).map
        CowVersion.node) := by
  induction vs with
  | nil => rfl
  | cons v vs ih =>
    have hv : m.versions v.node = some v := hdata v List.mem_cons_self
    have hcons : visit (m.findVersion timestamp) (nodesOf (v :: vs)) none =
        if timestamp == 0 || v.timestamp == timestamp then some (some v.node)
        else visit (m.findVersion timestamp) (nodesOf vs) none := by
      cases hhit : timestamp == 0 || v.timestamp == timestamp <;>
        simp only [nodesOf, List.map_cons, visit, findVersion, ListHead.entry, hv, hhit,
          Option.bind_eq_bind, Option.bind_some] <;> rfl
    rw [hcons, ih fun w hw => hdata w (List.mem_cons_of_mem v hw), List.find?_cons]
    cases timestamp == 0 || v.timestamp == timestamp <;> rfl

/-- The records that are walked are short enough for the fuel. -/
structure Layout.Fits (A : Layout) (fuel : ℕ) : Prop where
  chain : ∀ b, (A.buckets b).length < fuel
  list : ∀ i info, A.cells i = some info → info.versions.length < fuel

/-- A walk over the versions of a record. -/
lemma forEach_cell (hm : Represents hash m A) (hfits : A.Fits fuel) (hi : A.cells i = some info)
    {σ : Type} (body : ListHead → σ → Option (σ × Bool)) (acc : σ) :
    m.lists.forEach (.versions i) body fuel acc = visit body (nodesOf info.versions) acc := by
  refine (hm.rings.ring _ _ (Represents.rings_cell hi)).forEach body ?_ acc
  rw [nodesOf, List.length_map]
  exact hfits.list i info hi

lemma versionList_spec (hm : Represents hash m A) (hfits : A.Fits fuel) (ino : UInt64)
    (maxCount : ℤ) :
    m.versionList hash fuel ino maxCount =
      some ((Cowfs.versionList hash A.table ino maxCount).map CowVersion.node) := by
  rw [VersionMemory.versionList, findInfo_spec hm hfits.chain, Cowfs.versionList, A.findInfo_eq]
  cases hfind : A.find hash ino with
  | none => rfl
  | some i =>
    obtain ⟨-, info, hinfo, -⟩ := Layout.find_some hfind
    obtain ⟨n, hn⟩ := visit_listVersion maxCount 0 info.versions []
    simp [forEach_cell hm hfits hinfo, hn, hinfo]

lemma versionFind_spec (hm : Represents hash m A) (hfits : A.Fits fuel)
    (ino timestamp : UInt64) :
    m.versionFind hash fuel ino timestamp =
      some ((Cowfs.versionFind hash A.table ino timestamp).map CowVersion.node) := by
  rw [VersionMemory.versionFind, findInfo_spec hm hfits.chain, Cowfs.versionFind, A.findInfo_eq]
  cases hfind : A.find hash ino with
  | none => rfl
  | some i =>
    obtain ⟨-, info, hinfo, -⟩ := Layout.find_some hfind
    have hvisit := visit_findVersion timestamp (hm.data i info hinfo)
    simp [forEach_cell hm hfits hinfo, hvisit, hinfo]

lemma findDeletedStep_spec {name : CStr} {timestamp : UInt64} {found : Option CowVersion}
    (hv : m.versions v.node = some v) (hfound : ∀ w, found = some w → m.versions w.node = some w) :
    m.findDeletedStep name timestamp (.node v.node) (found.map CowVersion.node) =
      some ((Cowfs.findDeletedStep name timestamp found v).map CowVersion.node) := by
  simp only [VersionMemory.findDeletedStep, ListHead.entry, hv, Option.bind_eq_bind,
    Option.bind_some, Cowfs.findDeletedStep]
  split_ifs
  · rfl
  · rfl
  · rfl
  cases found with
  | none => rfl
  | some w =>
    simp only [Option.map_some, hfound w rfl]
    split_ifs <;> rfl

lemma findDeletedStep_mem {name : CStr} {timestamp : UInt64} {found : Option CowVersion}
    {w : CowVersion} (h : Cowfs.findDeletedStep name timestamp found v = some w) :
    found = some w ∨ v = w := by
  unfold Cowfs.findDeletedStep at h
  split_ifs at h
  · exact .inl h
  · exact .inl h
  · exact .inl h
  cases found with
  | none => exact .inr (Option.some.inj h)
  | some u =>
    dsimp only at h
    split_ifs at h
    · exact .inr (Option.some.inj h)
    · exact .inl h

lemma visit_findDeleted (name : CStr) (timestamp : UInt64) {vs : List CowVersion}
    (hdata : ∀ v ∈ vs, m.versions v.node = some v) (found : Option CowVersion)
    (hfound : ∀ w, found = some w → m.versions w.node = some w) :
    visit (fun pos found => (m.findDeletedStep name timestamp pos found).map fun r => (r, true))
        (nodesOf vs) (found.map CowVersion.node) =
      some ((vs.foldl (Cowfs.findDeletedStep name timestamp) found).map CowVersion.node) ∧
    ∀ w, vs.foldl (Cowfs.findDeletedStep name timestamp) found = some w →
      m.versions w.node = some w := by
  induction vs generalizing found with
  | nil => exact ⟨rfl, hfound⟩
  | cons v vs ih =>
    have hv : m.versions v.node = some v := hdata v List.mem_cons_self
    obtain ⟨hvisit, hmem⟩ := ih (fun w hw => hdata w (List.mem_cons_of_mem v hw))
      (Cowfs.findDeletedStep name timestamp found v) fun w hw => by
        rcases findDeletedStep_mem hw with hf | rfl
        · exact hfound w hf
        · exact hv
    refine ⟨?_, hmem⟩
    simp only [nodesOf] at hvisit
    simp only [nodesOf, List.map_cons, visit, findDeletedStep_spec hv hfound, Option.map_some,
      Option.bind_some, if_true, List.foldl_cons, hvisit]

lemma versionFindDeleted_spec (hm : Represents hash m A) (hfits : A.Fits fuel) (name : CStr)
    (timestamp : UInt64) :
    m.versionFindDeleted fuel name timestamp =
      some ((Cowfs.versionFindDeleted A.table name timestamp).map CowVersion.node) := by
  obtain ⟨found, hfound, rfl, -⟩ := hashForEach_rule (fun _ => m)
    (fun i found => m.lists.forEach (.versions i)
      (fun pos found => (m.findDeletedStep name timestamp pos found).map fun r => (r, true))
      fuel found) A.buckets
    (fun done found =>
      let r := ((done.filterMap A.cells).flatMap CowInodeInfo.versions).foldl
        (Cowfs.findDeletedStep name timestamp) none
      found = r.map CowVersion.node ∧ ∀ w, r = some w → m.versions w.node = some w)
    (fun _ _ _ => hm.chains)
    (fun done x rest found hall hI => by
      obtain ⟨rfl, hr⟩ := hI
      obtain ⟨info, hinfo⟩ := hm.cell_of_mem (i := x) (by rw [hall]; simp)
      obtain ⟨hvisit, hmem⟩ := visit_findDeleted name timestamp (hm.data x info hinfo) _ hr
      refine ⟨_, by rw [forEach_cell hm hfits hinfo, hvisit], ?_, ?_⟩
      · simp [hinfo]
      · simpa [hinfo] using hmem)
    hfits.chain ⟨rfl, fun w hw => by cases hw⟩
  refine Eq.trans hfound ?_
  rw [Cowfs.versionFindDeleted, allVersions, addresses, List.filterMap_flatMap, List.flatMap_assoc]
  rfl

/-! ## `cowfs_version_add` -/

lemma Represents.mem_allVersions (hm : Represents hash m A) (hi : A.cells i = some info)
    {w : CowVersion} (hw : w ∈ info.versions) : w ∈ allVersions A.table := by
  have hmem : i ∈ A.buckets (hash info.lowerIno) := (hm.home _ i).2 ⟨info, hi, rfl⟩
  refine List.mem_flatMap.2 ⟨hash info.lowerIno, List.mem_finRange _, List.mem_flatMap.2 ?_⟩
  exact ⟨info, List.mem_filterMap.2 ⟨i, hmem, hi⟩, hw⟩

/-- A version that is new to the table is in no list. -/
lemma Represents.loose_new (hm : Represents hash m A) (hfreed : A.freed = none)
    (hnew : ∀ w ∈ allVersions A.table, w.node ≠ v.node) : Links.Loose A.rings (.node v.node) := by
  intro h xs hxs hmem
  cases h with
  | node n => cases hxs
  | freed => simp [Layout.rings, hfreed] at hxs
  | versions i =>
    obtain ⟨info, hinfo, rfl⟩ := Option.map_eq_some_iff.1 hxs
    have hmem' : ListHead.node v.node ∈ nodesOf info.versions := by simpa using hmem
    obtain ⟨w, hw, he⟩ := List.mem_map.1 hmem'
    exact hnew w (hm.mem_allVersions hinfo hw) (ListHead.node.inj he)

/-- `cowfs_version_alloc`, and what the caller fills in. -/
lemma Represents.alloc (hm : Represents hash m A) (hloose : Links.Loose A.rings (.node v.node)) :
    Represents hash ((m.setVersion v.node (some v)).initListHead (.node v.node)) A :=
  have hm' := hm.setVersion hloose (some v)
  { hm' with rings := hm'.rings.initLoose hloose }

/-- A new record at the front of its chain. -/
def Layout.create (hash : UInt64 → Bucket) (A : Layout) (ino : UInt64) (i : ℕ) : Layout where
  cells := Function.update A.cells i (some ⟨ino, [], 0⟩)
  buckets := Function.update A.buckets (hash ino) (i :: A.buckets (hash ino))
  freed := A.freed

lemma Layout.rings_create (A : Layout) (ino : UInt64) (i : ℕ) :
    (A.create hash ino i).rings = Function.update A.rings (.versions i) (some []) :=
  A.rings_update i (some ⟨ino, [], 0⟩) _

lemma Represents.notMem_of_none (hm : Represents hash m A) (hi : A.cells i = none) (b : Bucket) :
    i ∉ A.buckets b := by
  intro hmem
  obtain ⟨info, hinfo, -⟩ := (hm.home b i).1 hmem
  rw [hi] at hinfo
  cases hinfo

lemma Represents.create (hm : Represents hash m A) (ino : UInt64) :
    Represents hash
      { (m.setInfo m.nextInfo (some ⟨ino, 0⟩)).initListHead (.versions m.nextInfo) with
        chains := m.chains.addHead m.nextInfo (hash ino)
        nextInfo := m.nextInfo + 1 }
      (A.create hash ino m.nextInfo) := by
  have hnone : A.cells m.nextInfo = none := hm.unused _ le_rfl
  have hout := hm.notMem_of_none hnone
  refine ⟨?_, hm.chains.addHead hout (hash ino), fun j => ?_, fun b j => ?_, fun j info hj => ?_,
    hm.freedData, fun j hj => ?_⟩
  · rw [Layout.rings_create]
    refine hm.rings.initHead fun h xs hxs hmem => ?_
    cases h with
    | node n => cases hxs
    | freed =>
      obtain ⟨vs, -, rfl⟩ := Option.map_eq_some_iff.1 hxs
      simp [nodesOf] at hmem
    | versions j =>
      obtain ⟨info, hinfo, rfl⟩ := Option.map_eq_some_iff.1 hxs
      have hj : m.nextInfo = j := by simpa [nodesOf] using hmem
      rw [← hj, hnone] at hinfo
      cases hinfo
  · by_cases hj : j = m.nextInfo
    · subst hj
      simp [VersionMemory.setInfo, initListHead, Layout.create, CowInodeInfo.cell]
    · simp [VersionMemory.setInfo, initListHead, Layout.create, hj, hm.infos j]
  · by_cases hj : j = m.nextInfo
    · subst hj
      by_cases hb : b = hash ino
      · subst hb
        simp [Layout.create]
      · simp [Layout.create, hb, hout b, Ne.symm hb]
    · have hmem : j ∈ (A.create hash ino m.nextInfo).buckets b ↔ j ∈ A.buckets b := by
        by_cases hb : b = hash ino
        · subst hb
          simp [Layout.create, hj]
        · simp [Layout.create, hb]
      have hcell : (A.create hash ino m.nextInfo).cells j = A.cells j :=
        Function.update_of_ne hj ..
      rw [hmem, hm.home b j, hcell]
  · by_cases he : j = m.nextInfo
    · subst he
      simp only [Layout.create, Function.update_self, Option.some.injEq] at hj
      subst hj
      exact fun v hv => absurd hv List.not_mem_nil
    · simp only [Layout.create, Function.update_of_ne he] at hj
      exact hm.data j info hj
  · have hlt : m.nextInfo < j := hj
    exact (Function.update_of_ne hlt.ne' ..).trans (hm.unused j hlt.le)

lemma filterMap_update_of_notMem {cells : ℕ → Option CowInodeInfo} {is : List ℕ} (h : i ∉ is)
    (o : Option CowInodeInfo) :
    is.filterMap (Function.update cells i o) = is.filterMap cells :=
  List.filterMap_congr fun j hj => by
    have hne : j ≠ i := fun he => h (he ▸ hj)
    exact Function.update_of_ne hne ..

lemma Represents.table_create (hm : Represents hash m A) (ino : UInt64) :
    (A.create hash ino m.nextInfo).table =
      Function.update A.table (hash ino) (⟨ino, [], 0⟩ :: A.table (hash ino)) := by
  have hout := hm.notMem_of_none (hm.unused _ le_rfl)
  have hsame : ∀ b, (A.buckets b).filterMap (A.create hash ino m.nextInfo).cells = A.table b :=
    fun b => filterMap_update_of_notMem (hout b) _
  funext b
  by_cases hb : b = hash ino
  · subst hb
    rw [Function.update_self, ← hsame]
    simp [Layout.table, Layout.create]
  · rw [Function.update_of_ne hb, ← hsame]
    simp [Layout.table, Layout.create, hb]

lemma Layout.find_create (A : Layout) (ino : UInt64) (i : ℕ) :
    (A.create hash ino i).find hash ino = some i := by
  simp [find, create]

/-- `setInfo` at the address of the record. -/
lemma filterMap_update {cells : ℕ → Option CowInodeInfo} {is : List ℕ} (hnodup : is.Nodup)
    (hfind : is.find? (fun i => (cells i).any (·.lowerIno == ino)) = some i)
    (hino : info.lowerIno = ino) :
    is.filterMap (Function.update cells i (some info)) =
      setInfo info (is.filterMap cells) := by
  induction is with
  | nil => cases hfind
  | cons j is ih =>
    obtain ⟨hj, his⟩ := List.nodup_cons.1 hnodup
    rw [List.find?_cons] at hfind
    cases hhit : (cells j).any (·.lowerIno == ino) with
    | true =>
      rw [hhit] at hfind
      obtain rfl := Option.some.inj hfind
      obtain ⟨info₁, hcell, hino₁⟩ := (Option.any_eq_true _ _).1 hhit
      have hsame : info₁.lowerIno = info.lowerIno := by rw [hino]; simpa using hino₁
      rw [List.filterMap_cons_some (Function.update_self ..), List.filterMap_cons_some hcell,
        filterMap_update_of_notMem hj, setInfo, if_pos (by simpa using hsame)]
    | false =>
      rw [hhit] at hfind
      have hne : j ≠ i := by
        rintro rfl
        exact hj (List.mem_of_find?_eq_some hfind)
      have hcellj : Function.update cells i (some info) j = cells j :=
        Function.update_of_ne hne ..
      cases hcell : cells j with
      | none =>
        rw [List.filterMap_cons_none (hcellj.trans hcell), List.filterMap_cons_none hcell,
          ih his hfind]
      | some info₁ =>
        have hother : info₁.lowerIno ≠ info.lowerIno := by
          rw [hcell] at hhit
          simpa [hino] using hhit
        rw [List.filterMap_cons_some (hcellj.trans hcell), List.filterMap_cons_some hcell,
          setInfo, if_neg (by simpa using hother), ih his hfind]

lemma Represents.table_setCell (hm : Represents hash m A) (hfind : A.find hash ino = some i)
    (hino : info.lowerIno = ino) :
    (A.setCell i info).table =
      Function.update A.table (hash ino) (setInfo info (A.table (hash ino))) := by
  obtain ⟨hi, -⟩ := Layout.find_some hfind
  funext b
  by_cases hb : b = hash ino
  · subst hb
    rw [Function.update_self]
    exact filterMap_update (hm.chains.nodup _) hfind hino
  · rw [Function.update_of_ne hb]
    exact filterMap_update_of_notMem (fun hmem => hb (hm.chains.apart b (hash ino) i hmem hi)) _

/-- A record from which the oldest version is evicted when it is full. -/
def evictOldest (info : CowInodeInfo) : CowInodeInfo × Option CowVersion :=
  if info.versionCount ≥ maxVersions then
    (⟨info.lowerIno, info.versions.dropLast, info.versionCount - 1⟩, info.versions.getLast?)
  else (info, none)

lemma mem_evictOldest {w : CowVersion} (hw : w ∈ (evictOldest info).1.versions) :
    w ∈ info.versions := by
  unfold evictOldest at hw
  split_ifs at hw
  · exact List.mem_of_mem_dropLast hw
  · exact hw

lemma linkVersion_eq (v : CowVersion) (info : CowInodeInfo) :
    Cowfs.linkVersion v info =
      ({ (evictOldest info).1 with
        versions := v :: (evictOldest info).1.versions
        versionCount := (evictOldest info).1.versionCount + 1 }, (evictOldest info).2) := by
  unfold Cowfs.linkVersion evictOldest
  split_ifs <;> rfl

lemma evict_spec (hm : Represents hash m A) (hi : A.cells i = some info)
    (hcount : info.versionCount = info.versions.length) :
    ∃ m', m.evict i = some (m', (evictOldest info).2.map CowVersion.node) ∧
      Represents hash m' (A.setCell i (evictOldest info).1) ∧
      (∀ o, (evictOldest info).2 = some o →
        o ∈ info.versions ∧
        Links.Loose (A.setCell i (evictOldest info).1).rings (.node o.node)) ∧
      m'.versions = m.versions := by
  by_cases hfull : info.versionCount ≥ maxVersions
  · rcases List.eq_nil_or_concat' info.versions with hnil | ⟨vs, o, hvs⟩
    · rw [hcount, hnil] at hfull
      simp [maxVersions] at hfull
    · have hring := hm.rings.ring _ _ (Represents.rings_cell hi)
      have hlast : m.lists.prev (.versions i) = some (.node o.node) := by
        have hsplit : nodesOf info.versions = nodesOf vs ++ [.node o.node] := by
          simp [nodesOf, hvs]
        rw [hsplit] at hring
        exact hring.prev_head
      have hback : info.versions = vs ++ o :: [] := hvs
      obtain ⟨m₁, hdel, hm₁, hloose, hv₁⟩ := hm.listDel hi hback
      obtain ⟨m₂, hadd, hm₂, hrings, hv₂⟩ := hm₁.addCount (Function.update_self ..) (-1)
      rw [Layout.setCell_setCell] at hm₂ hrings
      have hevict : evictOldest info =
          (⟨info.lowerIno, vs ++ [], info.versionCount + -1⟩, some o) := by
        rw [evictOldest, if_pos hfull, hvs, List.dropLast_concat, List.getLast?_concat,
          List.append_nil]
        rfl
      rw [hevict]
      refine ⟨m₂, ?_, hm₂, fun o' ho' => ?_, hv₂.trans hv₁⟩
      · have hfull' : info.cell.versionCount ≥ maxVersions := hfull
        simp [evict, hm.infos_of hi, hfull', hlast, ListHead.entry, hdel, hadd]
      · obtain rfl := Option.some.inj ho'
        exact ⟨by simp [hvs], by rw [hrings]; exact hloose⟩
  · have hevict : evictOldest info = (info, none) := by rw [evictOldest, if_neg hfull]
    rw [hevict, Layout.setCell_self hi]
    have hfull' : ¬ info.cell.versionCount ≥ maxVersions := hfull
    refine ⟨m, by simp [evict, hm.infos_of hi, hfull'], hm, fun o ho => ?_, rfl⟩
    cases ho

lemma linkVersion_spec_memory (hm : Represents hash m A) (hi : A.cells i = some info)
    (hcount : info.versionCount = info.versions.length)
    (hloose : Links.Loose A.rings (.node v.node)) (hv : m.versions v.node = some v) :
    ∃ m', m.linkVersion i v.node =
        some ((Cowfs.linkVersion v info).2.toList.map CowVersion.node, m') ∧
      Represents hash m' (A.setCell i (Cowfs.linkVersion v info).1) := by
  obtain ⟨m₁, hevict, hm₁, hout, hv₁⟩ := evict_spec hm hi hcount
  have hself : (A.setCell i (evictOldest info).1).cells i = some (evictOldest info).1 :=
    Function.update_self ..
  have hne : ∀ w ∈ info.versions, v.node ≠ w.node := fun w hw he =>
    hloose (.versions i) (nodesOf info.versions) (Represents.rings_cell hi)
      (List.mem_cons_of_mem _ (he ▸ List.mem_map_of_mem hw))
  have hloose₁ : Links.Loose (A.setCell i (evictOldest info).1).rings (.node v.node) := by
    rw [Layout.rings_setCell]
    refine hloose.update fun hmem => ?_
    have hmem' : ListHead.node v.node ∈ nodesOf (evictOldest info).1.versions := by
      simpa using hmem
    obtain ⟨w, hw, he⟩ := List.mem_map.1 hmem'
    exact hne w (mem_evictOldest hw) (ListHead.node.inj he).symm
  obtain ⟨m₂, hadd, hm₂, hv₂⟩ := hm₁.listAdd hself hloose₁ (by rw [hv₁, hv])
  rw [Layout.setCell_setCell] at hm₂
  obtain ⟨m₃, hadd₃, hm₃, hrings₃, hv₃⟩ := hm₂.addCount (Function.update_self ..) 1
  rw [Layout.setCell_setCell] at hm₃ hrings₃
  rw [linkVersion_eq]
  cases hold : (evictOldest info).2 with
  | none =>
    refine ⟨m₃, ?_, hm₃⟩
    simp [VersionMemory.linkVersion, hevict, hold, hadd, hadd₃]
  | some o =>
    obtain ⟨homem, holoose⟩ := hout o hold
    have ho : m₃.versions o.node = some o := by
      rw [hv₃, hv₂, hv₁]
      exact hm.data i info hi o homem
    -- the evicted version is still in no list, as the new one is another
    have holoose₂ : Links.Loose (A.setCell i { (evictOldest info).1 with
        versions := v :: (evictOldest info).1.versions }).rings (.node o.node) := by
      rw [Layout.rings_setCell] at holoose ⊢
      have hnot : ListHead.node o.node ∉
          ListHead.versions i :: nodesOf (v :: (evictOldest info).1.versions) := fun hmem => by
        rcases List.mem_cons.1 hmem with he | hmem
        · cases he
        rcases List.mem_cons.1 hmem with he | hmem
        · exact hne o homem (ListHead.node.inj he).symm
        · exact holoose _ _ (Function.update_self ..) (List.mem_cons_of_mem _ hmem)
      have hupdate := holoose.update (h := .versions i)
        hnot
      rwa [Function.update_idem] at hupdate
    rw [← hrings₃] at holoose₂
    refine ⟨m₃.setVersion o.node none, ?_, hm₃.setVersion holoose₂ none⟩
    simp [VersionMemory.linkVersion, hevict, hold, hadd, hadd₃, VersionMemory.versionFree, ho]

/-- The addresses in a reply. -/
def TableReply.nodes : TableReply → List ℕ
  | .freed vs => vs.map CowVersion.node
  | .listed vs => vs.map CowVersion.node
  | .found o => o.toList.map CowVersion.node

/-- The insertion below the record at `i`, which is that of `ino`. -/
lemma linkVersion_table (hm : Represents hash m A) (hfreed : A.freed = none)
    (hi : A.cells i = some info) (hfind : A.find hash ino = some i) (hino : info.lowerIno = ino)
    (hcount : info.versionCount = info.versions.length)
    (hloose : Links.Loose A.rings (.node v.node)) (hv : m.versions v.node = some v) :
    ∃ m' B, m.linkVersion i v.node =
        some ((Cowfs.linkVersion v info).2.toList.map CowVersion.node, m') ∧
      Represents hash m' B ∧ B.freed = none ∧
      B.table = Function.update A.table (hash ino)
        (setInfo (Cowfs.linkVersion v info).1 (A.table (hash ino))) := by
  obtain ⟨m', hlink, hm'⟩ := linkVersion_spec_memory hm hi hcount hloose hv
  have hkey : (Cowfs.linkVersion v info).1.lowerIno = ino := by
    rw [← hino]
    unfold Cowfs.linkVersion
    split_ifs <;> rfl
  exact ⟨m', _, hlink, hm', hfreed, hm.table_setCell hfind hkey⟩

section

variable {t : VersionsHtable}

lemma tableExec_add_found (h : Cowfs.findInfo (t (hash ino)) ino = some info) (v : CowVersion)
    (nomem : Bool) :
    tableExec hash t (.add ino v nomem) =
      (.freed (Cowfs.linkVersion v info).2.toList, Function.update t (hash ino)
        (setInfo (Cowfs.linkVersion v info).1 (t (hash ino)))) := by
  simp [tableExec, Cowfs.versionAdd, Cowfs.findOrCreateInodeInfo, h]

lemma tableExec_add_nomem (h : Cowfs.findInfo (t (hash ino)) ino = none) (v : CowVersion) :
    tableExec hash t (.add ino v true) = (.freed [], t) := by
  simp [tableExec, Cowfs.versionAdd, Cowfs.findOrCreateInodeInfo, h]

lemma tableExec_add_created (h : Cowfs.findInfo (t (hash ino)) ino = none) (v : CowVersion) :
    tableExec hash t (.add ino v false) =
      (.freed (Cowfs.linkVersion v ⟨ino, [], 0⟩).2.toList, Function.update
        (Function.update t (hash ino) (⟨ino, [], 0⟩ :: t (hash ino))) (hash ino)
        (setInfo (Cowfs.linkVersion v ⟨ino, [], 0⟩).1 (⟨ino, [], 0⟩ :: t (hash ino)))) := by
  simp [tableExec, Cowfs.versionAdd, Cowfs.findOrCreateInodeInfo, h]

end

lemma versionAdd_spec_memory (hm : Represents hash m A) (hfreed : A.freed = none)
    (hfits : A.Fits fuel) (ht : TableInv hash A.table)
    (hnew : ∀ w ∈ allVersions A.table, w.node ≠ v.node) (ino : UInt64) (nomem : Bool) :
    ∃ m' B, m.versionAdd hash fuel ino v nomem =
        some ((tableExec hash A.table (.add ino v nomem)).1.nodes, m') ∧
      Represents hash m' B ∧ B.freed = none ∧
      B.table = tableStep hash A.table (.add ino v nomem) := by
  have hloose := hm.loose_new hfreed hnew
  have hm₀ := hm.alloc hloose
  set m₀ := (m.setVersion v.node (some v)).initListHead (.node v.node) with hm₀def
  have hv₀ : m₀.versions v.node = some v := Function.update_self ..
  have hsearch := findInfo_spec hm₀ hfits.chain ino
  have htable := A.findInfo_eq hash ino
  cases hfind : A.find hash ino with
  | some i =>
    obtain ⟨hmem, info, hinfo, hino⟩ := Layout.find_some hfind
    have hmem' : info ∈ A.table (hash ino) := List.mem_filterMap.2 ⟨i, hmem, hinfo⟩
    obtain ⟨m', B, hlink, hm', hB, hBtable⟩ := linkVersion_table hm₀ hfreed hinfo hfind hino
      ((ht _).counted info hmem') hloose hv₀
    rw [hfind, Option.bind_some, hinfo] at htable
    have hexec := tableExec_add_found htable v nomem
    refine ⟨m', B, ?_, hm', hB, by rw [hBtable, tableStep, hexec]⟩
    rw [hexec]
    simp [VersionMemory.versionAdd, VersionMemory.findOrCreateInodeInfo, ← hm₀def, hsearch, hfind,
      hlink, TableReply.nodes]
  | none =>
    rw [hfind, Option.bind_none] at htable
    cases nomem with
    | true =>
      have hexec := tableExec_add_nomem htable v
      refine ⟨m₀, A, ?_, hm₀, hfreed, by rw [tableStep, hexec]⟩
      rw [hexec]
      simp [VersionMemory.versionAdd, VersionMemory.findOrCreateInodeInfo, ← hm₀def, hsearch,
        hfind, TableReply.nodes]
    | false =>
      have hm₁ := hm₀.create ino
      have hloose₁ : Links.Loose (A.create hash ino m₀.nextInfo).rings (.node v.node) := by
        rw [Layout.rings_create]
        exact hloose.update (by simp)
      obtain ⟨m', B, hlink, hm', hB, hBtable⟩ := linkVersion_table hm₁ hfreed
        (Function.update_self ..) (A.find_create ino _) rfl rfl hloose₁ hv₀
      have hexec := tableExec_add_created htable v
      rw [hm₀.table_create ino] at hBtable
      refine ⟨m', B, ?_, hm', hB, ?_⟩
      · rw [hexec]
        simp [VersionMemory.versionAdd, VersionMemory.findOrCreateInodeInfo, ← hm₀def, hsearch,
          hfind, hlink, TableReply.nodes]
      · rw [hBtable, tableStep, hexec, Function.update_self]

/-! ## Calls -/

/-- A call of `cowfs_versions.c`: one of the table's, or the search for a removed file. -/
inductive MemoryCall
  | table (call : TableCall)
  | findDeleted (name : CStr) (timestamp : UInt64)

namespace MemoryCall

/-- The call on the table: the addresses it hands out, and the table it leaves. -/
def onTable (hash : UInt64 → Bucket) (t : VersionsHtable) : MemoryCall → List ℕ × VersionsHtable
  | .table call => ((tableExec hash t call).1.nodes, tableStep hash t call)
  | .findDeleted name timestamp =>
    ((Cowfs.versionFindDeleted t name timestamp).toList.map CowVersion.node, t)

/-- The call in memory; `none` where a pointer is followed that must not be. -/
def onMemory (hash : UInt64 → Bucket) (fuel : ℕ) (m : VersionMemory) :
    MemoryCall → Option (List ℕ × VersionMemory)
  | .table (.add ino v nomem) => m.versionAdd hash fuel ino v nomem
  | .table (.gc now windowSeconds) => m.versionGc fuel now windowSeconds
  | .table .gcAll => m.versionsGcAll fuel
  | .table (.list ino maxCount) => (m.versionList hash fuel ino maxCount).map fun out => (out, m)
  | .table (.find ino timestamp) =>
    (m.versionFind hash fuel ino timestamp).map fun found => (found.toList, m)
  | .findDeleted name timestamp =>
    (m.versionFindDeleted fuel name timestamp).map fun found => (found.toList, m)

def tableStep (hash : UInt64 → Bucket) (t : VersionsHtable) (call : MemoryCall) :
    VersionsHtable :=
  (call.onTable hash t).2

/-- The record a call adds is in no list. -/
def AddsNew (t : VersionsHtable) : MemoryCall → Prop
  | .table call => call.AddsNew t
  | .findDeleted _ _ => True

lemma onTable_gc (t : VersionsHtable) (now windowSeconds : UInt64) :
    onTable hash t (.table (.gc now windowSeconds)) =
      ((Cowfs.versionGc t now windowSeconds).2.map CowVersion.node,
        (Cowfs.versionGc t now windowSeconds).1) := by
  rw [onTable, tableStep_gc, tableExec_gc, TableReply.nodes]

lemma onTable_gcAll (t : VersionsHtable) :
    onTable hash t (.table .gcAll) =
      ((Cowfs.versionsGcAll t).2.map CowVersion.node, (Cowfs.versionsGcAll t).1) := by
  rw [onTable, Cowfs.tableStep, tableExec_gcAll, TableReply.nodes]

lemma tableStep_inv {t : VersionsHtable} (ht : TableInv hash t) (call : MemoryCall) :
    TableInv hash (call.tableStep hash t) := by
  cases call with
  | table call => exact (tableStep_added ht call).1
  | findDeleted name timestamp => exact ht

end MemoryCall

/-- Fuel enough for the records of the table, the versions of one of them and those that a
collector releases. -/
lemma Represents.fits (hm : Represents hash m A) (ht : TableInv hash A.table)
    (hfuel : (allInfos A.table).length + maxVersions < fuel) : A.Fits fuel := by
  refine ⟨fun b => ?_, fun i info hi => ?_⟩
  · have hsome : ∀ i ∈ A.buckets b, (A.cells i).isSome := fun i hi => by
      obtain ⟨info, hinfo, -⟩ := (hm.home b i).1 hi
      rw [hinfo, Option.isSome_some]
    have hlen : (A.table b).length = (A.buckets b).length :=
      List.filterMap_length_eq_length.2 hsome
    have hsub : (A.table b).Sublist (allInfos A.table) :=
      List.sublist_flatten_of_mem (List.mem_map_of_mem (List.mem_finRange b))
    have hle := hsub.length_le
    omega
  · have hmem : i ∈ A.buckets (hash info.lowerIno) := (hm.home _ i).2 ⟨info, hi, rfl⟩
    have hbound : info.versions.length ≤ maxVersions :=
      (ht _).bounded info (List.mem_filterMap.2 ⟨i, hmem, hi⟩)
    omega

/-- **One call.**  In memory as on the table. -/
theorem onMemory_spec (hm : Represents hash m A) (hfreed : A.freed = none)
    (ht : TableInv hash A.table) {call : MemoryCall} (hnew : call.AddsNew A.table)
    (hfuel : (allInfos A.table).length + maxVersions +
      (call.onTable hash A.table).1.length < fuel) :
    ∃ m' B, call.onMemory hash fuel m = some ((call.onTable hash A.table).1, m') ∧
      Represents hash m' B ∧ B.freed = none ∧ B.table = call.tableStep hash A.table := by
  have hfits : A.Fits fuel := hm.fits ht (Nat.lt_of_le_of_lt (Nat.le_add_right ..) hfuel)
  cases call with
  | table call =>
    cases call with
    | add ino v nomem => exact versionAdd_spec_memory hm hfreed hfits ht hnew ino nomem
    | gc now windowSeconds =>
      simp only [MemoryCall.onTable_gc, List.length_map] at hfuel
      rw [MemoryCall.tableStep, MemoryCall.onTable_gc]
      dsimp only [MemoryCall.onMemory]
      exact versionGc_spec hm hfreed now windowSeconds hfits.chain hfits.list
        (Nat.lt_of_le_of_lt (Nat.le_add_left ..) hfuel)
    | gcAll =>
      simp only [MemoryCall.onTable_gcAll, List.length_map] at hfuel
      rw [MemoryCall.tableStep, MemoryCall.onTable_gcAll]
      dsimp only [MemoryCall.onMemory]
      exact versionsGcAll_spec hm hfreed hfits.chain hfits.list
        (Nat.lt_of_le_of_lt (Nat.le_add_left ..) hfuel)
    | list ino maxCount =>
      refine ⟨m, A, ?_, hm, hfreed, rfl⟩
      simp only [MemoryCall.onMemory, versionList_spec hm hfits, Option.map_some]
      rfl
    | find ino timestamp =>
      refine ⟨m, A, ?_, hm, hfreed, rfl⟩
      simp only [MemoryCall.onMemory, versionFind_spec hm hfits, Option.map_some,
        Option.toList_map]
      rfl
  | findDeleted name timestamp =>
    refine ⟨m, A, ?_, hm, hfreed, rfl⟩
    simp only [MemoryCall.onMemory, versionFindDeleted_spec hm hfits, Option.map_some,
      Option.toList_map]
    rfl

/-! ## Runs -/

/-- The calls in memory, one after the other: what each of them hands out, and the memory left. -/
def memoryRun (hash : UInt64 → Bucket) (fuel : ℕ) (calls : List MemoryCall) :
    Option (List (List ℕ) × VersionMemory) :=
  calls.foldlM (fun acc call =>
    (call.onMemory hash fuel acc.2).map fun r => (acc.1 ++ [r.1], r.2)) ([], .init)

lemma memoryRun_concat (hash : UInt64 → Bucket) (fuel : ℕ) (calls : List MemoryCall)
    (call : MemoryCall) :
    memoryRun hash fuel (calls ++ [call]) = (memoryRun hash fuel calls).bind fun acc =>
      (call.onMemory hash fuel acc.2).map fun r => (acc.1 ++ [r.1], r.2) := by
  simp [memoryRun]

/-- What the same calls hand out on the table. -/
def tableReplies (hash : UInt64 → Bucket) (calls : List MemoryCall) : List (List ℕ) :=
  observe (MemoryCall.tableStep hash) (fun t call => [(call.onTable hash t).1])
    VersionsHtable.init calls

/-- **The rule of a run in memory.**  `J` is what else the calls keep, each of which ends and hands
out what the table says. -/
lemma memoryRun_rule {calls : List MemoryCall}
    (hnew : Along (MemoryCall.tableStep hash) MemoryCall.AddsNew VersionsHtable.init calls)
    {J : List MemoryCall → VersionMemory → Prop} (hinit : J [] .init)
    (hcall : ∀ past call post fuel m m', calls = past ++ call :: post →
      TableInv hash (run (MemoryCall.tableStep hash) VersionsHtable.init past) → J past m →
      call.onMemory hash fuel m =
        some ((call.onTable hash (run (MemoryCall.tableStep hash) VersionsHtable.init past)).1,
          m') →
      J (past ++ [call]) m') :
    ∃ fuel₀, ∀ fuel ≥ fuel₀, ∃ m A,
      memoryRun hash fuel calls = some (tableReplies hash calls, m) ∧
      Represents hash m A ∧ A.freed = none ∧
      A.table = run (MemoryCall.tableStep hash) VersionsHtable.init calls ∧ J calls m := by
  have hrun : TableInv hash (run (MemoryCall.tableStep hash) VersionsHtable.init calls) ∧
      ∃ fuel₀, ∀ fuel ≥ fuel₀, ∃ m A,
        memoryRun hash fuel calls = some (tableReplies hash calls, m) ∧
        Represents hash m A ∧ A.freed = none ∧
        A.table = run (MemoryCall.tableStep hash) VersionsHtable.init calls ∧ J calls m := by
    refine prefix_run (I := fun past t => TableInv hash t ∧
      ∃ fuel₀, ∀ fuel ≥ fuel₀, ∃ m A, memoryRun hash fuel past = some (tableReplies hash past, m) ∧
        Represents hash m A ∧ A.freed = none ∧ A.table = t ∧ J past m) ?_ ?_
    · exact ⟨tableInv_init, 0, fun fuel _ =>
        ⟨.init, .init, rfl, represents_init, rfl, rfl, hinit⟩⟩
    · rintro past call post hcalls ⟨ht, fuel₀, hfuel₀⟩
      have hcallnew := (hcalls ▸ hnew).at
      have hkept := fun fuel m m' => hcall past call post fuel m m' hcalls ht
      set t := run (MemoryCall.tableStep hash) VersionsHtable.init past with htdef
      refine ⟨MemoryCall.tableStep_inv ht call, max fuel₀ ((allInfos t).length + maxVersions +
        (call.onTable hash t).1.length + 1), fun fuel hfuel => ?_⟩
      obtain ⟨hpast, hfuel'⟩ := max_le_iff.1 hfuel
      obtain ⟨m, A, hm, hrep, hfreed, hA, hJ⟩ := hfuel₀ fuel hpast
      obtain ⟨m', B, hm', hrep', hB, hBtable⟩ := onMemory_spec hrep hfreed (hA ▸ ht)
        (hA.symm ▸ hcallnew) (hA.symm ▸ hfuel')
      rw [hA] at hm' hBtable
      refine ⟨m', B, ?_, hrep', hB, hBtable, hkept fuel m m' hJ hm'⟩
      rw [memoryRun_concat, hm, Option.bind_some, hm', Option.map_some, tableReplies, tableReplies,
        observe_concat]
  exact hrun.2

/-- **The pointers refine the version table.**  After every sequence of calls, in which any
allocation may fail and every record added is one that is in no list, the memory holds the table
that the calls leave, and every call has handed out what the table says. -/
theorem memory_refines_table (hash : UInt64 → Bucket) (calls : List MemoryCall)
    (hnew : Along (MemoryCall.tableStep hash) MemoryCall.AddsNew VersionsHtable.init calls) :
    ∃ fuel₀, ∀ fuel ≥ fuel₀, ∃ m A,
      memoryRun hash fuel calls = some (tableReplies hash calls, m) ∧
      Represents hash m A ∧ A.freed = none ∧
      A.table = run (MemoryCall.tableStep hash) VersionsHtable.init calls := by
  obtain ⟨fuel₀, hfuel₀⟩ := memoryRun_rule (J := fun _ _ => True) hnew trivial
    (by intros; trivial)
  refine ⟨fuel₀, fun fuel hfuel => ?_⟩
  obtain ⟨m, A, hm, hrep, hfreed, hA, -⟩ := hfuel₀ fuel hfuel
  exact ⟨m, A, hm, hrep, hfreed, hA⟩

lemma along_table {t : VersionsHtable} {calls : List TableCall}
    (h : Along (tableStep hash) TableCall.AddsNew t calls) :
    Along (MemoryCall.tableStep hash) MemoryCall.AddsNew t (calls.map .table) := by
  induction calls generalizing t with
  | nil => trivial
  | cons call calls ih => exact ⟨h.1, ih h.2⟩

/-- After `fullCalls`, a search for a removed file and the unloading of the module. -/
def fullMemoryCalls : List MemoryCall :=
  fullCalls.map .table ++ [.findDeleted [] 0, .table .gcAll]

lemma fullMemoryCalls_addsNew :
    Along (MemoryCall.tableStep fun _ => 0) MemoryCall.AddsNew VersionsHtable.init
      fullMemoryCalls :=
  (along_append _ _ _ _ _).2 ⟨along_table fullCalls_addsNew, trivial, trivial, trivial⟩

theorem memory_refines_table_full :
    ∃ fuel₀, ∀ fuel ≥ fuel₀, ∃ m A,
      memoryRun (fun _ => 0) fuel fullMemoryCalls =
        some (tableReplies (fun _ => 0) fullMemoryCalls, m) ∧
      Represents (fun _ => 0) m A ∧ A.freed = none ∧
      A.table = run (MemoryCall.tableStep fun _ => 0) VersionsHtable.init fullMemoryCalls :=
  memory_refines_table (fun _ => 0) fullMemoryCalls fullMemoryCalls_addsNew

end Cowfs
