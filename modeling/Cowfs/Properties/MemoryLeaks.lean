import Cowfs.Properties.MemoryRefinement

/-!
# What stays in memory

Which version records a call gives back: what a memory still has after the call, it had before,
and it is not among the addresses the call has released.  With the refinement this leaves, after
any run, the versions of the table and those whose insertion failed; of what was handed to
`cowfs_version_add` nothing else is still in use.
-/

namespace Cowfs

open VersionMemory

variable {hash : UInt64 → Bucket} {m m' : VersionMemory} {i : ℕ} {fuel : ℕ} {out : List ℕ}
  {v w : CowVersion} {t : VersionsHtable}

/-! ## The pointer operations give nothing back -/

namespace VersionMemory

lemma listDel_versions {x : ListHead} (h : m.listDel x = some m') : m'.versions = m.versions := by
  obtain ⟨lists, -, rfl⟩ := Option.map_eq_some_iff.1 h
  rfl

lemma listAdd_versions {x head : ListHead} (h : m.listAdd x head = some m') :
    m'.versions = m.versions := by
  obtain ⟨lists, -, rfl⟩ := Option.map_eq_some_iff.1 h
  rfl

lemma addCount_versions {d : ℤ} (h : m.addCount i d = some m') : m'.versions = m.versions := by
  obtain ⟨info, -, rfl⟩ := Option.map_eq_some_iff.1 h
  rfl

lemma findOrCreateInodeInfo_versions {ino : UInt64} {nomem : Bool} {found : Option ℕ}
    (h : m.findOrCreateInodeInfo hash fuel ino nomem = some (m', found)) :
    m'.versions = m.versions := by
  obtain ⟨o, -, ho⟩ := Option.map_eq_some_iff.1 h
  cases o with
  | some i =>
    obtain ⟨rfl, -⟩ := Prod.mk.inj ho
    rfl
  | none =>
    cases nomem <;>
      obtain ⟨rfl, -⟩ := Prod.mk.inj ho <;> rfl

lemma evict_versions {oldest : Option ℕ} (h : m.evict i = some (m', oldest)) :
    m'.versions = m.versions := by
  obtain ⟨info, -, hrest⟩ := Option.bind_eq_some_iff.1 h
  split_ifs at hrest with hfull
  · obtain ⟨o, -, hdel⟩ := Option.bind_eq_some_iff.1 hrest
    obtain ⟨m₁, hm₁, hcount⟩ := Option.bind_eq_some_iff.1 hdel
    obtain ⟨m₂, hm₂, hend⟩ := Option.bind_eq_some_iff.1 hcount
    obtain ⟨rfl, -⟩ := Prod.mk.inj (Option.some.inj hend)
    rw [addCount_versions hm₂, listDel_versions hm₁]
  · obtain ⟨rfl, -⟩ := Prod.mk.inj (Option.some.inj hrest)
    rfl

lemma gcVersion_versions {cutoff : UInt64} {pos : ListHead}
    (h : gcVersion cutoff i pos m = some m') : m'.versions = m.versions := by
  obtain ⟨v, -, hrest⟩ := Option.bind_eq_some_iff.1 h
  split_ifs at hrest with hold
  · obtain ⟨m₁, hm₁, hcount⟩ := Option.bind_eq_some_iff.1 hrest
    obtain ⟨m₂, hm₂, hadd⟩ := Option.bind_eq_some_iff.1 hcount
    rw [listAdd_versions hadd, addCount_versions hm₂, listDel_versions hm₁]
  · obtain rfl := Option.some.inj hrest
    rfl

lemma drainVersion_versions {pos : ListHead} (h : drainVersion pos m = some m') :
    m'.versions = m.versions := by
  obtain ⟨m₁, hm₁, hadd⟩ := Option.bind_eq_some_iff.1 h
  rw [listAdd_versions hadd, listDel_versions hm₁]

lemma freeInfo_versions (h : freeInfo i m = some m') : m'.versions = m.versions := by
  obtain ⟨chains, -, hrest⟩ := Option.bind_eq_some_iff.1 h
  obtain ⟨info, -, hend⟩ := Option.bind_eq_some_iff.1 hrest
  obtain rfl := Option.some.inj hend
  rfl

lemma hashForEach_keeps {body : ℕ → VersionMemory → Option VersionMemory}
    (hbody : ∀ i m m', body i m = some m' → m'.versions = m.versions)
    (h : hashForEach fuel id body m = some m') : m'.versions = m.versions := by
  refine foldlM_keeps (P := fun m' => m'.versions = m.versions) (fun b m₁ m₂ h₁ h₂ => ?_) rfl h
  exact Chains.walk_keeps (P := fun m' => m'.versions = m.versions)
    (fun i m₃ m₄ h₃ h₄ => (hbody i m₃ m₄ h₄).trans h₃) h₁ h₂

lemma hashForEachSafe_keeps {body : ℕ → VersionMemory → Option VersionMemory}
    (hbody : ∀ i m m', body i m = some m' → m'.versions = m.versions)
    (h : hashForEachSafe fuel id body m = some m') : m'.versions = m.versions := by
  refine foldlM_keeps (P := fun m' => m'.versions = m.versions) (fun b m₁ m₂ h₁ h₂ => ?_) rfl h
  exact Chains.walkSafe_keeps (P := fun m' => m'.versions = m.versions)
    (fun i m₃ m₄ h₃ h₄ => (hbody i m₃ m₄ h₄).trans h₃) h₁ h₂

/-- A walk over a list whose body gives nothing back. -/
lemma forEachSafe_versions {h : ListHead} {body : ListHead → VersionMemory → Option VersionMemory}
    (hbody : ∀ pos m m', body pos m = some m' → m'.versions = m.versions)
    (hend : Links.forEachSafe lists h body fuel m = some m') : m'.versions = m.versions :=
  Links.forEachSafe_keeps (P := fun m' => m'.versions = m.versions)
    (fun pos m₁ m₂ h₁ h₂ => (hbody pos m₁ m₂ h₂).trans h₁) rfl hend

/-! ## What a call gives back -/

/-- What `m'` has was in `m`, and is not among `out`. -/
def Releases (out : List ℕ) (m m' : VersionMemory) : Prop :=
  ∀ n w, m'.versions n = some w → n ∉ out ∧ m.versions n = some w

lemma Releases.of_versions (h : m'.versions = m.versions) : Releases [] m m' := fun n w hw =>
  ⟨List.not_mem_nil, by rw [← h, hw]⟩

lemma versionFree_releases {n : ℕ} (h : m.versionFree n = some m') : Releases [n] m m' := by
  obtain ⟨v, -, rfl⟩ := Option.map_eq_some_iff.1 h
  intro k w hw
  have hne : k ≠ n := by
    rintro rfl
    simp [setVersion] at hw
  exact ⟨by simpa using hne, by simpa [setVersion, hne] using hw⟩

lemma Releases.trans {m'' : VersionMemory} {out' : List ℕ} (h : Releases out m m')
    (h' : Releases out' m' m'') : Releases (out ++ out') m m'' := by
  intro n w hw
  obtain ⟨hn', hw'⟩ := h' n w hw
  obtain ⟨hn, hw''⟩ := h n w hw'
  exact ⟨fun hmem => (List.mem_append.1 hmem).elim hn hn', hw''⟩

lemma releaseFreed_releases (h : m.releaseFreed fuel = some (out, m')) : Releases out m m' := by
  refine Links.forEachSafe_keeps
    (P := fun acc : List ℕ × VersionMemory => Releases acc.1 m acc.2) ?_
    (Releases.of_versions rfl) h
  intro pos acc acc' hacc hbody
  obtain ⟨m₁, hm₁, hrest⟩ := Option.bind_eq_some_iff.1 hbody
  obtain ⟨n, -, hfree⟩ := Option.bind_eq_some_iff.1 hrest
  obtain ⟨m₂, hm₂, hend⟩ := Option.bind_eq_some_iff.1 hfree
  obtain rfl := Option.some.inj hend
  have hsame := hacc.trans (Releases.of_versions (listDel_versions hm₁))
  rw [List.append_nil] at hsame
  exact hsame.trans (versionFree_releases hm₂)

lemma linkVersion_releases {n : ℕ} (h : m.linkVersion i n = some (out, m')) :
    Releases out m m' := by
  obtain ⟨⟨m₁, oldest⟩, hevict, hrest⟩ := Option.bind_eq_some_iff.1 h
  obtain ⟨m₂, hadd, hrest'⟩ := Option.bind_eq_some_iff.1 hrest
  obtain ⟨m₃, hcount, hend⟩ := Option.bind_eq_some_iff.1 hrest'
  have hsame : m₃.versions = m.versions := by
    rw [addCount_versions hcount, listAdd_versions hadd, evict_versions hevict]
  cases oldest with
  | none =>
    obtain ⟨rfl, rfl⟩ := Prod.mk.inj (Option.some.inj hend)
    exact .of_versions hsame
  | some o =>
    obtain ⟨m₄, hfree, he⟩ := Option.map_eq_some_iff.1 hend
    obtain ⟨rfl, rfl⟩ := Prod.mk.inj he
    exact (Releases.of_versions hsame).trans (versionFree_releases hfree)

lemma versionAdd_releases {ino : UInt64} {nomem : Bool}
    (h : m.versionAdd hash fuel ino v nomem = some (out, m')) :
    Releases out (m.setVersion v.node (some v)) m' := by
  obtain ⟨⟨m₁, found⟩, hfound, hrest⟩ := Option.bind_eq_some_iff.1 h
  have hsame : m₁.versions =
      ((m.setVersion v.node (some v)).initListHead (.node v.node)).versions :=
    findOrCreateInodeInfo_versions hfound
  cases found with
  | none =>
    obtain ⟨rfl, rfl⟩ := Prod.mk.inj (Option.some.inj hrest)
    exact .of_versions hsame
  | some i => exact (Releases.of_versions hsame).trans (linkVersion_releases hrest)

lemma versionGc_releases {now windowSeconds : UInt64}
    (h : m.versionGc fuel now windowSeconds = some (out, m')) : Releases out m m' := by
  obtain ⟨m₁, hscan, hfree⟩ := Option.bind_eq_some_iff.1 h
  have hsame : m₁.versions = (m.initListHead .freed).versions :=
    hashForEach_keeps (fun i m₂ m₃ hlist => forEachSafe_versions
      (fun pos m₄ m₅ hbody => gcVersion_versions hbody) hlist) hscan
  exact (Releases.of_versions hsame).trans (releaseFreed_releases hfree)

lemma versionsGcAll_releases (h : m.versionsGcAll fuel = some (out, m')) : Releases out m m' := by
  obtain ⟨m₁, hscan, hfree⟩ := Option.bind_eq_some_iff.1 h
  have hbody : ∀ i m₂ m₃, (Links.forEachSafe lists (.versions i) drainVersion fuel m₂).bind
      (freeInfo i) = some m₃ → m₃.versions = m₂.versions := by
    intro i m₂ m₃ hbody
    obtain ⟨m₄, hdrain, hinfo⟩ := Option.bind_eq_some_iff.1 hbody
    rw [freeInfo_versions hinfo]
    exact forEachSafe_versions (fun pos m₅ m₆ hpos => drainVersion_versions hpos) hdrain
  have hsame : m₁.versions = (m.initListHead .freed).versions := hashForEachSafe_keeps hbody hscan
  exact (Releases.of_versions hsame).trans (releaseFreed_releases hfree)

end VersionMemory

/-! ## What a call takes out of the table -/

lemma mem_versionAdd {ino : UInt64} {nomem : Bool} {t' : VersionsHtable}
    {oldest : Option CowVersion} (ht : TableInv hash t)
    (h : Cowfs.versionAdd hash t ino v nomem = some (t', oldest))
    (hw : w ∈ allVersions t ∨ w = v) : w ∈ allVersions t' ∨ oldest = some w := by
  obtain ⟨ht', hview, hold⟩ := versionAdd_spec ht h
  have hkey : w ∈ v :: tableView hash t ino → w ∈ allVersions t' ∨ oldest = some w := by
    intro hmem
    rw [← List.take_append_drop maxVersions (v :: tableView hash t ino)] at hmem
    rcases List.mem_append.1 hmem with hkept | hdropped
    · refine .inl (ht'.mem_allVersions.2 ⟨ino, ?_⟩)
      rw [hview, KeyedLog.push_self]
      exact hkept
    · rw [← hold] at hdropped
      exact .inr (Option.mem_toList.1 hdropped)
  rcases hw with hw | rfl
  · obtain ⟨ino', hmem⟩ := ht.mem_allVersions.1 hw
    by_cases hino : ino' = ino
    · subst hino
      exact hkey (List.mem_cons_of_mem v hmem)
    · refine .inl (ht'.mem_allVersions.2 ⟨ino', ?_⟩)
      rw [hview, KeyedLog.push_of_ne hino]
      exact hmem
  · exact hkey List.mem_cons_self

lemma mem_versionGc (ht : TableInv hash t) (now windowSeconds : UInt64)
    (hw : w ∈ allVersions t) :
    w ∈ allVersions (Cowfs.versionGc t now windowSeconds).1 ∨
      w ∈ (Cowfs.versionGc t now windowSeconds).2 := by
  obtain ⟨ino, hmem⟩ := ht.mem_allVersions.1 hw
  by_cases hold : expired (gcCutoff now windowSeconds) w = true
  · exact .inr ((mem_versionGc_freed ht).2 ⟨⟨ino, hmem⟩, hold⟩)
  · refine .inl ((versionGc_inv ht now windowSeconds).mem_allVersions.2 ⟨ino, ?_⟩)
    rw [versionGc_view]
    exact List.mem_filter.2 ⟨hmem, by simpa using hold⟩

/-! ## Runs -/

/-- The record whose insertion fails in a call. -/
def unlinkedBy (hash : UInt64 → Bucket) (t : VersionsHtable) : MemoryCall → List ℕ
  | .table (.add ino v nomem) =>
    if (Cowfs.versionAdd hash t ino v nomem).isNone then [v.node] else []
  | _ => []

/-- The records whose insertion failed. -/
def unlinked (hash : UInt64 → Bucket) (calls : List MemoryCall) : List ℕ :=
  observe (MemoryCall.tableStep hash) (unlinkedBy hash) VersionsHtable.init calls

/-- A version in memory is at its own address, and in the table or among the records `lost`. -/
def Known (t : VersionsHtable) (lost : List ℕ) (m : VersionMemory) : Prop :=
  ∀ n w, m.versions n = some w → w.node = n ∧ (w ∈ allVersions t ∨ n ∈ lost)

/-- A call that gives back what it takes out of the table. -/
lemma Known.releases {t' : VersionsHtable} {lost : List ℕ} (h : Known t lost m)
    (hout : Releases out m m')
    (hkept : ∀ w ∈ allVersions t, w ∈ allVersions t' ∨ w.node ∈ out) : Known t' lost m' := by
  intro n w hw
  obtain ⟨hn, hw'⟩ := hout n w hw
  obtain ⟨rfl, hin | hlost⟩ := h n w hw'
  · exact ⟨rfl, .inl ((hkept w hin).resolve_right hn)⟩
  · exact ⟨rfl, .inr hlost⟩

lemma Known.versionAdd {lost : List ℕ} (h : Known t lost m) (ht : TableInv hash t) {ino : UInt64}
    {nomem : Bool}
    (hadd : m.versionAdd hash fuel ino v nomem =
      some ((tableExec hash t (.add ino v nomem)).1.nodes, m')) :
    Known (Cowfs.tableStep hash t (.add ino v nomem))
      (lost ++ unlinkedBy hash t (.table (.add ino v nomem))) m' := by
  intro n w hw
  obtain ⟨hout, hw'⟩ := versionAdd_releases hadd n w hw
  -- either the new version or one that was there
  have hknown : w.node = n ∧ ((w ∈ allVersions t ∨ w = v) ∨ n ∈ lost) := by
    by_cases hn : n = v.node
    · subst hn
      have hwv : v = w := by simpa [setVersion] using hw'
      subst hwv
      exact ⟨rfl, .inl (.inr rfl)⟩
    · have hold : m.versions n = some w := by simpa [setVersion, hn] using hw'
      obtain ⟨he, hin⟩ := h n w hold
      exact ⟨he, hin.imp_left .inl⟩
  obtain ⟨rfl, hin | hlost⟩ := hknown
  · refine ⟨rfl, ?_⟩
    simp only [tableStep, tableExec, unlinkedBy] at hout ⊢
    cases hexec : Cowfs.versionAdd hash t ino v nomem with
    | none => exact hin.imp_right fun he => by simp [he]
    | some p =>
      rw [hexec] at hout
      refine .inl ((mem_versionAdd ht hexec hin).resolve_right fun hold => hout ?_)
      simp [hold, TableReply.nodes]
  · exact ⟨rfl, .inr (List.mem_append_left _ hlost)⟩

/-- **One call.**  What stays in memory after it. -/
lemma Known.onMemory {lost : List ℕ} (h : Known t lost m) (ht : TableInv hash t)
    {call : MemoryCall} (hcall : call.onMemory hash fuel m = some ((call.onTable hash t).1, m')) :
    Known (call.tableStep hash t) (lost ++ unlinkedBy hash t call) m' := by
  cases call with
  | table call =>
    cases call with
    | add ino v nomem => exact h.versionAdd ht hcall
    | gc now windowSeconds =>
      simp only [MemoryCall.onTable_gc] at hcall
      simp only [MemoryCall.tableStep, MemoryCall.onTable_gc, unlinkedBy, List.append_nil]
      exact h.releases (versionGc_releases hcall) fun w hw =>
        (mem_versionGc ht now windowSeconds hw).imp_right fun hgone => List.mem_map_of_mem hgone
    | gcAll =>
      simp only [MemoryCall.onTable_gcAll] at hcall
      simp only [MemoryCall.tableStep, MemoryCall.onTable_gcAll, unlinkedBy, List.append_nil]
      refine h.releases (versionsGcAll_releases hcall) fun w hw => .inr ?_
      rw [versionsGcAll_eq]
      exact List.mem_map_of_mem (List.mem_reverse.2 hw)
    | list ino maxCount =>
      obtain ⟨out, -, he⟩ := Option.map_eq_some_iff.1 hcall
      obtain ⟨-, rfl⟩ := Prod.mk.inj he
      simpa only [MemoryCall.tableStep, MemoryCall.onTable, Cowfs.tableStep, tableExec, unlinkedBy,
        List.append_nil] using h
    | find ino timestamp =>
      obtain ⟨found, -, he⟩ := Option.map_eq_some_iff.1 hcall
      obtain ⟨-, rfl⟩ := Prod.mk.inj he
      simpa only [MemoryCall.tableStep, MemoryCall.onTable, Cowfs.tableStep, tableExec, unlinkedBy,
        List.append_nil] using h
  | findDeleted name timestamp =>
    obtain ⟨found, -, he⟩ := Option.map_eq_some_iff.1 hcall
    obtain ⟨-, rfl⟩ := Prod.mk.inj he
    simpa only [MemoryCall.tableStep, MemoryCall.onTable, unlinkedBy, List.append_nil] using h

/-- **What stays in memory.**  After every sequence of calls, in which any allocation may fail and
every record added is one that is in no list, each version of the table is in memory at its
address, and a version in memory is one of these, or its insertion has failed. -/
theorem versions_in_memory (hash : UInt64 → Bucket) (calls : List MemoryCall)
    (hnew : Along (MemoryCall.tableStep hash) MemoryCall.AddsNew VersionsHtable.init calls) :
    ∃ fuel₀, ∀ fuel ≥ fuel₀, ∃ replies m,
      memoryRun hash fuel calls = some (replies, m) ∧
      (∀ w ∈ allVersions (run (MemoryCall.tableStep hash) VersionsHtable.init calls),
        m.versions w.node = some w) ∧
      ∀ n w, m.versions n = some w → w.node = n ∧
        (w ∈ allVersions (run (MemoryCall.tableStep hash) VersionsHtable.init calls) ∨
          n ∈ unlinked hash calls) := by
  obtain ⟨fuel₀, hfuel₀⟩ := memoryRun_rule hnew (J := fun past m =>
    Known (run (MemoryCall.tableStep hash) VersionsHtable.init past) (unlinked hash past) m)
    (fun n w hw => by cases hw) (fun past call post fuel m m' _ ht hJ hcall => by
      rw [run_concat, unlinked, observe_concat]
      exact hJ.onMemory ht hcall)
  refine ⟨fuel₀, fun fuel hfuel => ?_⟩
  obtain ⟨m, A, hm, hrep, -, hA, hknown⟩ := hfuel₀ fuel hfuel
  refine ⟨_, m, hm, fun w hw => ?_, hknown⟩
  rw [← hA] at hw
  obtain ⟨b, -, hb⟩ := List.mem_flatMap.1 hw
  obtain ⟨info, hinfo, hv⟩ := List.mem_flatMap.1 hb
  obtain ⟨i, -, hi⟩ := List.mem_filterMap.1 hinfo
  exact hrep.data i info hi w hv

theorem versions_in_memory_full :
    ∃ fuel₀, ∀ fuel ≥ fuel₀, ∃ replies m,
      memoryRun (fun _ => 0) fuel fullMemoryCalls = some (replies, m) ∧
      (∀ w ∈ allVersions (run (MemoryCall.tableStep fun _ => 0) VersionsHtable.init
        fullMemoryCalls), m.versions w.node = some w) ∧
      ∀ n w, m.versions n = some w → w.node = n ∧
        (w ∈ allVersions (run (MemoryCall.tableStep fun _ => 0) VersionsHtable.init
          fullMemoryCalls) ∨ n ∈ unlinked (fun _ => 0) fullMemoryCalls) :=
  versions_in_memory (fun _ => 0) fullMemoryCalls fullMemoryCalls_addsNew

end Cowfs
