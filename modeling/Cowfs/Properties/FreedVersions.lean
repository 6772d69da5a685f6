import Cowfs.Construction.Concurrent
import Cowfs.Properties.TableRefinement

/-!
# Reads of released versions

A search returns bare pointers and lets go of the lock, so that nothing keeps the records it found
from being unlinked and released before they are read.  That is the one way to read a released
record: where no record is released while a thread has reads of it before it, every read of the
run is of a record that is still there.

`Tracked` follows each record through its life (`fresh`, `taken` by a snapshot, `stored` in the
table, `gone`): what is stored has not been released, so a search hands out no released record.
-/

namespace Cowfs

open KeyedLog

variable {hash : UInt64 → Bucket} {s s' : TableThreads}

/-! ## Statement -/

/-- No thread is about to read a released record. -/
def NoDangling (s : TableThreads) : Prop :=
  ∀ t n f, (n, f) ∈ s.reading t → n ∉ s.released

/-- A step that releases a record releases one that no thread has still to read. -/
def QuietFree (s : TableThreads) : TableAct → Prop
  | .free t => ∀ v vs, s.freeing t = v :: vs → ∀ t' f, (v.node, f) ∉ s.reading t'
  | _ => True

/-- The record and field a step reads. -/
def readBy (s : TableThreads) : TableAct → Option (ℕ × Field)
  | .read t => (s.reading t).head?
  | _ => none

/-! ## The life of a record -/

inductive NodeStatus
  | fresh
  | taken (t : ℕ)
  | stored
  | gone
  deriving DecidableEq

/-- Every record outside the table is where its status says. -/
structure Outside (s : TableThreads) (st : ℕ → NodeStatus) : Prop where
  fresh : ∀ n, s.nextNode ≤ n → st n = .fresh
  taking : ∀ t sn, s.taking t = some sn → st sn.version.node = .taken t
  freeing : ∀ t, ∀ v ∈ s.freeing t, st v.node = .gone
  released : ∀ n ∈ s.released, st n = .gone

/-- Every record is where its status says. -/
structure Tracked (hash : UInt64 → Bucket) (s : TableThreads) (st : ℕ → NodeStatus) : Prop
    extends Outside s st where
  inv : TableInv hash s.table
  distinct : (tableView hash s.table).Distinct CowVersion.node
  stored : ∀ v, (tableView hash s.table).Holds v → st v.node = .stored

/-- The status when the records of `freed` have been unlinked. -/
def retire (st : ℕ → NodeStatus) (freed : List CowVersion) (n : ℕ) : NodeStatus :=
  if n ∈ freed.map CowVersion.node then .gone else st n

variable {st : ℕ → NodeStatus} {freed : List CowVersion} {n : ℕ}

lemma retire_of_mem {v : CowVersion} (h : v ∈ freed) : retire st freed v.node = .gone :=
  if_pos (List.mem_map_of_mem h)

lemma retire_of_ne {x : NodeStatus} (hfreed : ∀ v ∈ freed, st v.node ≠ x) (h : st n = x) :
    retire st freed n = x := by
  unfold retire
  rw [if_neg, h]
  intro hmem
  obtain ⟨v, hv, rfl⟩ := List.mem_map.1 hmem
  exact hfreed v hv h

lemma retire_of_gone (h : st n = .gone) : retire st freed n = .gone := by
  unfold retire
  split_ifs
  · rfl
  · exact h

/-- What is stored is not released. -/
lemma Tracked.not_released (h : Tracked hash s st) {v : CowVersion}
    (hv : (tableView hash s.table).Holds v) : v.node ∉ s.released := by
  intro hr
  have hstored := h.stored v hv
  rw [h.released v.node hr] at hstored
  cases hstored

/-- Of the records `before`, all stored, a new table keeps some and the thread `t` is to release
the rest. -/
lemma Outside.unlink {t : ℕ} {table : VersionsHtable} (h : Outside s st)
    (before : CowVersion → Prop) (hstored : ∀ v, before v → st v.node = .stored)
    (hident : ∀ v w, before v → before w → v.node = w.node → v = w)
    (hinv : TableInv hash table)
    (hdistinct : (tableView hash table).Distinct CowVersion.node)
    (hfrees : Frees CowVersion.node before (tableView hash table) freed)
    (hsub : ∀ v, (tableView hash table).Holds v → before v) :
    Tracked hash { s with table := table, freeing := Function.update s.freeing t freed }
      (retire st freed) := by
  have hne : ∀ {x : NodeStatus}, x ≠ .stored → ∀ v ∈ freed, st v.node ≠ x := by
    intro x hx v hv
    rw [hstored v ((hfrees.2 v).1 hv).1]
    exact hx.symm
  refine ⟨⟨?_, ?_, ?_, ?_⟩, hinv, hdistinct, ?_⟩
  · exact fun n hn => retire_of_ne (hne (by simp)) (h.fresh n hn)
  · exact fun t' sn hsn => retire_of_ne (hne (by simp)) (h.taking t' sn hsn)
  · intro t' v hv
    by_cases ht : t' = t
    · subst ht
      exact retire_of_mem (by simpa using hv)
    · exact retire_of_gone (h.freeing t' v (by simpa [ht] using hv))
  · exact fun n hn => retire_of_gone (h.released n hn)
  · -- a record still held is none of those to be released
    intro v hv
    unfold retire
    rw [if_neg, hstored v (hsub v hv)]
    intro hmem
    obtain ⟨w, hw, hnode⟩ := List.mem_map.1 hmem
    obtain ⟨hbefore, hnot⟩ := (hfrees.2 w).1 hw
    exact hnot (hident w v hbefore (hsub v hv) hnode ▸ hv)

/-! ## The steps -/

lemma Tracked.alloc (h : Tracked hash s st) (t : ℕ) (op : CowOp) (ino now : UInt64) :
    ∃ st', Tracked hash (s.alloc t op ino now) st' := by
  unfold TableThreads.alloc
  split
  · have hfresh := h.fresh s.nextNode le_rfl
    have hne : ∀ {n : ℕ} {x : NodeStatus}, x ≠ .fresh → st n = x →
        Function.update st s.nextNode (.taken t) n = x := by
      intro n x hx hn
      rw [Function.update_of_ne, hn]
      rintro rfl
      exact hx (hn.symm.trans hfresh)
    refine ⟨Function.update st s.nextNode (.taken t), ⟨?_, ?_, ?_, ?_⟩, h.inv, h.distinct, ?_⟩
    · intro n hn
      have hlt : s.nextNode + 1 ≤ n := hn
      rw [Function.update_of_ne (by omega)]
      exact h.fresh n (by omega)
    · intro t' sn hsn
      by_cases ht : t' = t
      · subst ht
        obtain rfl : (⟨ino, versionAlloc op now s.nextNode, false⟩ : PendingSnapshot) = sn := by
          simpa using hsn
        simp [versionAlloc]
      · exact hne (by simp) (h.taking t' sn (by simpa [ht] using hsn))
    · exact fun t' v hv => hne (by simp) (h.freeing t' v hv)
    · exact fun n hn => hne (by simp) (h.released n hn)
    · exact fun v hv => hne (by simp) (h.stored v hv)
  · exact ⟨st, h⟩

lemma fillVersion_node {v v' : CowVersion} {sized copied : Bool} {path name : CStr}
    {stat : Kstat} (h : fillVersion v sized copied path name stat = some v') :
    v'.node = v.node := by
  unfold fillVersion at h
  split at h <;> first | split_ifs at h | skip
  all_goals
    obtain rfl := Option.some.inj h
    rfl

lemma Tracked.fill (h : Tracked hash s st) (t : ℕ) (sized copied : Bool) (path name : CStr)
    (stat : Kstat) : ∃ st', Tracked hash (s.fill t sized copied path name stat) st' := by
  unfold TableThreads.fill
  cases htaking : s.taking t with
  | none => exact ⟨st, h⟩
  | some sn =>
    dsimp only
    split_ifs
    · exact ⟨st, h⟩
    have htaken := h.taking t sn htaking
    cases hfill : fillVersion sn.version sized copied path name stat with
    | some v =>
      refine ⟨st, ⟨h.fresh, fun t' sn' hsn => ?_, h.freeing, h.released⟩, h.inv, h.distinct,
        h.stored⟩
      by_cases ht : t' = t
      · subst ht
        obtain rfl : (⟨sn.ino, v, true⟩ : PendingSnapshot) = sn' := by simpa using hsn
        exact fillVersion_node hfill ▸ htaken
      · exact h.taking t' sn' (by simpa [ht] using hsn)
    | none =>
      -- the version was never in the table: it goes from the snapshot to its release
      have hne : ∀ {n : ℕ} {x : NodeStatus}, x ≠ .taken t → st n = x →
          Function.update st sn.version.node .gone n = x := by
        intro n x hx hn
        rw [Function.update_of_ne, hn]
        rintro rfl
        exact hx (hn.symm.trans htaken)
      refine ⟨Function.update st sn.version.node .gone, ⟨?_, ?_, ?_, ?_⟩, h.inv, h.distinct, ?_⟩
      · exact fun n hn => hne (by simp) (h.fresh n hn)
      · intro t' sn' hsn
        by_cases ht : t' = t
        · simp [ht] at hsn
        · exact hne (by simpa using ht) (h.taking t' sn' (by simpa [ht] using hsn))
      · intro t' v hv
        by_cases ht : t' = t
        · subst ht
          obtain rfl : v = sn.version := by simpa using hv
          exact Function.update_self _ _ _
        · exact hne (by simp) (h.freeing t' v (by simpa [ht] using hv))
      · exact fun n hn => hne (by simp) (h.released n hn)
      · exact fun v hv => hne (by simp) (h.stored v hv)

lemma Tracked.insert (h : Tracked hash s st) (t : ℕ) (nomem : Bool) :
    ∃ st', Tracked hash (s.insert hash t nomem) st' := by
  unfold TableThreads.insert
  cases htaking : s.taking t with
  | none => exact ⟨st, h⟩
  | some sn =>
    dsimp only
    split_ifs
    · exact ⟨st, h⟩
    have htaken := h.taking t sn htaking
    have hrest : ∀ t' sn', Function.update s.taking t none t' = some sn' →
        t' ≠ t ∧ s.taking t' = some sn' := by
      intro t' sn' hsn
      by_cases ht : t' = t
      · simp [ht] at hsn
      · exact ⟨ht, by simpa [ht] using hsn⟩
    cases hadd : versionAdd hash s.table sn.ino sn.version nomem with
    | none =>
      exact ⟨st, ⟨h.fresh, fun t' sn' hsn => h.taking t' sn' (hrest t' sn' hsn).2, h.freeing,
        h.released⟩, h.inv, h.distinct, h.stored⟩
    | some r =>
      obtain ⟨table, oldest⟩ := r
      obtain ⟨hinv, hview, hold⟩ := versionAdd_spec h.inv hadd
      have hnew : (tableView hash s.table).Fresh CowVersion.node sn.version := by
        intro w hw hnode
        have hstored := h.stored w hw
        rw [hnode, htaken] at hstored
        cases hstored
      have hne : ∀ {n : ℕ} {x : NodeStatus}, x ≠ .taken t → st n = x →
          Function.update st sn.version.node .stored n = x := by
        intro n x hx hn
        rw [Function.update_of_ne, hn]
        rintro rfl
        exact hx (hn.symm.trans htaken)
      have houtside : Outside { s with taking := Function.update s.taking t none }
          (Function.update st sn.version.node .stored) := by
        refine ⟨?_, ?_, ?_, ?_⟩
        · exact fun n hn => hne (by simp) (h.fresh n hn)
        · intro t' sn' hsn
          obtain ⟨ht, hsn⟩ := hrest t' sn' hsn
          exact hne (by simpa using ht) (h.taking t' sn' hsn)
        · exact fun t' v hv => hne (by simp) (h.freeing t' v hv)
        · exact fun n hn => hne (by simp) (h.released n hn)
      refine ⟨_, houtside.unlink (fun v => (tableView hash s.table).Holds v ∨ v = sn.version)
        ?_ ?_ hinv ?_ ?_ ?_⟩
      · rintro v (hv | rfl)
        · exact hne (by simp) (h.stored v hv)
        · exact Function.update_self _ _ _
      · rintro v w (⟨k, hv⟩ | rfl) (⟨k', hw⟩ | rfl) hnode
        · exact h.distinct.eq_of_ident hv hw hnode
        · exact absurd hnode (hnew v ⟨k, hv⟩)
        · exact absurd hnode.symm (hnew w ⟨k', hw⟩)
        · rfl
      · rw [hview]
        exact h.distinct.push maxVersions sn.ino hnew
      · rw [hview, hold]
        exact h.distinct.frees_push maxVersions sn.ino hnew
      · rintro v ⟨k, hv⟩
        rw [hview] at hv
        rcases mem_push hv with ⟨-, rfl⟩ | hv
        · exact .inr rfl
        · exact .inl ⟨k, hv⟩

lemma Tracked.gc (h : Tracked hash s st) (t : ℕ) (now windowSeconds : UInt64) :
    ∃ st', Tracked hash (s.gc t now windowSeconds) st' := by
  unfold TableThreads.gc
  split
  · have hview : tableView hash (versionGc s.table now windowSeconds).1 =
        prune (fun v => !expired (gcCutoff now windowSeconds) v) (tableView hash s.table) :=
      versionGc_view s.table now windowSeconds
    refine ⟨_, h.toOutside.unlink (tableView hash s.table).Holds h.stored ?_
      (versionGc_inv h.inv now windowSeconds) ?_ ?_ ?_⟩
    · rintro v w ⟨k, hv⟩ ⟨k', hw⟩ hnode
      exact h.distinct.eq_of_ident hv hw hnode
    · rw [hview]
      exact h.distinct.prune _
    · rw [hview]
      exact versionGc_frees h.inv h.distinct now windowSeconds
    · rintro v ⟨k, hv⟩
      rw [hview, prune_apply] at hv
      exact ⟨k, List.mem_of_mem_filter hv⟩
  · exact ⟨st, h⟩

lemma Tracked.free (h : Tracked hash s st) (t : ℕ) : Tracked hash (s.free t) st := by
  unfold TableThreads.free
  cases hfreeing : s.freeing t with
  | nil => exact h
  | cons v vs =>
    have hv : ∀ w ∈ v :: vs, st w.node = .gone := hfreeing ▸ h.freeing t
    refine ⟨⟨h.fresh, h.taking, fun t' w hw => ?_, fun n hn => ?_⟩, h.inv, h.distinct, h.stored⟩
    · by_cases ht : t' = t
      · subst ht
        exact hv w (List.mem_cons_of_mem v (by simpa using hw))
      · exact h.freeing t' w (by simpa [ht] using hw)
    · rcases List.mem_cons.1 hn with rfl | hn
      · exact hv v List.mem_cons_self
      · exact h.released n hn

/-- A step of a reader changes neither the table nor the records. -/
lemma Tracked.reader (h : Tracked hash s st) (reading : ℕ → List (ℕ × Field)) :
    Tracked hash { s with reading := reading } st :=
  ⟨⟨h.fresh, h.taking, h.freeing, h.released⟩, h.inv, h.distinct, h.stored⟩

lemma Tracked.search (h : Tracked hash s st) (t : ℕ) (reads : List (ℕ × Field)) :
    Tracked hash (s.search t reads) st := by
  unfold TableThreads.search
  split
  · exact h.reader _
  · exact h

theorem Tracked.step (h : Tracked hash s st) (a : TableAct) :
    ∃ st', Tracked hash (s.step hash a) st' := by
  cases a with
  | alloc t op ino now => exact h.alloc t op ino now
  | fill t sized copied path name stat => exact h.fill t sized copied path name stat
  | insert t nomem => exact h.insert t nomem
  | gc t now windowSeconds => exact h.gc t now windowSeconds
  | free t => exact ⟨st, h.free t⟩
  | list t ino maxCount => exact ⟨st, h.search t _⟩
  | find t ino timestamp => exact ⟨st, h.search t _⟩
  | findDeleted t name timestamp => exact ⟨st, h.search t _⟩
  | read t => exact ⟨st, h.reader _⟩
  | quit t => exact ⟨st, h.reader _⟩

/-! ## Readers -/

lemma dataReads_node {v : CowVersion} {f : Field} (h : (n, f) ∈ dataReads v) : n = v.node := by
  unfold dataReads at h
  split_ifs at h <;> simp at h <;> tauto

lemma listReads_node {v : CowVersion} {f : Field} (h : (n, f) ∈ listReads v) : n = v.node := by
  simp only [listReads, List.mem_cons, Prod.mk.injEq, List.not_mem_nil, or_false] at h
  tauto

lemma branchReads_node {v : CowVersion} {f : Field} (h : (n, f) ∈ branchReads v) :
    n = v.node := by
  unfold branchReads at h
  split_ifs at h
  · simp only [List.mem_cons, Prod.mk.injEq] at h
    obtain ⟨hn, -⟩ | ⟨hn, -⟩ | h := h
    · exact hn
    · exact hn
    · exact dataReads_node h
  · exact dataReads_node h
  all_goals
    simp only [List.mem_cons, Prod.mk.injEq, List.not_mem_nil, or_false] at h
    tauto

lemma rollbackReads_node {v : CowVersion} {f : Field} (h : (n, f) ∈ rollbackReads v) :
    n = v.node := by
  unfold rollbackReads at h
  rw [List.cons_append, List.mem_cons, List.mem_append] at h
  obtain h | h | h := h
  · exact (Prod.mk.inj h).1
  · exact branchReads_node h
  · split_ifs at h <;> simp at h <;> tauto

lemma deletedReads_node {v : CowVersion} {f : Field} (h : (n, f) ∈ deletedReads v) :
    n = v.node := by
  obtain h | h := List.mem_cons.1 h
  · exact (Prod.mk.inj h).1
  · exact dataReads_node h

/-- Reads of records in the table are reads of records that are there. -/
lemma NoDangling.search (h : NoDangling s) (htracked : Tracked hash s st) (t : ℕ)
    {reads : List (ℕ × Field)}
    (hreads : ∀ n f, (n, f) ∈ reads → ∃ v, (tableView hash s.table).Holds v ∧ v.node = n) :
    NoDangling (s.search t reads) := by
  unfold TableThreads.search
  split
  · intro t' n f hread
    by_cases ht : t' = t
    · subst ht
      obtain ⟨v, hv, rfl⟩ := hreads n f (by simpa using hread)
      exact htracked.not_released hv
    · exact h t' n f (by simpa [ht] using hread)
  · exact h

/-- Reads that were before a thread in the step before. -/
lemma NoDangling.shrink (h : NoDangling s) (hreleased : s'.released = s.released)
    (hreading : ∀ t r, r ∈ s'.reading t → r ∈ s.reading t) : NoDangling s' := by
  intro t n f hread
  rw [hreleased]
  exact h t n f (hreading t (n, f) hread)

lemma free_noDangling (h : NoDangling s) (t : ℕ) :
    NoDangling (s.free t) ↔ QuietFree s (.free t) := by
  unfold TableThreads.free
  cases hfreeing : s.freeing t with
  | nil => exact iff_of_true h fun v vs hcons => by simp [hfreeing] at hcons
  | cons v vs =>
    constructor
    · intro h' w ws hcons t' f hread
      obtain ⟨rfl, -⟩ := List.cons.inj (hfreeing.symm.trans hcons)
      exact h' t' v.node f hread List.mem_cons_self
    · intro hquiet t' n f hread hmem
      rcases List.mem_cons.1 hmem with rfl | hmem
      · exact hquiet v vs hfreeing t' f hread
      · exact h t' n f hread hmem

lemma step_noDangling (htracked : Tracked hash s st) (h : NoDangling s) (a : TableAct) :
    NoDangling (s.step hash a) ↔ QuietFree s a := by
  cases a with
  | free t => exact free_noDangling h t
  | alloc t op ino now =>
    refine iff_of_true (h.shrink ?_ ?_) trivial <;>
      simp only [TableThreads.step, TableThreads.alloc] <;> split <;> simp
  | fill t sized copied path name stat =>
    refine iff_of_true (h.shrink ?_ ?_) trivial <;>
      simp only [TableThreads.step, TableThreads.fill] <;> (repeat' split) <;> simp
  | insert t nomem =>
    refine iff_of_true (h.shrink ?_ ?_) trivial <;>
      simp only [TableThreads.step, TableThreads.insert] <;> (repeat' split) <;> simp
  | gc t now windowSeconds =>
    refine iff_of_true (h.shrink ?_ ?_) trivial <;>
      simp only [TableThreads.step, TableThreads.gc] <;> split <;> simp
  | list t ino maxCount =>
    refine iff_of_true (h.search htracked t fun n f hread => ?_) trivial
    obtain ⟨v, hv, hread⟩ := List.mem_flatMap.1 hread
    rw [versionList_eq] at hv
    exact ⟨v, ⟨ino, List.mem_of_mem_take hv⟩, (listReads_node hread).symm⟩
  | find t ino timestamp =>
    refine iff_of_true (h.search htracked t fun n f hread => ?_) trivial
    obtain ⟨v, hv, hread⟩ := List.mem_flatMap.1 hread
    exact ⟨v, ⟨ino, (versionFind_mem (Option.mem_toList.1 hv)).1⟩, (rollbackReads_node hread).symm⟩
  | findDeleted t name timestamp =>
    refine iff_of_true (h.search htracked t fun n f hread => ?_) trivial
    obtain ⟨v, hv, hread⟩ := List.mem_flatMap.1 hread
    have hlatest := versionFindDeleted_latest s.table name timestamp
    rw [Option.mem_toList.1 hv] at hlatest
    exact ⟨v, htracked.inv.mem_allVersions.1 hlatest.1, (deletedReads_node hread).symm⟩
  | read t =>
    refine iff_of_true (h.shrink rfl fun t' r hr => ?_) trivial
    by_cases ht : t' = t
    · subst ht
      exact List.mem_of_mem_tail (by simpa [TableThreads.step] using hr)
    · simpa [TableThreads.step, ht] using hr
  | quit t =>
    refine iff_of_true (h.shrink rfl fun t' r hr => ?_) trivial
    by_cases ht : t' = t
    · simp [TableThreads.step, ht] at hr
    · simpa [TableThreads.step, ht] using hr

/-! ## Runs -/

/-- No state of a run has a thread about to read a released record exactly when every step that
releases a record releases one that no thread has still to read. -/
theorem noDangling_iff (hash : UInt64 → Bucket) (acts : List TableAct) :
    (∀ pre post, acts = pre ++ post → NoDangling (run (TableThreads.step hash) .init pre)) ↔
      Along (TableThreads.step hash) QuietFree .init acts := by
  refine exact_run (I := fun s => ∃ st, Tracked hash s st) ?_ ?_ ?_ ?_
  · rintro s a ⟨st, htracked⟩ - -
    exact htracked.step a
  · rintro s a ⟨st, htracked⟩ h
    exact step_noDangling htracked h a
  · have hempty : ∀ v, ¬ (tableView hash VersionsHtable.init).Holds v := by simp
    refine ⟨fun _ => .fresh, ⟨fun _ _ => rfl, ?_, ?_, ?_⟩, tableInv_init, ?_, ?_⟩
    · simp [TableThreads.init]
    · simp [TableThreads.init]
    · simp [TableThreads.init]
    · show (tableView hash VersionsHtable.init).Distinct _
      rw [tableView_init]
      exact distinct_empty
    · exact fun v hv => absurd hv (hempty v)
  · intro t n f hread
    simp [TableThreads.init] at hread

/-- **No read of a released version.**  In every run that releases a record only when no thread
has still to read it, every step that reads a field of a record reads one that
`cowfs_version_free` has not released. -/
theorem no_read_of_freed (hash : UInt64 → Bucket) (acts : List TableAct)
    (h : Along (TableThreads.step hash) QuietFree .init acts) {pre post : List TableAct}
    {a : TableAct} {n : ℕ} {f : Field} (hacts : acts = pre ++ a :: post)
    (hread : readBy (run (TableThreads.step hash) .init pre) a = some (n, f)) :
    n ∉ (run (TableThreads.step hash) .init pre).released := by
  have hsafe := (noDangling_iff hash acts).2 h pre (a :: post) hacts
  cases a with
  | read t => exact hsafe t n f (List.mem_of_mem_head? hread)
  | _ => cases hread

/-- Thread 1 records a version of the file with the number 5 and thread 2 starts a rollback to
it. -/
def rollbackBegun : List TableAct :=
  [.alloc 1 .write 5 100, .fill 1 false true ['p'] [] Kstat.zero, .insert 1 false, .find 2 5 0]

/-- The rollback ends, and only then the collector finds the version expired. -/
theorem no_read_of_freed_rollback :
    0 ∉ (run (TableThreads.step fun _ => 0) .init rollbackBegun).released := by
  refine no_read_of_freed (fun _ => 0)
    (rollbackBegun ++ [.read 2, .quit 2, .gc 3 (1000 * nsecPerSec) 1, .free 3]) ?_ rfl
    (a := .read 2) (n := 0) (f := .opType) rfl
  refine ⟨trivial, trivial, trivial, trivial, trivial, trivial, trivial, ?_, trivial⟩
  rintro v vs - t f hread
  have hreading : ∃ r₁ r₂ r₃, (v.node, f) ∈ Function.update (Function.update (Function.update
      (fun _ => []) 2 r₁) 2 r₂) 2 r₃ t ∧ r₃ = [] := ⟨_, _, _, hread, rfl⟩
  obtain ⟨r₁, r₂, -, hread', rfl⟩ := hreading
  by_cases ht : t = 2 <;> simp [ht] at hread'

/-- The collector unlinks and releases the version while the rollback is under way, which then
reads its type. -/
theorem rollback_reads_freed :
    let acts := rollbackBegun ++ [.gc 3 (1000 * nsecPerSec) 1, .free 3]
    readBy (run (TableThreads.step fun _ => 0) .init acts) (.read 2) = some (0, .opType) ∧
      0 ∈ (run (TableThreads.step fun _ => 0) .init acts).released := by
  decide +kernel

end Cowfs
