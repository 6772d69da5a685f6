import Cowfs.Framework.Ledger
import Cowfs.Properties.FreedVersions

/-!
# Where the version records are

Every record `cowfs_version_alloc` hands out is, at every moment of every interleaving, in one
place: with the thread that takes a snapshot, in one list of the table once, with the thread that
is to release it, released, or lost by an insertion that failed for lack of memory.  So no record
is released twice, and when the module is unloaded and the threads are gone, the records never
released are those lost.
-/

namespace Cowfs

open KeyedLog

variable {hash : UInt64 → Bucket} {s : TableThreads} {lost : List ℕ}

/-! ## Statement -/

inductive RecordOwner
  | table
  | released
  | lost
  | taking (t : ℕ)
  | freeing (t : ℕ)
  deriving DecidableEq

/-- The records an owner has, when `lost` are those that are lost. -/
def recordsOf (s : TableThreads) (lost : List ℕ) : RecordOwner → List ℕ
  | .table => (allVersions s.table).map CowVersion.node
  | .released => s.released
  | .lost => lost
  | .taking t => (s.taking t).toList.map fun sn => sn.version.node
  | .freeing t => (s.freeing t).map CowVersion.node

/-- The record a step loses: `cowfs_version_add` fails, and its caller forgets the version. -/
def losesRecord (hash : UInt64 → Bucket) (s : TableThreads) : TableAct → List ℕ
  | .insert t nomem =>
    match s.taking t with
    | none => []
    | some sn =>
      if sn.filled ∧ versionAdd hash s.table sn.ino sn.version nomem = none then
        [sn.version.node]
      else []
  | _ => []

/-- The records lost in a run from the loading of the module. -/
def lostRecords (hash : UInt64 → Bucket) (as : List TableAct) : List ℕ :=
  observe (TableThreads.step hash) (losesRecord hash) TableThreads.init as

/-! ## The invariant -/

structure Booked (hash : UInt64 → Bucket) (s : TableThreads) (lost : List ℕ) : Prop where
  ledger : Ledger (recordsOf s lost) (· < s.nextNode)
  tracked : ∃ st, Tracked hash s st
  /-- A thread releases what it has unlinked before it takes a snapshot. -/
  phase : ∀ t, s.taking t ≠ none → s.freeing t = []

/-- A search or a read moves no record. -/
lemma recordsOf_reading (s : TableThreads) (reading : ℕ → List (ℕ × Field)) (lost : List ℕ) :
    recordsOf { s with reading := reading } lost = recordsOf s lost := by
  funext o
  rcases o with _ | _ | _ | t | t <;> rfl

lemma ledger_alloc (h : Booked hash s lost) (t : ℕ) (op : CowOp) (ino now : UInt64) :
    Ledger (recordsOf (s.alloc t op ino now) lost) (· < (s.alloc t op ino now).nextNode) := by
  unfold TableThreads.alloc
  split_ifs with hok
  · have hnone : s.taking t = none := by
      simp [TableThreads.idle] at hok
      exact hok.1.1.1
    have hissued := h.ledger.issue (.taking t) (i := s.nextNode) (lt_irrefl _) rfl
    have hall : (fun n => n < s.nextNode ∨ n = s.nextNode) = (· < s.nextNode + 1) := by
      funext n
      rw [eq_iff_iff]
      omega
    rw [hall] at hissued
    convert hissued using 1
    funext o
    rcases o with _ | _ | _ | t' | t'
    · rfl
    · rfl
    · rfl
    · by_cases ht : t' = t
      · subst ht
        simp [recordsOf, hnone, versionAlloc]
      · simp [recordsOf, ht]
    · simp [recordsOf]
  · exact h.ledger

lemma ledger_fill (h : Booked hash s lost) (t : ℕ) (sized copied : Bool) (path name : CStr)
    (stat : Kstat) : Ledger (recordsOf (s.fill t sized copied path name stat) lost)
      (· < (s.fill t sized copied path name stat).nextNode) := by
  unfold TableThreads.fill
  rcases htaking : s.taking t with _ | sn
  · exact h.ledger
  dsimp only
  split_ifs
  · exact h.ledger
  have hphase : s.freeing t = [] := h.phase t (by simp [htaking])
  rcases hfill : fillVersion sn.version sized copied path name stat with _ | v
  · -- the version is given up: it goes to its release
    refine h.ledger.trade [.taking t, .freeing t] (by simp) ?_ ?_
    · simp [recordsOf, htaking, hphase]
    · intro o ho
      rcases o with _ | _ | _ | t' | t'
      · rfl
      · rfl
      · rfl
      · have ht : t' ≠ t := by simpa using ho
        simp [recordsOf, ht]
      · have ht : t' ≠ t := by simpa using ho
        simp [recordsOf, ht]
  · refine h.ledger.trade [] (by simp) (by simp) fun o _ => ?_
    rcases o with _ | _ | _ | t' | t'
    · rfl
    · rfl
    · rfl
    · by_cases ht : t' = t
      · subst ht
        simp [recordsOf, htaking, fillVersion_node hfill]
      · simp [recordsOf, ht]
    · rfl

/-- The table and what an insertion evicts are the table before and the new version. -/
lemma versionAdd_perm {t t' : VersionsHtable} {ino : UInt64} {v : CowVersion} {nomem : Bool}
    {oldest : Option CowVersion} (ht : TableInv hash t)
    (hd : (tableView hash t).Distinct CowVersion.node)
    (hv : (tableView hash t).Fresh CowVersion.node v)
    (hadd : versionAdd hash t ino v nomem = some (t', oldest)) :
    (allVersions t' ++ oldest.toList).Perm (v :: allVersions t) := by
  obtain ⟨ht', hview, hold⟩ := versionAdd_spec ht hadd
  have hd' : (tableView hash t').Distinct CowVersion.node := by
    rw [hview]
    exact hd.push _ ino hv
  have hfrees := hd.frees_push maxVersions ino hv
  rw [← hview] at hfrees
  rw [hold]
  refine hfrees.perm ?_ ?_ (ht'.nodup_allVersions hd').of_map ?_ ?_
  · rw [List.nodup_cons]
    refine ⟨fun hmem => ?_, (ht.nodup_allVersions hd).of_map⟩
    exact hv v (ht.mem_allVersions.1 hmem) rfl
  · intro w
    rw [List.mem_cons, ht.mem_allVersions, or_comm]
  · exact fun w => ht'.mem_allVersions
  · rintro w ⟨k, hk⟩
    rw [hview] at hk
    rcases mem_push hk with ⟨-, rfl⟩ | hk
    · exact .inr rfl
    · exact .inl ⟨k, hk⟩

lemma versionGc_perm {t : VersionsHtable} (ht : TableInv hash t)
    (hd : (tableView hash t).Distinct CowVersion.node) (now windowSeconds : UInt64) :
    (allVersions (versionGc t now windowSeconds).1 ++ (versionGc t now windowSeconds).2).Perm
      (allVersions t) := by
  have hfrees := versionGc_frees ht hd now windowSeconds
  rw [← versionGc_view] at hfrees
  have hsub : ∀ w, (tableView hash (versionGc t now windowSeconds).1).Holds w →
      (tableView hash t).Holds w := by
    rintro w ⟨k, hk⟩
    rw [versionGc_view] at hk
    exact ⟨k, List.mem_of_mem_filter hk⟩
  have hd' : (tableView hash (versionGc t now windowSeconds).1).Distinct CowVersion.node := by
    rw [versionGc_view]
    exact hd.prune _
  have ht' := versionGc_inv ht now windowSeconds
  exact hfrees.perm (ht.nodup_allVersions hd).of_map (fun w => ht.mem_allVersions)
    (ht'.nodup_allVersions hd').of_map (fun w => ht'.mem_allVersions) hsub

lemma ledger_insert (h : Booked hash s lost) (t : ℕ) (nomem : Bool) :
    Ledger (recordsOf (s.insert hash t nomem) (lost ++ losesRecord hash s (.insert t nomem)))
      (· < (s.insert hash t nomem).nextNode) := by
  obtain ⟨st, htracked⟩ := h.tracked
  rcases htaking : s.taking t with _ | sn
  · simpa [TableThreads.insert, losesRecord, htaking] using h.ledger
  by_cases hfilled : sn.filled = true
  swap
  · simpa [TableThreads.insert, losesRecord, htaking, hfilled] using h.ledger
  have hphase : s.freeing t = [] := h.phase t (by simp [htaking])
  rcases hadd : versionAdd hash s.table sn.ino sn.version nomem with _ | ⟨table, oldest⟩
  · -- the caller forgets the version
    have hstep : s.insert hash t nomem = { s with taking := Function.update s.taking t none } := by
      simp [TableThreads.insert, htaking, hfilled, hadd]
    have hlost : losesRecord hash s (.insert t nomem) = [sn.version.node] := by
      simp [losesRecord, htaking, hfilled, hadd]
    rw [hstep, hlost]
    refine h.ledger.trade [.taking t, .lost] (by simp) ?_ ?_
    · simp [recordsOf, htaking]
    · intro o ho
      rcases o with _ | _ | _ | t' | t'
      · rfl
      · rfl
      · exact absurd ho (by simp)
      · have ht : t' ≠ t := by simpa using ho
        simp [recordsOf, ht]
      · rfl
  · have hstep : s.insert hash t nomem = { s with
        table := table
        taking := Function.update s.taking t none
        freeing := Function.update s.freeing t oldest.toList } := by
      simp [TableThreads.insert, htaking, hfilled, hadd]
    have hlost : losesRecord hash s (.insert t nomem) = [] := by
      simp [losesRecord, htaking, hadd]
    rw [hstep, hlost, List.append_nil]
    have hfresh : (tableView hash s.table).Fresh CowVersion.node sn.version := by
      intro w hw hnode
      have hmem : w.node ∈ recordsOf s lost .table :=
        List.mem_map_of_mem (htracked.inv.mem_allVersions.2 hw)
      have hmem' : w.node ∈ recordsOf s lost (.taking t) := by
        simp [recordsOf, htaking, hnode]
      exact absurd (h.ledger.apart _ _ _ hmem hmem') (by simp)
    have hperm := (versionAdd_perm htracked.inv htracked.distinct hfresh hadd).map CowVersion.node
    refine h.ledger.trade [.table, .freeing t, .taking t] (by simp) ?_ ?_
    · simp only [recordsOf, List.flatMap_cons, List.flatMap_nil, Function.update_self, htaking,
        hphase, Option.toList_none, Option.toList_some, List.map_nil, List.append_nil,
        List.map_cons, List.nil_append]
      rw [← List.map_append]
      exact hperm.trans (List.perm_append_singleton _ _).symm
    · intro o ho
      rcases o with _ | _ | _ | t' | t'
      · exact absurd ho (by simp)
      · rfl
      · rfl
      · have ht : t' ≠ t := fun ht => ho (by simp [ht])
        simp [recordsOf, ht]
      · have ht : t' ≠ t := fun ht => ho (by simp [ht])
        simp [recordsOf, ht]

lemma ledger_gc (h : Booked hash s lost) (t : ℕ) (now windowSeconds : UInt64) :
    Ledger (recordsOf (s.gc t now windowSeconds) lost)
      (· < (s.gc t now windowSeconds).nextNode) := by
  obtain ⟨st, htracked⟩ := h.tracked
  unfold TableThreads.gc
  split_ifs with hidle
  · have hnone : s.freeing t = [] := by
      simp only [TableThreads.idle, Bool.and_eq_true, List.isEmpty_iff] at hidle
      exact hidle.1.2
    have hperm :=
      (versionGc_perm htracked.inv htracked.distinct now windowSeconds).map CowVersion.node
    refine h.ledger.trade [.table, .freeing t] (by simp) ?_ ?_
    · simpa [recordsOf, hnone] using hperm
    · intro o ho
      rcases o with _ | _ | _ | t' | t'
      · exact absurd ho (by simp)
      · simp only [recordsOf]
      · simp only [recordsOf]
      · simp only [recordsOf]
      · have ht : t' ≠ t := fun ht => ho (by simp [ht])
        simp [recordsOf, ht]
  · exact h.ledger

lemma ledger_free (h : Booked hash s lost) (t : ℕ) :
    Ledger (recordsOf (s.free t) lost) (· < (s.free t).nextNode) := by
  unfold TableThreads.free
  rcases hfreeing : s.freeing t with _ | ⟨v, vs⟩
  · exact h.ledger
  refine h.ledger.trade [.freeing t, .released] (by simp) ?_ ?_
  · simp only [recordsOf, List.flatMap_cons, List.flatMap_nil, Function.update_self, hfreeing,
      List.append_nil, List.map_cons, List.cons_append]
    exact List.perm_middle
  · intro o ho
    rcases o with _ | _ | _ | t' | t'
    · rfl
    · exact absurd ho (by simp)
    · rfl
    · rfl
    · have ht : t' ≠ t := fun ht => ho (by simp [ht])
      simp [recordsOf, ht]

/-! ## Runs -/

/-- A thread that takes a snapshot has nothing to release. -/
lemma phase_step (h : ∀ t, s.taking t ≠ none → s.freeing t = []) (a : TableAct) :
    ∀ t, (s.step hash a).taking t ≠ none → (s.step hash a).freeing t = [] := by
  have hkeep : ∀ {taking : ℕ → Option PendingSnapshot} {freeing : ℕ → List CowVersion} (t : ℕ),
      (∀ t', t' ≠ t → taking t' = s.taking t' ∧ freeing t' = s.freeing t') →
      (taking t ≠ none → freeing t = []) → ∀ t', taking t' ≠ none → freeing t' = [] := by
    intro taking freeing t hothers hself t' htaking
    by_cases ht : t' = t
    · rw [ht] at htaking ⊢
      exact hself htaking
    · rw [(hothers t' ht).1] at htaking
      rw [(hothers t' ht).2]
      exact h t' htaking
  rcases a with ⟨t, op, ino, now⟩ | ⟨t, sized, copied, path, name, stat⟩ | ⟨t, nomem⟩ |
    ⟨t, now, windowSeconds⟩ | t | ⟨t, ino, n⟩ | ⟨t, ino, ts⟩ | ⟨t, name, ts⟩ | t | t
  · simp only [TableThreads.step, TableThreads.alloc]
    split_ifs with hok
    · refine hkeep t (fun t' ht => ⟨by simp [ht], rfl⟩) fun _ => ?_
      simp only [TableThreads.idle, Bool.and_eq_true, List.isEmpty_iff] at hok
      exact hok.1.1.2
    · exact h
  · simp only [TableThreads.step, TableThreads.fill]
    rcases htaking : s.taking t with _ | sn
    · exact h
    dsimp only
    split_ifs
    · exact h
    rcases fillVersion sn.version sized copied path name stat with _ | v
    · exact hkeep t (fun t' ht => by simp [ht]) fun hnone => absurd hnone (by simp)
    · exact hkeep t (fun t' ht => ⟨by simp [ht], rfl⟩) fun _ => h t (by simp [htaking])
  · simp only [TableThreads.step, TableThreads.insert]
    rcases htaking : s.taking t with _ | sn
    · exact h
    dsimp only
    split_ifs
    · exact h
    rcases versionAdd hash s.table sn.ino sn.version nomem with _ | ⟨table, oldest⟩
    · exact hkeep t (fun t' ht => ⟨by simp [ht], rfl⟩) fun hnone => absurd hnone (by simp)
    · exact hkeep t (fun t' ht => by simp [ht]) fun hnone => absurd hnone (by simp)
  · simp only [TableThreads.step, TableThreads.gc]
    split_ifs with hidle
    · refine hkeep t (fun t' ht => ⟨rfl, by simp [ht]⟩) fun hbusy => absurd ?_ hbusy
      simp only [TableThreads.idle, Bool.and_eq_true, Option.isNone_iff_eq_none] at hidle
      exact hidle.1.1
    · exact h
  · simp only [TableThreads.step, TableThreads.free]
    rcases hfreeing : s.freeing t with _ | ⟨v, vs⟩
    · exact h
    refine hkeep t (fun t' ht => ⟨rfl, by simp [ht]⟩) fun hbusy => ?_
    have hnil := h t hbusy
    rw [hfreeing] at hnil
    exact absurd hnil (by simp)
  all_goals
    simp only [TableThreads.step, TableThreads.search]
    first
      | exact h
      | split_ifs <;> exact h

/-- A step of a reader leaves the records where they are. -/
lemma ledger_search (h : Booked hash s lost) (t : ℕ) (reads : List (ℕ × Field)) :
    Ledger (recordsOf (s.search t reads) lost) (· < (s.search t reads).nextNode) := by
  unfold TableThreads.search
  split_ifs
  · rw [recordsOf_reading]
    exact h.ledger
  · exact h.ledger

/-- **One step** keeps the records booked, those it loses included. -/
lemma Booked.step (h : Booked hash s lost) (a : TableAct) :
    Booked hash (s.step hash a) (lost ++ losesRecord hash s a) := by
  obtain ⟨st, htracked⟩ := h.tracked
  refine ⟨?_, htracked.step a, phase_step h.phase a⟩
  have hnone : ∀ {s' : TableThreads}, Ledger (recordsOf s' lost) (· < s'.nextNode) →
      Ledger (recordsOf s' (lost ++ [])) (· < s'.nextNode) := by
    intro s' hs'
    rwa [List.append_nil]
  rcases a with ⟨t, op, ino, now⟩ | ⟨t, sized, copied, path, name, stat⟩ | ⟨t, nomem⟩ |
    ⟨t, now, windowSeconds⟩ | t | ⟨t, ino, n⟩ | ⟨t, ino, ts⟩ | ⟨t, name, ts⟩ | t | t
  · exact hnone (ledger_alloc h t op ino now)
  · exact hnone (ledger_fill h t sized copied path name stat)
  · exact ledger_insert h t nomem
  · exact hnone (ledger_gc h t now windowSeconds)
  · exact hnone (ledger_free h t)
  · exact hnone (ledger_search h t _)
  · exact hnone (ledger_search h t _)
  · exact hnone (ledger_search h t _)
  · refine hnone ?_
    simp only [TableThreads.step, recordsOf_reading]
    exact h.ledger
  · refine hnone ?_
    simp only [TableThreads.step, recordsOf_reading]
    exact h.ledger

lemma tracked_init (hash : UInt64 → Bucket) : Tracked hash .init fun _ => .fresh := by
  have hview : tableView hash TableThreads.init.table = KeyedLog.empty := tableView_init
  refine ⟨⟨fun _ _ => rfl, ?_, ?_, ?_⟩, tableInv_init, ?_, fun v hv => ?_⟩
  · simp [TableThreads.init]
  · simp [TableThreads.init]
  · simp [TableThreads.init]
  · rw [hview]
    exact distinct_empty
  · rw [hview] at hv
    exact absurd hv (not_holds_empty v)

lemma booked_run (hash : UInt64 → Bucket) (as : List TableAct) :
    Booked hash (run (TableThreads.step hash) .init as) (lostRecords hash as) := by
  refine prefix_run (I := fun past s => Booked hash s (lostRecords hash past)) ?_ ?_
  · refine ⟨?_, ⟨_, tracked_init hash⟩, fun t h => rfl⟩
    convert Ledger.nil (ω := RecordOwner) (ι := ℕ) using 1
    · funext o
      rcases o with _ | _ | _ | t | t <;>
        simp [recordsOf, TableThreads.init, lostRecords, observe, allVersions,
          VersionsHtable.init]
    · funext n
      simp [TableThreads.init]
  · intro past a post _ h
    rw [lostRecords, observe_concat]
    exact h.step a

/-- **Where the records are.**  After every run, each record allocated so far is in exactly one
place, and there once. -/
theorem record_in_one_place (hash : UInt64 → Bucket) (as : List TableAct) (n : ℕ)
    (hn : n < (run (TableThreads.step hash) .init as).nextNode) :
    ∃! o, n ∈ recordsOf (run (TableThreads.step hash) .init as) (lostRecords hash as) o ∧
      (recordsOf (run (TableThreads.step hash) .init as) (lostRecords hash as) o).count n = 1 := by
  have hledger := (booked_run hash as).ledger
  obtain ⟨o, ho⟩ := (hledger.covers n).1 hn
  refine ⟨o, ⟨ho, List.count_eq_one_of_mem (hledger.nodup o) ho⟩, fun o' ho' => ?_⟩
  exact hledger.apart o' o n ho'.1 ho

/-- One snapshot enters the table, the next does not. -/
def oneLost : List TableAct :=
  [.alloc 1 .rename 5 100, .fill 1 false false [] ['a'] Kstat.zero, .insert 1 false,
   .alloc 1 .rename 6 200, .fill 1 false false [] ['b'] Kstat.zero, .insert 1 true]

theorem record_in_one_place_oneLost :
    ∃! o, 1 ∈ recordsOf (run (TableThreads.step fun _ => 0) .init oneLost)
        (lostRecords (fun _ => 0) oneLost) o ∧
      (recordsOf (run (TableThreads.step fun _ => 0) .init oneLost)
        (lostRecords (fun _ => 0) oneLost) o).count 1 = 1 :=
  record_in_one_place (fun _ => 0) oneLost 1 (show 1 < 2 by omega)

/-- **What the unload leaves.**  When no thread has a record left, `cowfs_versions_destroy` makes
the list of the released records complete: with those lost it has every record once. -/
theorem released_at_unload (hash : UInt64 → Bucket) (as : List TableAct)
    (hidle : ∀ t, (run (TableThreads.step hash) .init as).taking t = none ∧
      (run (TableThreads.step hash) .init as).freeing t = []) :
    ((run (TableThreads.step hash) .init as).destroy.released ++ lostRecords hash as).Perm
      (List.range (run (TableThreads.step hash) .init as).nextNode) := by
  have h := booked_run hash as
  have hsettled := h.ledger.perm_of_settled [.table, .released, .lost] (by simp) ?_
    List.nodup_range fun n => List.mem_range
  · refine List.Perm.trans ?_ hsettled
    simp only [TableThreads.destroy, versionsGcAll_eq, List.map_reverse, List.reverse_reverse,
      recordsOf, List.flatMap_cons, List.flatMap_nil, List.append_nil, List.append_assoc]
    exact List.Perm.refl _
  · intro o ho
    rcases o with _ | _ | _ | t | t
    · exact absurd ho (by simp)
    · exact absurd ho (by simp)
    · exact absurd ho (by simp)
    · simp [recordsOf, (hidle t).1]
    · simp [recordsOf, (hidle t).2]

theorem released_at_unload_oneLost :
    ((run (TableThreads.step fun _ => 0) .init oneLost).destroy.released ++
      lostRecords (fun _ => 0) oneLost).Perm (List.range 2) ∧
    lostRecords (fun _ => 0) oneLost = [1] := by
  refine ⟨released_at_unload (fun _ => 0) oneLost fun t => ?_, rfl⟩
  -- only thread 1 has had records
  have htaking : ∃ a b c d e f, (run (TableThreads.step fun _ => 0) .init oneLost).taking =
      Function.update (Function.update (Function.update (Function.update (Function.update
        (Function.update (fun _ => none) 1 a) 1 b) 1 c) 1 d) 1 e) 1 f ∧ f = none :=
    ⟨_, _, _, _, _, _, rfl, rfl⟩
  have hfreeing : ∃ a, (run (TableThreads.step fun _ => 0) .init oneLost).freeing =
      Function.update (fun _ => []) 1 a ∧ a = [] := ⟨_, rfl, rfl⟩
  obtain ⟨_, _, _, _, _, _, htaking, rfl⟩ := htaking
  obtain ⟨_, hfreeing, rfl⟩ := hfreeing
  rw [htaking, hfreeing]
  by_cases ht : t = 1 <;> simp [ht]

end Cowfs
