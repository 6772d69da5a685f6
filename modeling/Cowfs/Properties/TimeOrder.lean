import Cowfs.Construction.Concurrent
import Cowfs.Properties.VersionTable

/-!
# The order of concurrent snapshots

The list of an inode number is in the order of the insertions, the time stamps are in the order of
the allocations, and a copy of any length lies between the two.  The list of a number is always a
part of its insertions, newest first (`listed_sublist`); so where the insertions under each number
come in the order of the allocations, the list is in time order, the version pushed out of a full
list is the oldest, and the head of the list is the latest version, which `cowfs_version_find` and
`cowfs_version_find_deleted` then agree on.
-/

namespace Cowfs

open KeyedLog

variable {hash : UInt64 → Bucket} {s : TableThreads}

/-! ## The insertions of a run -/

/-- The version a step inserts, with its inode number. -/
def inserted (hash : UInt64 → Bucket) (s : TableThreads) : TableAct → List (UInt64 × UInt64)
  | .insert t nomem =>
    match s.taking t with
    | some sn =>
      if sn.filled && (versionAdd hash s.table sn.ino sn.version nomem).isSome then
        [(sn.ino, sn.version.timestamp)]
      else []
    | none => []
  | _ => []

/-- The time stamps inserted under `ino`, in the order of the insertions. -/
def stampsOf (ino : UInt64) (ins : List (UInt64 × UInt64)) : List UInt64 :=
  (ins.filter fun i => i.1 = ino).map Prod.snd

/-- The insertions under each inode number are in the order of their time stamps. -/
def InTimeOrder (ins : List (UInt64 × UInt64)) : Prop :=
  ∀ ino, (stampsOf ino ins).Pairwise (· < ·)

/-- The list of an inode number is in time order, newest first. -/
def TimeOrdered (hash : UInt64 → Bucket) (t : VersionsHtable) (ino : UInt64) : Prop :=
  (tableView hash t ino).Pairwise fun v w => w.timestamp < v.timestamp

lemma stampsOf_append (ino : UInt64) (a b : List (UInt64 × UInt64)) :
    stampsOf ino (a ++ b) = stampsOf ino a ++ stampsOf ino b := by
  simp [stampsOf]

/-! ## One step -/

/-- What a step does to the table: nothing, a collector pass, or the insertion it shows. -/
inductive TableChange (hash : UInt64 → Bucket) (s s' : TableThreads) :
    List (UInt64 × UInt64) → Prop
  | same (h : s'.table = s.table) : TableChange hash s s' []
  | collected (now windowSeconds : UInt64)
      (h : s'.table = (versionGc s.table now windowSeconds).1) : TableChange hash s s' []
  | added (ino : UInt64) (v : CowVersion) (nomem : Bool) (oldest : Option CowVersion)
      (h : versionAdd hash s.table ino v nomem = some (s'.table, oldest)) :
      TableChange hash s s' [(ino, v.timestamp)]

lemma insert_tableChange (hash : UInt64 → Bucket) (s : TableThreads) (t : ℕ) (nomem : Bool) :
    TableChange hash s (s.insert hash t nomem) (inserted hash s (.insert t nomem)) := by
  cases htaking : s.taking t with
  | none =>
    have hins : inserted hash s (.insert t nomem) = [] := by simp [inserted, htaking]
    rw [hins]
    exact .same (by simp [TableThreads.insert, htaking])
  | some sn =>
    cases hfilled : sn.filled with
    | false =>
      have hins : inserted hash s (.insert t nomem) = [] := by simp [inserted, htaking, hfilled]
      rw [hins]
      exact .same (by simp [TableThreads.insert, htaking, hfilled])
    | true =>
      cases hadd : versionAdd hash s.table sn.ino sn.version nomem with
      | none =>
        have hins : inserted hash s (.insert t nomem) = [] := by
          simp [inserted, htaking, hfilled, hadd]
        rw [hins]
        exact .same (by simp [TableThreads.insert, htaking, hfilled, hadd])
      | some r =>
        have hins : inserted hash s (.insert t nomem) = [(sn.ino, sn.version.timestamp)] := by
          simp [inserted, htaking, hfilled, hadd]
        rw [hins]
        refine .added sn.ino sn.version nomem r.2 (hadd.trans ?_)
        simp [TableThreads.insert, htaking, hfilled, hadd]

lemma gc_tableChange (hash : UInt64 → Bucket) (s : TableThreads) (t : ℕ)
    (now windowSeconds : UInt64) : TableChange hash s (s.gc t now windowSeconds) [] := by
  cases hidle : s.idle t with
  | false =>
    have hgc : s.gc t now windowSeconds = s := by simp [TableThreads.gc, hidle]
    exact .same (by rw [hgc])
  | true =>
    rcases hpass : versionGc s.table now windowSeconds with ⟨t', freed⟩
    have hgc : (s.gc t now windowSeconds).table = t' := by
      simp [TableThreads.gc, hidle, hpass]
    have hfst : (versionGc s.table now windowSeconds).1 = t' := congrArg Prod.fst hpass
    exact .collected now windowSeconds (hgc.trans hfst.symm)

lemma step_tableChange (hash : UInt64 → Bucket) (s : TableThreads) (a : TableAct) :
    TableChange hash s (s.step hash a) (inserted hash s a) := by
  cases a with
  | insert t nomem => exact insert_tableChange hash s t nomem
  | gc t now windowSeconds => exact gc_tableChange hash s t now windowSeconds
  | alloc t op ino now =>
    refine .same ?_
    simp only [TableThreads.step, TableThreads.alloc]
    split <;> rfl
  | fill t sized copied path name stat =>
    refine .same ?_
    simp only [TableThreads.step, TableThreads.fill]
    repeat' split
    all_goals rfl
  | free t =>
    refine .same ?_
    simp only [TableThreads.step, TableThreads.free]
    split <;> rfl
  | list t ino maxCount =>
    refine .same ?_
    simp only [TableThreads.step, TableThreads.search]
    split <;> rfl
  | find t ino timestamp =>
    refine .same ?_
    simp only [TableThreads.step, TableThreads.search]
    split <;> rfl
  | findDeleted t name timestamp =>
    refine .same ?_
    simp only [TableThreads.step, TableThreads.search]
    split <;> rfl
  | read t => exact .same rfl
  | quit t => exact .same rfl

/-- The list of a number is a part of the stamps inserted under it, newest first. -/
structure Listed (hash : UInt64 → Bucket) (ino : UInt64) (stamps : List UInt64)
    (s : TableThreads) : Prop where
  inv : TableInv hash s.table
  sublist : ((tableView hash s.table ino).map CowVersion.timestamp).Sublist stamps.reverse

lemma Listed.step {s' : TableThreads} {ino : UInt64} {stamps : List UInt64}
    {ins : List (UInt64 × UInt64)} (h : Listed hash ino stamps s)
    (hchange : TableChange hash s s' ins) : Listed hash ino (stamps ++ stampsOf ino ins) s' := by
  cases hchange with
  | same htable =>
    refine ⟨htable ▸ h.inv, ?_⟩
    rw [htable]
    simpa [stampsOf] using h.sublist
  | collected now windowSeconds htable =>
    refine ⟨htable ▸ versionGc_inv h.inv now windowSeconds, ?_⟩
    rw [htable, versionGc_view, prune_apply]
    exact (List.filter_sublist.map _).trans (by simpa [stampsOf] using h.sublist)
  | added ino' v nomem oldest hadd =>
    obtain ⟨hinv', hview, -⟩ := versionAdd_spec h.inv hadd
    refine ⟨hinv', ?_⟩
    rw [hview]
    by_cases hino : ino = ino'
    · subst hino
      have hstamps : (stamps ++ stampsOf ino [(ino, v.timestamp)]).reverse =
          v.timestamp :: stamps.reverse := by
        simp [stampsOf]
      rw [push_self, hstamps]
      exact ((List.take_sublist _ _).map _).trans (h.sublist.cons_cons _)
    · have hnone : stampsOf ino [(ino', v.timestamp)] = [] := by
        simp [stampsOf, Ne.symm hino]
      rw [push_of_ne hino, hnone, List.append_nil]
      exact h.sublist

/-! ## Runs -/

lemma listed_run (acts : List TableAct) (ino : UInt64) :
    Listed hash ino
      (stampsOf ino (observe (TableThreads.step hash) (inserted hash) .init acts))
      (run (TableThreads.step hash) .init acts) := by
  refine prefix_run (I := fun past => Listed hash ino
    (stampsOf ino (observe (TableThreads.step hash) (inserted hash) .init past))) ?_ ?_
  · refine ⟨tableInv_init, ?_⟩
    show ((tableView hash VersionsHtable.init ino).map CowVersion.timestamp).Sublist _
    simp
  · intro past a _ _ h
    rw [observe_concat, stampsOf_append]
    exact h.step (step_tableChange hash _ a)

/-! ## The latest version and the oldest -/

variable {ino : UInt64}

lemma timeOrdered_run {acts : List TableAct}
    (h : InTimeOrder (observe (TableThreads.step hash) (inserted hash) .init acts))
    (ino : UInt64) : TimeOrdered hash (run (TableThreads.step hash) .init acts).table ino := by
  have hrev := List.pairwise_reverse.2 (h ino)
  exact List.pairwise_map.1 (hrev.sublist (listed_run acts ino).sublist)

/-- The version pushed out of a full list is the oldest of it. -/
lemma TimeOrdered.evicts {t t' : VersionsHtable} (ht : TableInv hash t)
    (h : TimeOrdered hash t ino) {v old : CowVersion} {nomem : Bool}
    (hadd : versionAdd hash t ino v nomem = some (t', some old)) :
    old ∈ tableView hash t ino ∧ ∀ w ∈ tableView hash t ino, old.timestamp ≤ w.timestamp := by
  obtain ⟨-, -, hold⟩ := versionAdd_spec ht hadd
  have hsplit : tableView hash t ino = (tableView hash t ino).take 63 ++ [old] := by
    have hdrop : (tableView hash t ino).drop 63 = [old] := hold.symm
    rw [← hdrop, List.take_append_drop]
  unfold TimeOrdered at h
  rw [hsplit] at h ⊢
  refine ⟨by simp, fun w hw => ?_⟩
  rcases List.mem_append.1 hw with hw | hw
  · exact UInt64.le_of_lt ((List.pairwise_append.1 h).2.2 w hw old List.mem_cons_self)
  · exact List.mem_singleton.1 hw ▸ UInt64.le_refl _

/-- With the time stamp 0, `cowfs_version_find` returns the latest version. -/
lemma TimeOrdered.finds {t : VersionsHtable} (h : TimeOrdered hash t ino) {v : CowVersion}
    (hfind : versionFind hash t ino 0 = some v) :
    v ∈ tableView hash t ino ∧ ∀ w ∈ tableView hash t ino, w.timestamp ≤ v.timestamp := by
  rw [versionFind_latest] at hfind
  obtain ⟨vs, hvs⟩ := List.head?_eq_some_iff.1 hfind
  unfold TimeOrdered at h
  rw [hvs] at h ⊢
  refine ⟨List.mem_cons_self, fun w hw => ?_⟩
  rcases List.mem_cons.1 hw with rfl | hw
  · exact UInt64.le_refl _
  · exact UInt64.le_of_lt ((List.pairwise_cons.1 h).1 w hw)

/-- Versions of one number are told apart by their time stamps. -/
lemma TimeOrdered.eq_of_timestamp {t : VersionsHtable} (h : TimeOrdered hash t ino)
    {v w : CowVersion} (hv : v ∈ tableView hash t ino) (hw : w ∈ tableView hash t ino)
    (he : v.timestamp = w.timestamp) : v = w := by
  have hnd : ((tableView hash t ino).map CowVersion.timestamp).Nodup :=
    List.pairwise_map.2 (h.imp fun hlt => (UInt64.ne_of_lt hlt).symm)
  exact List.inj_on_of_nodup_map hnd hv hw he

/-- `cowfs_version_find_deleted` returns the same version, when it returns one of this number. -/
lemma TimeOrdered.agrees {t : VersionsHtable} (ht : TableInv hash t) (h : TimeOrdered hash t ino)
    {v w : CowVersion} (hfind : versionFind hash t ino 0 = some v) (hop : v.opType = .unlink)
    (hdel : versionFindDeleted t v.origName 0 = some w) (hw : w ∈ tableView hash t ino) :
    w = v := by
  obtain ⟨hv, hmax⟩ := h.finds hfind
  have hlatest := versionFindDeleted_latest t v.origName 0
  rw [hdel] at hlatest
  have hle := hlatest.2.2 v (ht.mem_allVersions.2 ⟨ino, hv⟩) ⟨hop, rfl, .inl rfl⟩
  exact h.eq_of_timestamp hw hv (UInt64.le_antisymm (hmax w hw) hle)

/-- **Lists in time order.**  In every run whose insertions under each inode number come in the
order of the allocations, every list is in time order; the version an insertion pushes out is the
oldest of its list; `cowfs_version_find` with the time stamp 0 returns the latest version, and
`cowfs_version_find_deleted` the same one when it returns one of that number. -/
theorem time_order_run (hash : UInt64 → Bucket) (acts : List TableAct)
    (h : InTimeOrder (observe (TableThreads.step hash) (inserted hash) .init acts))
    (ino : UInt64) :
    let t := (run (TableThreads.step hash) .init acts).table
    TimeOrdered hash t ino ∧
      (∀ v nomem t' old, versionAdd hash t ino v nomem = some (t', some old) →
        old ∈ tableView hash t ino ∧ ∀ w ∈ tableView hash t ino, old.timestamp ≤ w.timestamp) ∧
      (∀ v, versionFind hash t ino 0 = some v →
        v ∈ tableView hash t ino ∧ (∀ w ∈ tableView hash t ino, w.timestamp ≤ v.timestamp) ∧
          (v.opType = .unlink → ∀ w, versionFindDeleted t v.origName 0 = some w →
            w ∈ tableView hash t ino → w = v)) := by
  intro t
  have ht : TableInv hash t := (listed_run acts ino).inv
  have hord := timeOrdered_run h ino
  refine ⟨hord, fun v nomem t' old hadd => hord.evicts ht hadd, fun v hfind => ?_⟩
  obtain ⟨hv, hmax⟩ := hord.finds hfind
  exact ⟨hv, hmax, fun hop w hdel hw => hord.agrees ht hfind hop hdel hw⟩

/-- Two threads delete two links, both called `x`, of the file with the number 5; `first` and
`second` are the threads in the order of their insertions. -/
def twoUnlinks (first second : ℕ) : List TableAct :=
  [.alloc 1 .unlink 5 100, .alloc 2 .unlink 5 200,
    .fill 2 false true ['p'] ['x'] Kstat.zero, .fill 1 false true ['q'] ['x'] Kstat.zero,
    .insert first false, .insert second false]

/-- In the order of the allocations. -/
theorem time_order_run_twoUnlinks :
    TimeOrdered (fun _ => 0)
      (run (TableThreads.step fun _ => 0) .init (twoUnlinks 1 2)).table 5 := by
  refine (time_order_run (fun _ => 0) (twoUnlinks 1 2) (fun ino => ?_) 5).1
  have hins : observe (TableThreads.step fun _ => 0) (inserted fun _ => 0) .init
      (twoUnlinks 1 2) = [(5, 100), (5, 200)] := by
    decide +kernel
  rw [hins]
  by_cases hino : 5 = ino <;> simp [stampsOf, hino]

/-- In the other order the list is not in time order, and the two searches return different
versions of the file. -/
theorem unlinks_overtake :
    let t := (run (TableThreads.step fun _ => 0) .init (twoUnlinks 2 1)).table
    ¬ TimeOrdered (fun _ => 0) t 5 ∧
      (versionFind (fun _ => 0) t 5 0).map CowVersion.timestamp = some 100 ∧
      (versionFindDeleted t ['x'] 0).map CowVersion.timestamp = some 200 := by
  refine ⟨fun h => ?_, by decide +kernel, by decide +kernel⟩
  have hview : (tableView (fun _ => 0)
      (run (TableThreads.step fun _ => 0) .init (twoUnlinks 2 1)).table 5).map
        CowVersion.timestamp = [100, 200] := by
    decide +kernel
  have hpw : ([100, 200] : List UInt64).Pairwise fun a b => b < a := by
    rw [← hview]
    exact List.pairwise_map.2 h
  revert hpw
  decide

end Cowfs
