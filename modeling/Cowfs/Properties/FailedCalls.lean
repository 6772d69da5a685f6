import Cowfs.Construction.Paths
import Cowfs.Properties.SnapshotOutcome

/-!
# Calls that fail after their snapshot

`cowfs_unlink`, `cowfs_rename` and `cowfs_setattr` record their version before they try the lower
operation and do not take it back when that fails.  All else a call does to the upper layer waits
for success (the attributes copied, the dentry dropped, the flag set); the version does not.  A
call that failed is therefore without a trace exactly when its snapshot is, and then a later
rollback to the latest version goes to a version that stands for no change.
-/

namespace Cowfs

open KeyedLog

variable {env : Env} {s : State} {op : Op}

/-- A call of `cowfs_unlink`, `cowfs_rename` or `cowfs_setattr`. -/
def Op.recordsFirst : Op → Bool
  | .unlink .. => true
  | .rename .. => true
  | .setattr .. => true
  | _ => false

/-- No version enters the table, and the copy made no file or left a file as it was. -/
def Snapshot.Traceless (env : Env) (x : Snapshot) (st : Store) : Prop :=
  ¬ x.Enters env st ∧
    ∀ p, x.opens env st = some p → st.fileIn p = some x.leftover

/-- The version table and the shadow files, wherever their paths lead, are the same. -/
structure SameHistory (st st' : Store) : Prop where
  table : st'.table = st.table
  shadow : st'.shadow = st.shadow
  outside : st'.outside = st.outside

lemma SameHistory.fileIn {st st' : Store} (h : SameHistory st st') (p : ShadowPlace) :
    st'.fileIn p = st.fileIn p := by
  cases p with
  | inside r base => exact congrArg (fun dirs => (dirs r).bind fun files => files base) h.shadow
  | outside path => exact congrFun h.outside path

lemma store_of_recordsFirst (hop : op.recordsFirst = true) :
    (step env s op).store = s.store.after env (snapshotOf s op) := by
  cases op with
  | unlink => exact cowfsUnlink_store ..
  | rename => exact cowfsRename_store ..
  | setattr => exact cowfsSetattr_store ..
  | _ => cases hop

/-- Writing a file with what it has changes nothing. -/
lemma sameHistory_put {st : Store} {p : ShadowPlace} {c : Content} (h : st.fileIn p = some c) :
    SameHistory st (st.put c p) := by
  cases p with
  | inside r base =>
    obtain ⟨files, hfiles, hbase⟩ := Option.bind_eq_some_iff.1 h
    refine ⟨rfl, ?_, rfl⟩
    show (st.setShadow r base (some c)).shadow = st.shadow
    unfold Store.setShadow
    rw [hfiles, Option.map_some, ← hbase, Function.update_eq_self, ← hfiles]
    exact Function.update_eq_self r st.shadow
  | outside path =>
    refine ⟨rfl, rfl, ?_⟩
    show Function.update st.outside path (some c) = st.outside
    rw [show some c = st.outside path from h.symm, Function.update_eq_self]

lemma Snapshot.Traceless.take {x : Snapshot} {st : Store} (h : x.Traceless env st) :
    SameHistory st (x.take env st) := by
  rw [take_of_not_enters h.1]
  cases halloc : x.φ.alloc with
  | true => exact ⟨rfl, rfl, rfl⟩
  | false =>
    show SameHistory st (x.copy env st).2
    rw [copy_store halloc]
    cases hopens : x.opens env st with
    | none => exact ⟨rfl, rfl, rfl⟩
    | some p =>
      have hsame : SameHistory st.takeNode (st.takeNode.put x.leftover p) :=
        sameHistory_put (h.2 p hopens)
      exact ⟨hsame.table, hsame.shadow, hsame.outside⟩

/-- What a version that enters changes. -/
lemma Snapshot.Enters.table_ne {x : Snapshot} {st : Store} (hst : StoreInv env st)
    (h : x.Enters env st) : (x.take env st).table ≠ st.table := by
  have hview := x.table_of_enters hst.table h
  intro he
  rw [he] at hview
  have hmem : x.version st.nextNode (x.enteredCopied env st) ∈
      tableView env.hash st.table x.inode.ino := by
    rw [hview, push_self, maxVersions, List.take_succ_cons]
    exact List.mem_cons_self
  exact hst.fresh rfl _ ⟨_, hmem⟩ rfl

lemma traceless_of_take {x : Snapshot} {st : Store} (hst : StoreInv env st)
    (h : SameHistory st (x.take env st)) : x.Traceless env st := by
  have henters : ¬ x.Enters env st := fun henters => henters.table_ne hst h.table
  refine ⟨henters, fun p hopens => ?_⟩
  have halloc : x.φ.alloc = false := (Snapshot.opens_eq_some.1 hopens).1.1
  have hfile := h.fileIn p
  rw [Snapshot.take_of_not_enters henters, halloc, if_neg Bool.false_ne_true,
    Snapshot.fileIn_copy halloc, if_pos hopens] at hfile
  exact hfile.symm

/-- **When a failed call leaves no trace.**  In every reachable state a call of the three leaves
the version table and the shadow files as they were if and only if its snapshot does; what the
lower operation returns makes no difference. -/
theorem failed_call_iff (hs : Reachable env s) (hop : op.recordsFirst = true) :
    SameHistory s.store (step env s op).store ↔ ∀ x ∈ snapshotOf s op, x.Traceless env s.store := by
  rw [store_of_recordsFirst hop]
  cases hx : snapshotOf s op with
  | none => simp [Store.after, SameHistory.mk]
  | some x =>
    have hstore : s.store.after env (some x) = x.take env s.store := rfl
    rw [hstore]
    constructor
    · intro h y hy
      obtain rfl : x = y := Option.some.inj hy
      exact traceless_of_take hs.storeInv h
    · intro h
      exact (h x rfl).take

/-! ## Failed calls on a small tree -/

/-- The file `x` was made and written. -/
def writtenOps : List Op :=
  [.mount ['/', 'l'] none none, .make sIFREG 1 ['x'] 0x1A4#16 ⟨0, 0, 0⟩ 10 1 none,
    .open 0 4 true none, .write 0 0 [1, 2] 1000 .clean none]

def writtenState : State := run (step smallEnv) (State.init smallTree fun _ => none) writtenOps

lemma writtenState_reachable : Reachable smallEnv writtenState :=
  ⟨smallTree, fun _ => none, writtenOps, rfl⟩

/-- The version record cannot be allocated, and the removal fails. -/
def tracelessUnlink : Op :=
  .unlink 1 ['x'] 2000 { SnapFaults.clean with alloc := true } (some (.other 5))

theorem failed_call_traceless :
    (exec smallEnv writtenState tracelessUnlink).1 = some (.other 5) ∧
      SameHistory writtenState.store (step smallEnv writtenState tracelessUnlink).store := by
  refine ⟨by decide +kernel, ?_⟩
  rw [failed_call_iff writtenState_reachable rfl]
  intro x hx
  have hx' : x.φ.alloc = true := by
    have hfaults : some true = some x.φ.alloc :=
      congrArg (Option.map SnapFaults.alloc) (snapshotOf_spec hx).2.2
    exact (Option.some.inj hfaults).symm
  refine ⟨fun h => ?_, fun p hopens => ?_⟩
  · rw [h.1] at hx'
    cases hx'
  · rw [(Snapshot.opens_eq_some.1 hopens).1.1] at hx'
    cases hx'

/-- A removal that fails, and nothing else. -/
def failedUnlink : Op := .unlink 1 ['x'] 2000 .clean (some (.other 5))

/-- The version of the removal is in the table and is now the latest, instead of that of the
write. -/
theorem failed_call_trace :
    Reachable smallEnv writtenState ∧
      (exec smallEnv writtenState failedUnlink).1 = some (.other 5) ∧
      (step smallEnv writtenState failedUnlink).store.table ≠ writtenState.store.table ∧
      ((versionFind (fun _ => 0) writtenState.store.table 10 0).map CowVersion.opType =
        some .write) ∧
      ((versionFind (fun _ => 0) (step smallEnv writtenState failedUnlink).store.table 10 0).map
        CowVersion.opType = some .unlink) := by
  have hbefore : (versionFind (fun _ => 0) writtenState.store.table 10 0).map
      CowVersion.opType = some .write := by decide +kernel
  have hafter : (versionFind (fun _ => 0) (step smallEnv writtenState failedUnlink).store.table
      10 0).map CowVersion.opType = some .unlink := by decide +kernel
  refine ⟨writtenState_reachable, by decide +kernel, ?_, hbefore, hafter⟩
  intro he
  rw [he, hbefore] at hafter
  cases hafter

end Cowfs
