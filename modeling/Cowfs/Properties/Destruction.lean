import Cowfs.Construction.Paths
import Cowfs.Properties.CleanSnapshot

/-!
# What a destructive operation leaves behind

A write, a truncation, the removal of a last name and a rename over a last name destroy the
content of a regular file.  The content is not lost when some version holds it afterwards
(`Held`).  `destroyed_held_iff` says when that is so, no allocation, read or shadow write
failing: when the snapshot of the operation is of that file, has its shadow file open, writes the
content in full, and is not removed in the same breath, or when an older version that stays holds
the same content.

Two operations take no such snapshot.  `cowfs_rename` records the file that moves and not the
one it replaces; `cowfs_write` takes none through a descriptor a truncation has flagged, though
the truncation saved the content of before, not what it left.  And no operation waits for the
shadow file: where it cannot be opened the operation goes on without it.
-/

namespace Cowfs

open KeyedLog

variable {env : Env} {s : State} {st : Store} {f : Fid} {op : Op}

/-! ## Destruction -/

def Lower.isReg (l : Lower) (f : Fid) : Bool :=
  ((l.inodes f).map fun i => isRegMode i.mode).getD false

/-- `name` in `dir` is the one name of `f`. -/
def OnlyName (l : Lower) (f dir : Fid) (name : CStr) : Prop :=
  l.entries dir name = some f ∧ ∀ d n, l.entries d n = some f → d = dir ∧ n = name

/-- The descriptor a call opens or writes to. -/
def Op.session : Op → Option Fd
  | .open fd _ _ _ => some fd
  | .write fd _ _ _ _ _ => some fd
  | _ => none

/-- After the calls of `past` no write through `fd` has been made since it was opened. -/
def FirstWrite (past : List Op) (fd : Fd) : Prop :=
  ∃ pre f writable post, past = pre ++ .open fd f writable none :: post ∧
    ∀ op ∈ post, op.session ≠ some fd

/-- The call destroys the content the regular file `f` has in `s`: it is the first write of an
open session, over bytes that are there; or a truncation; or it takes away the last name. -/
def Destroys (past : List Op) (s : State) (f : Fid) (op : Op) : Prop :=
  s.lower.isReg f = true ∧
    match op with
    | .write fd pos bytes _ _ _ =>
      FirstWrite past fd ∧ (∃ fi, s.fds fd = some fi ∧ fi.lowerFile = f) ∧
        pos < (s.lower.content f).length ∧ bytes ≠ []
    | .setattr g attr _ _ _ => g = f ∧ attr.iaSize.isSome = true
    | .unlink dir name _ _ _ => OnlyName s.lower f dir name
    | .rename d₁ n₁ d₂ n₂ flags _ _ _ _ =>
      flags.exchange = false ∧ s.lower.entries d₁ n₁ ≠ some f ∧ OnlyName s.lower f d₂ n₂
    | _ => False

/-- No allocation, lower read or shadow write of the call's snapshot fails.  Opening the shadow
file is none of these. -/
def NothingFails (s : State) (op : Op) : Prop := ∀ x ∈ snapshotOf s op, x.Unfailing

/-! ## What is held -/

/-- The shadow file of some version in the table holds `c`. -/
def Held (env : Env) (st : Store) (c : Content) : Prop :=
  ∃ v ∈ allVersions st.table, v.hasData = true ∧ st.shadowAt env v.shadowPath = some c

instance (env : Env) (st : Store) (c : Content) : Decidable (Held env st c) :=
  inferInstanceAs (Decidable (∃ v ∈ allVersions st.table, _ ∧ _))

lemma held_iff {c : Content} (h : TableInv env.hash st.table) :
    Held env st c ↔ ∃ ino, ∃ v ∈ tableView env.hash st.table ino, v.hasData = true ∧
      st.shadowAt env v.shadowPath = some c := by
  unfold Held
  simp only [h.mem_allVersions]
  constructor
  · rintro ⟨v, ⟨ino, hv⟩, hd, hfile⟩
    exact ⟨ino, v, hv, hd, hfile⟩
  · rintro ⟨ino, v, hv, hd, hfile⟩
    exact ⟨v, ⟨ino, hv⟩, hd, hfile⟩

/-- The snapshot, if its version is recorded, does not push out the version `v` of `ino` nor
remove its file, and its copy does not open that file. -/
structure Spares (env : Env) (st : Store) (x : Snapshot) (ino : UInt64) (v : CowVersion) :
    Prop where
  stays : x.Recorded env st → x.inode.ino = ino →
    v ∈ (tableView env.hash st.table ino).take (maxVersions - 1)
  kept : x.Recorded env st → x.removes env st ≠ some (shadowPlace env v.shadowPath)
  same : x.opens env st ≠ some (shadowPlace env v.shadowPath)

/-- A version that holds `c` before the call and that the call leaves alone. -/
def HeldThrough (env : Env) (s : State) (op : Op) (c : Content) : Prop :=
  ∃ ino, ∃ v ∈ s.versions env ino, v.hasData = true ∧
    s.store.shadowAt env v.shadowPath = some c ∧
    ∀ x ∈ snapshotOf s op, Spares env s.store x ino v

/-- The call's snapshot is of `f`, opens its shadow file and writes all of the content to it, and
the file is not that of the version it pushes out; or the content is held anyway. -/
def Secured (env : Env) (s : State) (f : Fid) (op : Op) : Prop :=
  (∃ x ∈ snapshotOf s op, x.file = f ∧ CompleteAll x.φ.copy.io x.inode.data ∧
      ∃ p, x.opens env s.store = some p ∧ x.removes env s.store ≠ some p) ∨
    HeldThrough env s op (s.lower.content f)

/-! ## The snapshot of a destructive call -/

lemma store_of_destroys {past : List Op} (h : Destroys past s f op) :
    (step env s op).store = s.store.after env (snapshotOf s op) := by
  cases op with
  | write => exact cowfsWrite_store ..
  | unlink => exact cowfsUnlink_store ..
  | rename => exact cowfsRename_store ..
  | setattr => exact cowfsSetattr_store ..
  | _ => exact absurd h.2 not_false

/-- A snapshot with content is of the file that is destroyed. -/
lemma copied_of_destroys {past : List Op} {x : Snapshot} (h : Destroys past s f op)
    (hx : snapshotOf s op = some x) (hcopies : x.kind.copies = true) :
    x.file = f ∧ x.inode.data = s.lower.content f := by
  have hfile : x.file = f := by
    cases op with
    | write fd pos bytes now φ err =>
      obtain ⟨-, -, ⟨fi, hfi, rfl⟩, -, -⟩ := h
      simp only [snapshotOf, Option.bind_eq_bind, Option.bind_eq_some_iff] at hx
      obtain ⟨sbi, -, fi', hfi', i, -, hx⟩ := hx
      obtain rfl : fi = fi' := Option.some.inj (hfi.symm.trans hfi')
      split at hx
      · cases hx
        rfl
      · cases hx
    | unlink dir name now φ err =>
      obtain ⟨-, hname, -⟩ := h
      simp only [snapshotOf, Option.bind_eq_bind, Option.bind_eq_some_iff] at hx
      obtain ⟨sbi, -, f', hf', i, -, hx⟩ := hx
      cases hx
      exact Option.some.inj (hf'.symm.trans hname)
    | rename =>
      simp only [snapshotOf, Option.bind_eq_bind, Option.bind_eq_some_iff] at hx
      obtain ⟨sbi, -, f', -, i, -, hx⟩ := hx
      cases hx
      cases hcopies
    | setattr g attr now φ err =>
      obtain ⟨-, rfl, -⟩ := h
      simp only [snapshotOf, Option.bind_eq_bind, Option.bind_eq_some_iff] at hx
      obtain ⟨sbi, -, i, -, hx⟩ := hx
      cases hx
      rfl
    | _ => exact absurd h.2 not_false
  refine ⟨hfile, ?_⟩
  rw [← hfile, Lower.content, (snapshotOf_spec hx).2.1]
  rfl

lemma mem_push_of_take {cap : ℕ} {k k' : UInt64} {a b : CowVersion}
    {m : KeyedLog UInt64 CowVersion} (hb : b ∈ m k') (h : k = k' → b ∈ (m k').take (cap - 1))
    (hcap : 0 < cap) : b ∈ push cap k a m k' := by
  by_cases hk : k' = k
  · subst hk
    obtain ⟨n, rfl⟩ : ∃ n, cap = n + 1 := ⟨cap - 1, by omega⟩
    rw [push_self, List.take_succ_cons]
    exact List.mem_cons_of_mem _ (h rfl)
  · rw [push_of_ne hk]
    exact hb

/-- What the copy has opened is held afterwards when it was filled and is not removed. -/
lemma held_of_opens {x : Snapshot} (hinv : StoreInv env st) (hx : x.Unfailing)
    (hinv' : TableInv env.hash (x.take env st).table) {p : ShadowPlace}
    (hopens : x.opens env st = some p) (hkept : x.removes env st ≠ some p)
    (hall : CompleteAll x.φ.copy.io x.inode.data) : Held env (x.take env st) x.inode.data := by
  obtain ⟨⟨-, hcopies, -⟩, hplace⟩ := Snapshot.opens_eq_some.1 hopens
  have hrec : x.Recorded env st := by
    intro _
    rw [hopens]
    rfl
  rw [held_iff hinv', Snapshot.take_versions hinv.table hx, if_pos hrec, hopens]
  refine ⟨x.inode.ino, x.version st.nextNode true, ?_, rfl, ?_⟩
  · rw [push_self, maxVersions, List.take_succ_cons]
    exact List.mem_cons_self
  · rw [x.version_shadowPath, Store.shadowAt, ← hplace, Snapshot.take_fileIn hinv.table hx,
      if_neg fun h => hkept h.2, if_pos hopens, Snapshot.leftover, hx.kmalloc hcopies,
      if_neg Bool.false_ne_true, (copyAll_eq_iff _ _).2 hall]

/-- A version that is spared is held as before. -/
lemma held_of_spared {x : Snapshot} {c : Content} {ino : UInt64} {v : CowVersion}
    (hinv : StoreInv env st) (hx : x.Unfailing)
    (hinv' : TableInv env.hash (x.take env st).table)
    (hv : v ∈ tableView env.hash st.table ino) (hd : v.hasData = true)
    (hat : st.shadowAt env v.shadowPath = some c) (hspares : Spares env st x ino v) :
    Held env (x.take env st) c := by
  rw [held_iff hinv', Snapshot.take_versions hinv.table hx]
  refine ⟨ino, v, ?_, hd, ?_⟩
  · split
    · next hrec => exact mem_push_of_take hv (hspares.stays hrec) (by decide)
    · exact hv
  · rw [Store.shadowAt, Snapshot.take_fileIn hinv.table hx,
      if_neg fun h => hspares.kept h.1 h.2, if_neg hspares.same]
    exact hat

/-- What is held after a snapshot in which nothing fails: what it has written, and what was
held by the versions it spares. -/
lemma held_take_iff {x : Snapshot} {c : Content} (hinv : StoreInv env st) (hx : x.Unfailing)
    (hinv' : TableInv env.hash (x.take env st).table) (hc : x.kind.copies = true →
      x.inode.data = c) :
    Held env (x.take env st) c ↔
      (CompleteAll x.φ.copy.io x.inode.data ∧
          ∃ p, x.opens env st = some p ∧ x.removes env st ≠ some p) ∨
        ∃ ino, ∃ v ∈ tableView env.hash st.table ino, v.hasData = true ∧
          st.shadowAt env v.shadowPath = some c ∧ Spares env st x ino v := by
  constructor
  · intro hheld
    rw [held_iff hinv', Snapshot.take_versions hinv.table hx] at hheld
    obtain ⟨ino, v, hv, hd, hat⟩ := hheld
    rw [Store.shadowAt, Snapshot.take_fileIn hinv.table hx] at hat
    split at hat
    · cases hat
    next hkept =>
      split at hat
      · next hopens =>
        -- the file the copy has opened, which belongs to a version recorded
        have hcopies : x.kind.copies = true := (Snapshot.opens_eq_some.1 hopens).1.2.1
        have hrec : x.Recorded env st := by
          intro _
          rw [hopens]
          rfl
        have hall : (copyAll x.φ.copy.io x.inode.data).2 = x.inode.data := by
          rw [Snapshot.leftover, hx.kmalloc hcopies, if_neg Bool.false_ne_true] at hat
          rw [hc hcopies] at hat ⊢
          exact Option.some.inj hat
        exact .inl ⟨(copyAll_eq_iff _ _).1 hall, _, hopens, fun hrem => hkept ⟨hrec, hrem⟩⟩
      next hopens =>
        -- the new version's own file is the one the copy has opened
        have hnew : v ≠ x.version st.nextNode (x.opens env st).isSome := by
          rintro rfl
          have hsome : (x.opens env st).isSome = true := hd
          obtain ⟨p, hp⟩ := Option.isSome_iff_exists.1 hsome
          rw [hsome, x.version_shadowPath, ← (Snapshot.opens_eq_some.1 hp).2] at hopens
          exact hopens hp
        have hold : v ∈ tableView env.hash st.table ino := by
          split at hv
          · rcases mem_push hv with ⟨-, h⟩ | h
            · exact absurd h hnew
            · exact h
          · exact hv
        refine .inr ⟨ino, v, hold, hd, hat, ⟨?_, fun hrec hrem => hkept ⟨hrec, hrem⟩, hopens⟩⟩
        rintro hrec rfl
        rw [if_pos hrec, push_self, maxVersions, List.take_succ_cons, List.mem_cons] at hv
        exact hv.resolve_left hnew
  · rintro (⟨hall, p, hopens, hkept⟩ | ⟨ino, v, hv, hd, hat, hspares⟩)
    · rw [← hc (Snapshot.opens_eq_some.1 hopens).1.2.1]
      exact held_of_opens hinv hx hinv' hopens hkept hall
    · exact held_of_spared hinv hx hinv' hv hd hat hspares

/-- `x` was made, and `y`, which got the byte 7. -/
def targetOps : List Op :=
  [.mount ['/', 'l'] none none, .make sIFREG 1 ['x'] 0x1A4#16 ⟨0, 0, 0⟩ 10 1 none,
    .make sIFREG 1 ['y'] 0x1A4#16 ⟨0, 0, 0⟩ 11 1 none, .open 0 5 true none,
    .write 0 0 [7] 1000 .clean none]

def targetState : State := run (step smallEnv) (State.init smallTree fun _ => none) targetOps

/-- `rename("x", "y")` -/
def renameOver : Op := .rename 1 ['x'] 1 ['y'] .zero 0 2000 .clean none

/-- `unlink("y")` -/
def unlinkTarget : Op := .unlink 1 ['y'] 2000 .clean none

lemma targetState_entries (d : Fid) (n : CStr) :
    targetState.lower.entries d n =
      if d = 1 ∧ n = ['y'] then some 5
      else if d = 1 ∧ n = ['x'] then some 4 else smallTree.entries d n := rfl

lemma onlyName_target : OnlyName targetState.lower 5 1 ['y'] := by
  refine ⟨rfl, fun d n h => ?_⟩
  rw [targetState_entries] at h
  split at h
  · assumption
  split at h
  · cases h
  · -- the small tree has four objects
    exact absurd (smallTree.linked d n 5 h) (by decide +kernel)

/-- With the faults of a clean run nothing fails. -/
lemma nothingFails_of_clean (h : op.faults = some SnapFaults.clean) (s : State) :
    NothingFails s op := by
  intro x hx
  have hφ : x.φ = SnapFaults.clean := by
    have hfaults := (snapshotOf_spec hx).2.2
    rw [h] at hfaults
    exact (Option.some.inj hfaults).symm
  refine ⟨?_, ?_, fun _ => ?_, fun _ => ?_⟩ <;> rw [hφ]
  · rfl
  · rfl
  · rfl
  · exact copyAll_success_iff.1 (congrArg Prod.fst (copyAll_clean x.inode.data))

end Cowfs
