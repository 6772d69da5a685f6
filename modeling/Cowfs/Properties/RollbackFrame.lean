import Cowfs.Properties.Rollback

/-!
# The frame of a rollback

A rollback is about one file: the one at the path, or the one it creates again.  `Untouched`
says that another file keeps its names and its inode, content and attributes included.

Three of the four branches keep to their file.  Recreating goes through `vfs_create`, which
refuses a name in use; restoring a content and attributes goes to the file at the path.  The
branch of a `COW_OP_RENAME` version calls `vfs_rename` without a flag, so a file that has taken
the old name in the meantime loses it: `rollback_frame_iff` shows that this is the only way in
which a rollback reaches another file.
-/

namespace Cowfs

variable {env : Env} {s : State} {l l' l'' : Lower} {g : Fid}

/-- The file `g` keeps its names, its content and its attributes. -/
structure Untouched (l l' : Lower) (g : Fid) : Prop where
  names : ∀ d n, l.entries d n = some g → l'.entries d n = some g
  inode : l'.inodes g = l.inodes g

lemma Untouched.refl (l : Lower) (g : Fid) : Untouched l l g := ⟨fun _ _ h => h, rfl⟩

lemma Untouched.trans (h : Untouched l l' g) (h' : Untouched l' l'' g) : Untouched l l'' g :=
  ⟨fun d n hd => h'.names d n (h.names d n hd), h'.inode.trans h.inode⟩

/-! ## The calls of the lower file system -/

lemma untouched_modify {f : Fid} (hg : g ≠ f) (h : Inode → Inode) :
    Untouched l (l.modify f h) g where
  names _ _ hd := hd
  inode := Lower.modify_inodes_of_ne hg h

/-- A file put under a free name takes nothing from the others. -/
lemma untouched_addNode {dir : Fid} {name : CStr} (hfree : l.entries dir name = none)
    (hg : (l.inodes g).isSome) (i : Inode) : Untouched l (l.addNode dir name i) g where
  names d n hd := by
    have hne : ¬ (d = dir ∧ n = name) := by
      rintro ⟨rfl, rfl⟩
      rw [hfree] at hd
      cases hd
    rw [Lower.addNode_entries, if_neg hne]
    exact hd
  inode := Lower.addNode_inodes_of_ne (Lower.ne_next_of_isSome hg) dir name i

/-- A move over a free name takes nothing from the others. -/
lemma untouched_moveEntry {d₁ d₂ : Fid} {n₁ n₂ : CStr} {f : Fid} (h₁ : l.entries d₁ n₁ = some f)
    (hg : g ≠ f) (hfree : l.entries d₂ n₂ ≠ some g) :
    Untouched l (l.moveEntry d₁ n₁ d₂ n₂ f (l.linked _ _ _ h₁)) g where
  names d n hd := by
    rw [Lower.moveEntry_entries]
    split
    · next he =>
      obtain ⟨rfl, rfl⟩ := he
      exact absurd hd hfree
    · split
      · next he =>
        obtain ⟨rfl, rfl⟩ := he
        rw [h₁] at hd
        exact absurd (Option.some.inj hd).symm hg
      · exact hd
  inode := rfl

lemma untouched_notify {f : Fid} (hg : g ≠ f) (attr : Iattr) (now : ℕ) (err : Status) :
    Untouched l (notifyChange l f attr now err).2 g := by
  cases err with
  | some e => exact .refl l g
  | none => exact untouched_modify hg _

lemma untouched_restore {path : CStr} {f : Fid} (hg : g ≠ f) (st : Store) (now : ℕ)
    (φ : CopyFaults) : Untouched l (shadowRestoreFile env st l path f now φ).2 g := by
  rcases restore_frame env st l path f now φ with h | ⟨data, h⟩
  · rw [h]
    exact .refl l g
  · rw [h]
    exact untouched_modify hg _

lemma untouched_recreate (hg : (s.lower.inodes g).isSome) (dir : Fid) (name : CStr)
    (v : CowVersion) (φ : RollbackFaults) :
    Untouched s.lower (recreate env s dir name v φ).2 g := by
  by_cases h : (recreate env s dir name v φ).1 = none
  · obtain ⟨hfree, -, htree⟩ := recreate_success h
    have hnew : Untouched s.lower (withNewFile s.lower dir name v φ) g :=
      untouched_addNode hfree hg _
    rw [htree]
    split
    · exact hnew.trans (untouched_restore (Lower.ne_next_of_isSome hg) _ _ _)
    · exact hnew
  · rw [recreate_failure h]
    exact .refl _ _

/-! ## The branches -/

/-- The file a choice is about: the one at the place, none for a deleted name. -/
def Choice.file : Choice → Option Fid
  | .deleted _ _ _ => none
  | .found p _ => some p.file

/-- The old name of a renamed file now belongs to another file, which `vfs_rename` replaces. -/
def Replaces (s : State) (φ : RollbackFaults) : Choice → Prop
  | .deleted _ _ _ => False
  | .found p v =>
    v.opType = .rename ∧ v.hasData = false ∧ φ.lookup = none ∧ φ.rename = none ∧
      ∃ g, s.lower.entries p.dir v.origName = some g ∧ g ≠ p.file ∧
        renameRefused s.lower p.file (some g) RenameFlags.zero = none

lemma untouched_rollbackUnlink (hg : (s.lower.inodes g).isSome) (p : Place) (v : CowVersion)
    (φ : RollbackFaults) : Untouched s.lower (rollbackUnlink env s p v φ).2 g := by
  rw [rollbackUnlink_eq]
  split
  · exact .refl _ _
  · exact untouched_recreate hg _ _ _ _

/-- Restoring an old name takes it away from whoever has it. -/
lemma untouched_rollbackRename {p : Place} {v : CowVersion} {φ : RollbackFaults}
    (hp : s.lower.entries p.dir p.name = some p.file) (hop : v.opType = .rename)
    (hd : v.hasData = false) (hg : g ≠ p.file) (hno : ¬ Replaces s φ (.found p v)) :
    Untouched s.lower (rollbackRename s p v φ).2 g := by
  unfold rollbackRename
  cases hlookup : φ.lookup with
  | some e => exact .refl _ _
  | none =>
    dsimp only
    have hcases := vfsRename_cases s.lower p.dir p.name p.dir v.origName RenameFlags.zero φ.ino
      φ.now φ.rename
    generalize (vfsRename s.lower p.dir p.name p.dir v.origName RenameFlags.zero φ.ino φ.now
      φ.rename).1 = r at hcases
    generalize (vfsRename s.lower p.dir p.name p.dir v.origName RenameFlags.zero φ.ino φ.now
      φ.rename).2 = l' at hcases ⊢
    cases hcases with
    | refused => exact .refl _ _
    | linked => exact .refl _ _
    | exchanged _ _ _ hflag _ => cases hflag
    | whitened _ _ _ _ hwhite _ => cases hwhite
    | @moved f h₁ hne hok _ _ herr =>
      obtain rfl : p.file = f := Option.some.inj (hp.symm.trans h₁)
      refine untouched_moveEntry h₁ hg fun hocc => hno ⟨hop, hd, hlookup, herr, g, hocc, hg, ?_⟩
      rwa [hocc] at hok

lemma untouched_dispatch {p : Place} {v : CowVersion} {φ : RollbackFaults}
    (hp : s.lower.entries p.dir p.name = some p.file) (hg : (s.lower.inodes g).isSome)
    (hne : g ≠ p.file) (hno : ¬ Replaces s φ (.found p v)) :
    Untouched s.lower (rollbackDispatch env s p v φ).2 g := by
  unfold rollbackDispatch
  split
  · exact untouched_rollbackUnlink hg p v φ
  split
  · exact untouched_restore hne _ _ _
  next hd =>
    split
    · next hop => exact untouched_rollbackRename hp hop (by simpa using hd) hne hno
    · exact .refl _ _

lemma untouched_version {p : Place} {v : CowVersion} {φ : RollbackFaults}
    (hp : s.lower.entries p.dir p.name = some p.file) (hg : (s.lower.inodes g).isSome)
    (hne : g ≠ p.file) (hno : ¬ Replaces s φ (.found p v)) :
    Untouched s.lower (rollbackVersion env s p v φ).2.lower g := by
  have hdispatch : Untouched s.lower (rollbackDispatch env s p v φ).2 g :=
    untouched_dispatch hp hg hne hno
  rw [rollbackVersion_lower]
  split
  · exact hdispatch.trans (untouched_notify hne _ _ _)
  · exact hdispatch

/-- The file that is replaced loses its name. -/
lemma replaced_loses_name (env : Env) {p : Place} {v : CowVersion} {φ : RollbackFaults}
    (hp : s.lower.entries p.dir p.name = some p.file) (h : Replaces s φ (.found p v)) :
    ∃ g, g ≠ p.file ∧ s.lower.entries p.dir v.origName = some g ∧
      (rollbackVersion env s p v φ).2.lower.entries p.dir v.origName = some p.file := by
  obtain ⟨hop, hd, hlookup, hrename, g, hocc, hne, hok⟩ := h
  have hmoves : s.lower.entries p.dir v.origName ≠ some p.file := by
    rw [hocc]
    exact fun he => hne (Option.some.inj he)
  rw [← hocc] at hok
  have hvfs := vfsRename_of_allowed φ.ino φ.now hp hmoves hok
  have hdispatch : rollbackDispatch env s p v φ =
      (none, s.lower.moveEntry p.dir p.name p.dir v.origName p.file (s.lower.linked _ _ _ hp)) := by
    simp only [rollbackDispatch, hop, reduceCtorEq, if_false, hd, Bool.false_eq_true, if_true,
      rollbackRename, hlookup, hrename, hvfs]
  refine ⟨g, hne, hocc, ?_⟩
  rw [rollbackVersion_lower, hdispatch, hop, if_neg (by simp)]
  rw [Lower.moveEntry_entries, if_pos ⟨rfl, rfl⟩]

/-- **The frame of a rollback.**  Every existing file but the one the request is about keeps
its names, its content and its attributes, unless the request renames its file over another
one. -/
theorem rollback_frame_iff (env : Env) (s : State) (path : CStr) (timestamp : UInt64)
    (φ : RollbackFaults) (choice : Choice)
    (h : chosen env s path timestamp φ = .ok choice) :
    (∀ g, (s.lower.inodes g).isSome → choice.file ≠ some g →
        Untouched s.lower (ioctlRollback env s path timestamp φ).2.lower g) ↔
      ¬ Replaces s φ choice := by
  rw [ioctlRollback_eq, h]
  dsimp only
  cases choice with
  | deleted dir base v =>
    refine iff_of_true (fun g hg _ => ?_) (fun hr => hr)
    simp only [act]
    cases φ.lookup with
    | some e => exact .refl _ _
    | none => exact untouched_recreate hg dir base v φ
  | found p v =>
    have hp := chosen_entry h
    constructor
    · intro hframe hr
      obtain ⟨g, hne, hocc, hgone⟩ := replaced_loses_name env hp hr
      have hfile : (Choice.found p v).file ≠ some g := fun he => hne (Option.some.inj he).symm
      have hkept := (hframe g (s.lower.linked _ _ _ hocc) hfile).names _ _ hocc
      exact hne (Option.some.inj (hkept.symm.trans hgone))
    · intro hno g hg hfile
      have hne : g ≠ p.file := fun he => hfile (congrArg some he.symm)
      exact untouched_version hp hg hne hno

/-! ## A name taken in the meantime -/

/-- The file `x` was renamed to `y`, and another file was made under the name `x`. -/
def reusedNameState : State :=
  run (step smallEnv) (State.init smallTree fun _ => none)
    [.mount ['/', 'l'] none none, .make sIFREG 1 ['x'] 0x1A4#16 ⟨0, 0, 0⟩ 10 1 none,
      .rename 1 ['x'] 1 ['y'] .zero 0 1000 .clean none,
      .make sIFREG 1 ['x'] 0x1A4#16 ⟨0, 0, 0⟩ 11 2 none]

/-- The version of the renaming. -/
def renamedVersion : CowVersion where
  timestamp := 1000
  opType := .rename
  shadowPath := []
  origName := ['x']
  savedStat := ⟨sIFREG ||| 0x1A4#16, 0, 0, 1⟩
  hasData := false
  node := 0

/-- The rollback of `y` takes the name `x` away from the file that has it. -/
theorem rollback_frame_broken :
    chosen smallEnv reusedNameState ['/', 'm', '/', 'y'] 0 (.clean ⟨0, 0, 0⟩ 12 3000) =
        .ok (.found ⟨1, ['y'], 4⟩ renamedVersion) ∧
      (reusedNameState.lower.inodes 5).isSome ∧
      ¬ Untouched reusedNameState.lower
        (ioctlRollback smallEnv reusedNameState ['/', 'm', '/', 'y'] 0
          (.clean ⟨0, 0, 0⟩ 12 3000)).2.lower 5 := by
  refine ⟨by decide +kernel, by decide +kernel, fun h => ?_⟩
  have hbefore : reusedNameState.lower.entries 1 ['x'] = some 5 := by decide +kernel
  have hafter : (ioctlRollback smallEnv reusedNameState ['/', 'm', '/', 'y'] 0
      (.clean ⟨0, 0, 0⟩ 12 3000)).2.lower.entries 1 ['x'] = some 4 := by decide +kernel
  have hkept := h.names 1 ['x'] hbefore
  rw [hafter] at hkept
  exact absurd hkept (by decide)

/-- The removed file of `unlinkedState` comes back next to the others. -/
theorem rollback_frame_unlinked :
    (∀ g, (unlinkedState.lower.inodes g).isSome →
        (Choice.deleted 1 ['x'] unlinkedVersion).file ≠ some g →
        Untouched unlinkedState.lower
          (ioctlRollback smallEnv unlinkedState ['/', 'm', '/', 'x'] 0
            (.clean ⟨0, 0, 0⟩ 11 3000)).2.lower g) ↔
      ¬ Replaces unlinkedState (.clean ⟨0, 0, 0⟩ 11 3000)
        (.deleted 1 ['x'] unlinkedVersion) :=
  rollback_frame_iff smallEnv unlinkedState ['/', 'm', '/', 'x'] 0 (.clean ⟨0, 0, 0⟩ 11 3000)
    (.deleted 1 ['x'] unlinkedVersion) (by decide +kernel)

end Cowfs
