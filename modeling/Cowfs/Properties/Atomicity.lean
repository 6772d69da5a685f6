import Cowfs.Properties.FaithfulCopy
import Cowfs.Properties.Rollback

/-!
# Rollbacks that stop half way

A rollback is all or nothing when the chosen version is in effect afterwards or the lower tree
is what it was.  Renaming and changing attributes are single calls and always are.  The other
two ways to act first change the tree and then fill a file: `recreate` makes a name, and
`cowfs_shadow_restore_file` truncates the target.  Nothing is undone when a later call fails.

`Safe` says which results of the kernel's calls leave no half-done work: the change before the
copy is not reached, or the copy is whole.  What remains is a coincidence: the file may already
have held, at that very reading of the clock, the bytes the failing copy delivers.
-/

namespace Cowfs

variable {env : Env} {s : State} {l : Lower} {st : Store}

/-! ## Changes that change nothing -/

lemma modify_eq_self_iff {f : Fid} {g : Inode → Inode} :
    l.modify f g = l ↔ ∀ i, l.inodes f = some i → g i = i := by
  constructor
  · intro h i hi
    have hf := congrArg (fun l => Lower.inodes l f) h
    simpa [hi] using hf
  · intro h
    have hmap : (l.inodes f).map g = l.inodes f := by
      cases hi : l.inodes f with
      | none => rfl
      | some i => rw [Option.map_some, h i hi]
    obtain ⟨inodes, entries, next, fresh, linked⟩ := l
    simp only [Lower.modify, Lower.mk.injEq, and_true]
    rw [hmap, Function.update_eq_self]

lemma modify_modify (f : Fid) (g h : Inode → Inode) :
    (l.modify f g).modify f h = l.modify f fun i => h (g i) := by
  obtain ⟨inodes, entries, next, fresh, linked⟩ := l
  simp only [Lower.modify, Lower.mk.injEq, and_true, Function.update_self, Function.update_idem,
    Option.map_map]
  rfl

/-- `f` holds `data` and was last changed at time `now`. -/
def Stays (l : Lower) (f : Fid) (data : Content) (now : ℕ) : Prop :=
  ∀ i, l.inodes f = some i → i.data = data ∧ i.mtime = now

lemma setData_eq_self_iff {f : Fid} {data : Content} {now : ℕ} :
    l.setData f data now = l ↔ Stays l f data now := by
  rw [Lower.setData, modify_eq_self_iff]
  refine forall_congr' fun i => imp_congr_right fun _ => ?_
  obtain ⟨ino, mode, uid, gid, mtime, content⟩ := i
  simp only [Inode.mk.injEq, true_and]
  constructor
  · rintro ⟨ht, hd⟩
    exact ⟨hd.symm, ht.symm⟩
  · rintro ⟨hd, ht⟩
    exact ⟨ht.symm, hd.symm⟩

/-- Replacing the content and then asking for the saved attributes. -/
lemma notify_setData_eq_self_iff {f : Fid} {data : Content} {now : ℕ} {v : CowVersion}
    (hf : (l.inodes f).isSome) :
    (notifyChange (l.setData f data now) f (savedAttr v) now none).2 = l ↔
      Stays l f data now ∧ SameAttrs l f v := by
  obtain ⟨i, hi⟩ := Option.isSome_iff_exists.1 hf
  simp only [notifyChange, Lower.setData]
  rw [modify_modify, modify_eq_self_iff]
  unfold Stays SameAttrs
  simp only [hi, Option.some.injEq, forall_eq', Lower.getattr, Option.map_some, Option.getD_some]
  obtain ⟨ino, mode, uid, gid, mtime, content⟩ := i
  simp only [setattrInode, savedAttr, Iattr.zero, notifyMode, Inode.mk.injEq, true_and,
    Option.getD_some, Option.getD_none, Option.map_none, Option.isSome_none,
    Bool.false_eq_true, if_false]
  constructor
  · rintro ⟨hm, hu, hg, ht, hd⟩
    exact ⟨⟨hd.symm, ht.symm⟩, hm.symm, hu.symm, hg.symm⟩
  · rintro ⟨⟨hd, ht⟩, hm, hu, hg⟩
    exact ⟨hm.symm, hu.symm, hg.symm, ht.symm, hd.symm⟩

/-! ## What reaches the target -/

/-- From the truncation on the calls of a copy of `c` leave `data` in the target. -/
def Delivers (φ : CopyFaults) (c data : Content) : Prop :=
  if φ.kmalloc then data = [] else ∃ err, Transfers φ.io c 0 0 data err

/-- From the truncation on no call fails. -/
def Succeeds (φ : CopyFaults) (c : Content) : Prop := φ.kmalloc = false ∧ Ends φ.io c

lemma restore_delivers {path : CStr} {φ : CopyFaults} {c : Content}
    (h : Opens env st path φ c) (l : Lower) (f : Fid) (now : ℕ) :
    ∃ d, (∀ data, Delivers φ c data ↔ data = d) ∧
      (shadowRestoreFile env st l path f now φ).2 = l.setData f d now ∧
      ((shadowRestoreFile env st l path f now φ).1 = none ↔ Succeeds φ c) := by
  rw [restore_of_opens h]
  unfold Delivers Succeeds
  cases hk : φ.kmalloc with
  | true => exact ⟨[], by simp, rfl, by simp⟩
  | false =>
    simp only [Bool.false_eq_true, if_false, true_and]
    refine ⟨(copyAll φ.io c).2, fun data => ⟨?_, ?_⟩, rfl, copyAll_success_iff⟩
    · rintro ⟨err, htrans⟩
      rw [copyAll_iff_transfers.2 htrans]
    · rintro rfl
      exact ⟨(copyAll φ.io c).1, copyAll_iff_transfers.1 rfl⟩

/-! ## All or nothing -/

/-- The chosen version is in effect after the request, or the lower tree is what it was. -/
def AllOrNothing (env : Env) (s : State) (path : CStr) (timestamp : UInt64)
    (φ : RollbackFaults) : Prop :=
  (∃ choice, chosen env s path timestamp φ = .ok choice ∧
      InEffect env s.store (ioctlRollback env s path timestamp φ).2.lower choice) ∨
    (ioctlRollback env s path timestamp φ).2.lower = s.lower

/-- The name is not made, or what is copied into the new file is whole. -/
def SafeRecreate (env : Env) (s : State) (dir : Fid) (name : CStr) (v : CowVersion)
    (φ : RollbackFaults) : Prop :=
  φ.lookup = none → s.lower.entries dir name = none → φ.create = none →
    Filled env s.store v φ.restore

/-- The calls leave in the file at `p` the bytes it held at this clock reading. -/
def Unmoved (s : State) (p : Place) (c : Content) (φ : RollbackFaults) : Prop :=
  ∃ data, Delivers φ.restore c data ∧ Stays s.lower p.file data φ.now

/-- The attributes are changed: the copy is reported to have succeeded and so is the change. -/
def Notified (c : Content) (φ : RollbackFaults) : Prop :=
  Succeeds φ.restore c ∧ φ.notify = none

/-- The results under which restoring `c` into the truncated file at `p` is not half-done. -/
def SafeFill (s : State) (p : Place) (v : CowVersion) (c : Content) (φ : RollbackFaults) :
    Prop :=
  match v.opType with
  | .setattr =>
    Delivers φ.restore c c ∧ (SameAttrs s.lower p.file v ∨ Notified c φ) ∨
      Unmoved s p c φ ∧ (SameAttrs s.lower p.file v ∨ ¬ Notified c φ)
  | .rename => s.lower.entries p.dir v.origName = some p.file ∨ Unmoved s p c φ
  | _ => Delivers φ.restore c c ∨ Unmoved s p c φ

/-- The results under which acting on a choice is all or nothing. -/
def Safe (env : Env) (s : State) (φ : RollbackFaults) : Choice → Prop
  | .deleted dir base v => SafeRecreate env s dir base v φ
  | .found p v =>
    if v.opType = .unlink then SafeRecreate env s p.dir v.origName v φ
    else
      v.hasData = true → ∀ c, Opens env s.store v.shadowPath φ.restore c → SafeFill s p v c φ

/-- `recreate` makes the file whole, or makes no name. -/
lemma recreate_atomic_iff {dir : Fid} {name : CStr} {v : CowVersion} {φ : RollbackFaults} :
    (Undeleted env s.store (recreate env s dir name v φ).2 dir name v ∨
        (recreate env s dir name v φ).2 = s.lower) ↔
      (s.lower.entries dir name = none → φ.create = none → Filled env s.store v φ.restore) := by
  by_cases hok : (recreate env s dir name v φ).1 = none
  · obtain ⟨hent, hcreate, htree⟩ := recreate_success hok
    have hnew : (recreate env s dir name v φ).2 ≠ s.lower := by
      intro he
      have hentry : (recreate env s dir name v φ).2.entries dir name = some s.lower.next := by
        rw [htree]
        split
        · rw [restore_entries, withNewFile, Lower.addNode_entries, if_pos ⟨rfl, rfl⟩]
        · rw [withNewFile, Lower.addNode_entries, if_pos ⟨rfl, rfl⟩]
      rw [he, hent] at hentry
      cases hentry
    rw [or_iff_left hnew, undeleted_recreate hok]
    exact ⟨fun h _ _ => h, fun h => h hent hcreate⟩
  · refine iff_of_true (.inr (recreate_failure hok)) fun hent hcreate => absurd ?_ hok
    unfold recreate vfsCreate vfsMake
    simp only [hent, hcreate, Option.isSome_none, Bool.false_eq_true, if_false]

lemma dataRestored_setData {f : Fid} {c d : Content} {now : ℕ} {v : CowVersion}
    (hf : (l.inodes f).isSome) (hd : v.hasData = true)
    (hc : st.shadowAt env v.shadowPath = some c) :
    DataRestored env st (l.setData f d now) v f ↔ d = c := by
  unfold DataRestored
  rw [Lower.setData_content hf]
  simp only [hd, hc, forall_const, Option.some.injEq, exists_eq_left', eq_comm]

lemma sameAttrs_setData {f : Fid} {d : Content} {now : ℕ} {v : CowVersion} :
    SameAttrs (l.setData f d now) f v ↔ SameAttrs l f v := by
  obtain ⟨hm, hu, hg⟩ := setData_getattr l f d now f
  unfold SameAttrs
  rw [hm, hu, hg]

/-- The branch of a version with data that is not an unlink, once the target is truncated. -/
lemma fill_atomic_iff {p : Place} {v : CowVersion} {c : Content} {φ : RollbackFaults}
    (hp : (s.lower.inodes p.file).isSome) (hu : v.opType ≠ .unlink) (hd : v.hasData = true)
    (ho : Opens env s.store v.shadowPath φ.restore c) :
    (InEffect env s.store (rollbackVersion env s p v φ).2.lower (.found p v) ∨
        (rollbackVersion env s p v φ).2.lower = s.lower) ↔ SafeFill s p v c φ := by
  have hdispatch := rollbackDispatch_data env s p φ hu hd
  obtain ⟨d, hdelivers, htree, hsucceeds⟩ := restore_delivers ho s.lower p.file φ.now
  have hdata : DataRestored env s.store (s.lower.setData p.file d φ.now) v p.file ↔ _ :=
    dataRestored_setData hp hd ho.source
  have hwhole : Delivers φ.restore c c ↔ d = c := by rw [hdelivers, eq_comm]
  have hunmoved : Unmoved s p c φ ↔ Stays s.lower p.file d φ.now := by
    unfold Unmoved
    simp only [hdelivers, exists_eq_left]
  rw [rollbackVersion_lower, hdispatch, htree]
  cases hop : v.opType with
  | unlink => exact absurd hop hu
  | write =>
    simp only [InEffect, SafeFill, hop, reduceCtorEq, and_false, if_false]
    rw [hdata, setData_eq_self_iff, hunmoved, hwhole]
  | rename =>
    simp only [InEffect, SafeFill, hop, reduceCtorEq, and_false, if_false]
    rw [setData_eq_self_iff, hunmoved]
    exact Iff.rfl
  | setattr =>
    simp only [InEffect, SafeFill, hop, and_true]
    rw [hunmoved, hwhole]
    by_cases hsucc : Succeeds φ.restore c
    · rw [if_pos (hsucceeds.2 hsucc)]
      rcases hnotify : φ.notify with _ | e
      · have hnotified : Notified c φ := ⟨hsucc, hnotify⟩
        have hsome : ((s.lower.setData p.file d φ.now).inodes p.file).isSome := by
          simpa [Lower.setData] using hp
        have hattrs : SameAttrs (notifyChange (s.lower.setData p.file d φ.now) p.file
            (savedAttr v) φ.now none).2 p.file v := (sameAttrs_notify hsome).2 (.inl rfl)
        have hcontent : DataRestored env s.store (notifyChange (s.lower.setData p.file d φ.now)
            p.file (savedAttr v) φ.now none).2 v p.file ↔ d = c := by
          rw [← hdata]
          unfold DataRestored
          rw [content_notify]
        rw [hcontent, notify_setData_eq_self_iff hp]
        simp only [hattrs, hnotified, and_true, or_true, not_true_eq_false, or_false]
      · have hnotified : ¬ Notified c φ := by
          rintro ⟨-, h⟩
          rw [hnotify] at h
          cases h
        simp only [notifyChange, hnotified, or_false, not_false_eq_true, or_true, and_true]
        rw [hdata, sameAttrs_setData, setData_eq_self_iff]
    · have hnotified : ¬ Notified c φ := fun h => hsucc h.1
      rw [if_neg (mt hsucceeds.1 hsucc), hdata, sameAttrs_setData, setData_eq_self_iff]
      simp only [hnotified, or_false, not_false_eq_true, or_true, and_true]

/-- A version without data that is not an unlink is put into effect by one call. -/
lemma noFill_atomic {p : Place} {v : CowVersion} {φ : RollbackFaults}
    (hp : s.lower.entries p.dir p.name = some p.file) (hu : v.opType ≠ .unlink)
    (hd : v.hasData = false) :
    InEffect env s.store (rollbackVersion env s p v φ).2.lower (.found p v) ∨
      (rollbackVersion env s p v φ).2.lower = s.lower := by
  have hdispatch := rollbackDispatch_nodata env s p φ hu hd
  have hdata : ∀ l, DataRestored env s.store l v p.file := by
    intro l h
    rw [hd] at h
    cases h
  rw [rollbackVersion_lower, hdispatch]
  cases hop : v.opType with
  | unlink => exact absurd hop hu
  | write =>
    right
    simp only [reduceCtorEq, and_false, if_false]
  | rename =>
    simp only [InEffect, hop, reduceCtorEq, and_false, if_false, if_true]
    unfold rollbackRename
    rcases φ.lookup with _ | e
    · dsimp only
      rcases herr : (vfsRename s.lower p.dir p.name p.dir v.origName RenameFlags.zero φ.ino
        φ.now φ.rename).1 with _ | e
      · exact .inl (vfsRename_plain hp herr).1
      · exact .inr (vfsRename_failure (by rw [herr]; simp))
    · exact .inr rfl
  | setattr =>
    simp only [InEffect, hop, reduceCtorEq, and_true, if_true, if_false]
    rcases φ.notify with _ | e
    · exact .inl ⟨hdata _, (sameAttrs_notify (s.lower.linked _ _ _ hp)).2 (.inl rfl)⟩
    · exact .inr rfl

/-- The branch of a `COW_OP_UNLINK` version. -/
lemma unlink_atomic_iff {p : Place} {v : CowVersion} {φ : RollbackFaults}
    (hu : v.opType = .unlink) :
    (InEffect env s.store (rollbackVersion env s p v φ).2.lower (.found p v) ∨
        (rollbackVersion env s p v φ).2.lower = s.lower) ↔
      SafeRecreate env s p.dir v.origName v φ := by
  have hdispatch := rollbackDispatch_unlink env s p φ hu
  rw [rollbackVersion_lower, hdispatch, rollbackUnlink_eq]
  simp only [InEffect, hu, reduceCtorEq, and_false, if_false]
  unfold SafeRecreate
  rcases φ.lookup with _ | e
  · simp only [forall_const]
    exact recreate_atomic_iff
  · simp only [or_true, reduceCtorEq, IsEmpty.forall_iff]

/-- The branches of the other versions. -/
lemma found_atomic_iff {p : Place} {v : CowVersion} {φ : RollbackFaults}
    (hp : s.lower.entries p.dir p.name = some p.file) (hu : v.opType ≠ .unlink) :
    (InEffect env s.store (rollbackVersion env s p v φ).2.lower (.found p v) ∨
        (rollbackVersion env s p v φ).2.lower = s.lower) ↔
      (v.hasData = true → ∀ c, Opens env s.store v.shadowPath φ.restore c →
        SafeFill s p v c φ) := by
  by_cases hd : v.hasData = true
  · by_cases ho : ∃ c, Opens env s.store v.shadowPath φ.restore c
    · obtain ⟨c, ho⟩ := ho
      rw [fill_atomic_iff (s.lower.linked _ _ _ hp) hu hd ho]
      refine ⟨fun h _ c' ho' => ?_, fun h => h hd c ho⟩
      obtain rfl := Option.some.inj (ho.source.symm.trans ho'.source)
      exact h
    · push Not at ho
      obtain ⟨e, he⟩ := restore_of_not_opens ho s.lower p.file φ.now
      refine iff_of_true (.inr ?_) fun _ c hc => absurd hc (ho c)
      rw [rollbackVersion_lower, rollbackDispatch_data env s p φ hu hd, he]
      simp only [reduceCtorEq, false_and, if_false]
  · exact iff_of_true (noFill_atomic hp hu (by simpa using hd)) fun h => absurd h hd

/-- **When a rollback is all or nothing.**  For every state, every request and all results of
the kernel's calls: the chosen version is in effect afterwards or the lower tree is what it was,
if and only if the results leave no half-done work on the choice. -/
theorem all_or_nothing_iff (env : Env) (s : State) (path : CStr) (timestamp : UInt64)
    (φ : RollbackFaults) :
    AllOrNothing env s path timestamp φ ↔
      ∀ choice, chosen env s path timestamp φ = .ok choice → Safe env s φ choice := by
  unfold AllOrNothing
  rw [ioctlRollback_eq]
  cases hchosen : chosen env s path timestamp φ with
  | error e => exact iff_of_true (.inr rfl) fun choice h => by cases h
  | ok choice =>
    simp only [Except.ok.injEq, exists_eq_left', forall_eq']
    cases choice with
    | deleted dir base v =>
      simp only [InEffect, Safe, SafeRecreate, act]
      rcases φ.lookup with _ | e
      · simp only [forall_const]
        exact recreate_atomic_iff
      · simp only [or_true, reduceCtorEq, IsEmpty.forall_iff]
    | found p v =>
      simp only [Safe, act]
      by_cases hu : v.opType = .unlink
      · rw [if_pos hu]
        exact unlink_atomic_iff hu
      · rw [if_neg hu]
        exact found_atomic_iff (chosen_entry hchosen) hu

/-! ## A buffer that cannot be allocated -/

/-- The file `x` was made and written through two descriptors; the second write was saved with
the content `[1, 2]`. -/
def rewrittenState : State :=
  run (step smallEnv) (State.init smallTree fun _ => none)
    [.mount ['/', 'l'] none none, .make sIFREG 1 ['x'] 0x1A4#16 ⟨0, 0, 0⟩ 10 1 none,
      .open 0 4 true none, .write 0 0 [1, 2] 1000 .clean none, .open 1 4 true none,
      .write 1 0 [7] 2000 .clean none]

/-- No call fails but the allocation of the buffer. -/
def unbuffered : RollbackFaults :=
  { RollbackFaults.clean ⟨0, 0, 0⟩ 11 3000 with
    restore := { CopyFaults.clean with kmalloc := true } }

/-- The request fails with `-ENOMEM`, and the file is empty: neither what it held nor what the
version saved. -/
theorem rollback_half_done :
    (ioctlRollback smallEnv rewrittenState ['/', 'm', '/', 'x'] 2000 unbuffered).1 =
        some .enomem ∧
      rewrittenState.lower.content 4 = [7, 2] ∧
      (ioctlRollback smallEnv rewrittenState ['/', 'm', '/', 'x'] 2000
        unbuffered).2.lower.content 4 = [] ∧
      ¬ AllOrNothing smallEnv rewrittenState ['/', 'm', '/', 'x'] 2000 unbuffered := by
  have hbefore : rewrittenState.lower.content 4 = [7, 2] := by decide +kernel
  have hafter : (ioctlRollback smallEnv rewrittenState ['/', 'm', '/', 'x'] 2000
      unbuffered).2.lower.content 4 = [] := by decide +kernel
  refine ⟨by decide +kernel, hbefore, hafter, ?_⟩
  rintro (⟨choice, hchoice, heffect⟩ | hsame)
  · have hchosen : chosen smallEnv rewrittenState ['/', 'm', '/', 'x'] 2000 unbuffered =
        .ok (.found ⟨1, ['x'], 4⟩
          ⟨2000, .write, ['/', 'l', '/'] ++ shadowDir ++ '/' :: decimalPair 10 2000, [],
            ⟨sIFREG ||| 0x1A4#16, 0, 0, 1000⟩, true, 1⟩) := by decide +kernel
    have hshadow : rewrittenState.store.shadowAt smallEnv
        (['/', 'l', '/'] ++ shadowDir ++ '/' :: decimalPair 10 2000) = some [1, 2] := by
      decide +kernel
    obtain rfl := Except.ok.inj (hchosen.symm.trans hchoice)
    obtain ⟨c, hc, hcontent⟩ := heffect rfl
    obtain rfl := Option.some.inj (hshadow.symm.trans hc)
    rw [hafter] at hcontent
    cases hcontent
  · rw [hsame, hbefore] at hafter
    cases hafter

end Cowfs
