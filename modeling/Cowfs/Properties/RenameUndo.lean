import Cowfs.Properties.Rollback

/-!
# Undoing a rename

A `COW_OP_RENAME` version keeps the old name of the file and not the directory it was in, and
its rollback moves the file to that name inside the directory it is found in.  So a rename
followed by the rollback of its version is an inverse only in part: `rename_rollback_iff` says
for which renames every directory entry is as before.  A move to another directory is not among
them, and neither is a rename over an existing target or an exchange.
-/

namespace Cowfs

open KeyedLog

variable {env : Env} {s : State} {l l₁ l₂ : Lower}

/-! ## Entries -/

/-- The entries of `l₁` are those of `l`, but `f` has gone from `(d₁, n₁)` to `(d₂, n₂)`. -/
structure MovedTo (l l₁ : Lower) (d₁ : Fid) (n₁ : CStr) (d₂ : Fid) (n₂ : CStr) (f : Fid) :
    Prop where
  target : l₁.entries d₂ n₂ = some f
  source : l₁.entries d₁ n₁ ≠ some f
  other : ∀ d n, ¬ (d = d₂ ∧ n = n₂) → ¬ (d = d₁ ∧ n = n₁) → l₁.entries d n = l.entries d n
  inode : l₁.inodes f = l.inodes f

/-- A rename that returns 0 moves the file, unless the target is another link of it. -/
lemma vfsRename_movedTo {d₁ d₂ : Fid} {n₁ n₂ : CStr} {flags : RenameFlags} {ino : UInt64}
    {now : ℕ} {err : Status} {f : Fid} (hf : l.entries d₁ n₁ = some f)
    (h : (vfsRename l d₁ n₁ d₂ n₂ flags ino now err).1 = none) :
    (l.entries d₂ n₂ = some f ∧ (vfsRename l d₁ n₁ d₂ n₂ flags ino now err).2 = l) ∨
      (l.entries d₂ n₂ ≠ some f ∧
        MovedTo l (vfsRename l d₁ n₁ d₂ n₂ flags ino now err).2 d₁ n₁ d₂ n₂ f) := by
  have hcases := vfsRename_cases l d₁ n₁ d₂ n₂ flags ino now err
  generalize (vfsRename l d₁ n₁ d₂ n₂ flags ino now err).1 = r at hcases h
  generalize (vfsRename l d₁ n₁ d₂ n₂ flags ino now err).2 = l₁ at hcases ⊢
  -- where the target is not `f`, source and target are different places
  have hapart : l.entries d₂ n₂ ≠ some f → ¬ (d₁ = d₂ ∧ n₁ = n₂) := by
    rintro hne ⟨rfl, rfl⟩
    exact hne hf
  cases hcases with
  | refused => cases h
  | @linked f' h₁ h₂ =>
    obtain rfl : f = f' := Option.some.inj (hf.symm.trans h₁)
    exact .inl ⟨h₂, rfl⟩
  | @exchanged f' g h₁ h₂ hne hflag herr =>
    obtain rfl : f = f' := Option.some.inj (hf.symm.trans h₁)
    have htarget : l.entries d₂ n₂ ≠ some f := by
      rw [h₂]
      exact fun he => hne (Option.some.inj he)
    refine .inr ⟨htarget, ?_, ?_, ?_, rfl⟩
    · simp [Lower.swapEntries, Lower.setEntry_entries]
    · simp [Lower.swapEntries, Lower.setEntry_entries, hapart htarget, hne]
    · intro d n h2 h1
      simp [Lower.swapEntries, Lower.setEntry_entries, h1, h2]
  | @moved f' h₁ hne hok hflag hwhite herr =>
    obtain rfl : f = f' := Option.some.inj (hf.symm.trans h₁)
    refine .inr ⟨hne, ?_, ?_, ?_, rfl⟩
    · simp [Lower.moveEntry_entries]
    · simp [Lower.moveEntry_entries, hapart hne]
    · intro d n h2 h1
      rw [Lower.moveEntry_entries, if_neg h2, if_neg h1]
  | @whitened f' h₁ hne hok hflag hwhite herr =>
    obtain rfl : f = f' := Option.some.inj (hf.symm.trans h₁)
    have hsome := l.linked _ _ _ h₁
    have hold : f ≠ l.next := Lower.ne_next_of_isSome hsome
    refine .inr ⟨hne, ?_, ?_, ?_, ?_⟩
    · have hplace : ¬ (d₂ = d₁ ∧ n₂ = n₁) := fun he => hapart hne ⟨he.1.symm, he.2.symm⟩
      rw [Lower.addNode_entries, if_neg hplace, Lower.moveEntry_entries, if_pos ⟨rfl, rfl⟩]
    · rw [Lower.addNode_entries, if_pos ⟨rfl, rfl⟩]
      exact fun he => hold (Option.some.inj he).symm
    · intro d n h2 h1
      rw [Lower.addNode_entries, if_neg h1, Lower.moveEntry_entries, if_neg h2, if_neg h1]
    · exact Lower.addNode_inodes_of_ne hold d₁ n₁ _

/-- After a rename that returns 0 the file, unchanged, is at the target. -/
lemma vfsRename_target {d₁ d₂ : Fid} {n₁ n₂ : CStr} {flags : RenameFlags} {ino : UInt64}
    {now : ℕ} {err : Status} {f : Fid} (hf : l.entries d₁ n₁ = some f)
    (h : vfsRename l d₁ n₁ d₂ n₂ flags ino now err = (none, l₁)) :
    l₁.entries d₂ n₂ = some f ∧ l₁.inodes f = l.inodes f := by
  have hmoved := vfsRename_movedTo hf (by rw [h])
  rw [h] at hmoved
  rcases hmoved with ⟨hlink, rfl⟩ | ⟨-, hmoved⟩
  · exact ⟨hlink, rfl⟩
  · exact ⟨hmoved.target, hmoved.inode⟩

/-- Moving on to `(d₂, n)` brings every entry back exactly when `(d₂, n)` is where the file came
from and nothing was at `(d₂, n₂)`. -/
lemma movedTo_twice {d₁ d₂ : Fid} {n₁ n₂ n : CStr} {f : Fid} (hf : l.entries d₁ n₁ = some f)
    (h₁ : MovedTo l l₁ d₁ n₁ d₂ n₂ f) (hne : l₁.entries d₂ n ≠ some f)
    (h₂ : MovedTo l₁ l₂ d₂ n₂ d₂ n f) (hgone : l₂.entries d₂ n₂ = none) :
    (∀ d m, l₂.entries d m = l.entries d m) ↔
      d₁ = d₂ ∧ n = n₁ ∧ l.entries d₂ n₂ = none := by
  constructor
  · intro hback
    have hplace : d₁ = d₂ ∧ n₁ = n := by
      by_contra hplace
      have hsource : ¬ (d₁ = d₂ ∧ n₁ = n₂) := by
        rintro ⟨rfl, rfl⟩
        exact h₁.source h₁.target
      have := h₂.other d₁ n₁ hplace hsource
      rw [hback, hf] at this
      exact h₁.source this.symm
    exact ⟨hplace.1, hplace.2.symm, by rw [← hback, hgone]⟩
  · rintro ⟨rfl, rfl, hfree⟩ d m
    by_cases ht : d = d₁ ∧ m = n
    · obtain ⟨rfl, rfl⟩ := ht
      rw [h₂.target, hf]
    by_cases hs : d = d₁ ∧ m = n₂
    · obtain ⟨rfl, rfl⟩ := hs
      rw [hgone, hfree]
    · rw [h₂.other d m ht hs, h₁.other d m hs ht]

/-- Without a flag nothing stays behind. -/
lemma vfsRename_gone {d₁ d₂ : Fid} {n₁ n₂ : CStr} {ino : UInt64} {now : ℕ} {err : Status}
    {f : Fid} (hf : l.entries d₁ n₁ = some f) (hne : l.entries d₂ n₂ ≠ some f)
    (h : (vfsRename l d₁ n₁ d₂ n₂ RenameFlags.zero ino now err).1 = none) :
    (vfsRename l d₁ n₁ d₂ n₂ RenameFlags.zero ino now err).2.entries d₁ n₁ = none := by
  have hcases := vfsRename_cases l d₁ n₁ d₂ n₂ RenameFlags.zero ino now err
  generalize (vfsRename l d₁ n₁ d₂ n₂ RenameFlags.zero ino now err).1 = r at hcases h
  generalize (vfsRename l d₁ n₁ d₂ n₂ RenameFlags.zero ino now err).2 = l₁ at hcases ⊢
  cases hcases with
  | refused => cases h
  | @linked f' h₁ h₂ =>
    obtain rfl : f = f' := Option.some.inj (hf.symm.trans h₁)
    exact absurd h₂ hne
  | exchanged _ _ _ hflag _ => cases hflag
  | whitened _ _ _ _ hwhite _ => cases hwhite
  | moved h₁ =>
    have hplace : ¬ (d₁ = d₂ ∧ n₁ = n₂) := by
      rintro ⟨rfl, rfl⟩
      exact hne hf
    rw [Lower.moveEntry_entries, if_neg hplace, if_pos ⟨rfl, rfl⟩]

/-- The renames the move back to the name `n` in the directory of the target undoes: those to a
free name in one directory, when `n` is the old name; and, as nothing moves at all, those
between links of one file of which `n` is a third. -/
def Invertible (l : Lower) (d₁ : Fid) (n₁ : CStr) (d₂ : Fid) (n₂ n : CStr) (f : Fid) : Prop :=
  (d₁ = d₂ ∧ n = n₁ ∧ l.entries d₂ n₂ = none) ∨
    (l.entries d₂ n₂ = some f ∧ l.entries d₂ n = some f)

/-- A rename and the move back, on the entries. -/
lemma rename_back_iff {d₁ d₂ : Fid} {n₁ n₂ n : CStr} {flags : RenameFlags} {ino ino' : UInt64}
    {now now' : ℕ} {err err' : Status} {f : Fid} (hf : l.entries d₁ n₁ = some f)
    (h₁ : vfsRename l d₁ n₁ d₂ n₂ flags ino now err = (none, l₁))
    (h₂ : vfsRename l₁ d₂ n₂ d₂ n RenameFlags.zero ino' now' err' = (none, l₂)) :
    (∀ d m, l₂.entries d m = l.entries d m) ↔ Invertible l d₁ n₁ d₂ n₂ n f := by
  have hfst₁ : (vfsRename l d₁ n₁ d₂ n₂ flags ino now err).1 = none := by rw [h₁]
  have hfst₂ : (vfsRename l₁ d₂ n₂ d₂ n RenameFlags.zero ino' now' err').1 = none := by rw [h₂]
  have hfirst := vfsRename_movedTo hf hfst₁
  rw [h₁] at hfirst
  have htarget := (vfsRename_target hf h₁).1
  have hsecond := vfsRename_movedTo htarget hfst₂
  have hgone := fun hne => vfsRename_gone htarget hne hfst₂
  rw [h₂] at hsecond hgone
  unfold Invertible
  rcases hfirst with ⟨hlink, hsame⟩ | ⟨hnlink, hmoved⟩
  · -- source and target were links of one file
    dsimp only at hsame
    subst l₁
    have hfull : ¬ (d₁ = d₂ ∧ n = n₁ ∧ l.entries d₂ n₂ = none) := by
      rintro ⟨-, -, hnone⟩
      rw [hlink] at hnone
      cases hnone
    rcases hsecond with ⟨hthird, hsame⟩ | ⟨hnthird, hmoved⟩
    · dsimp only at hsame
      subst l₂
      exact iff_of_true (fun _ _ => rfl) (.inr ⟨hlink, hthird⟩)
    · refine iff_of_false (fun hback => ?_) ?_
      · have := hback d₂ n₂
        rw [hgone hnthird, hlink] at this
        cases this
      · rintro (h | h)
        · exact hfull h
        · exact hnthird h.2
  · have hnolink : ¬ (l.entries d₂ n₂ = some f ∧ l.entries d₂ n = some f) :=
      fun h => hnlink h.1
    rw [or_iff_left hnolink]
    rcases hsecond with ⟨hthere, hsame⟩ | ⟨hnthere, hmoved'⟩
    · -- the name to go back to is already a link of the file, so nothing moves back
      dsimp only at hsame
      subst l₂
      refine iff_of_false (fun hback => ?_) ?_
      · exact hmoved.source ((hback d₁ n₁).trans hf)
      · rintro ⟨rfl, rfl, -⟩
        exact hmoved.source hthere
    · exact movedTo_twice hf hmoved hnthere hmoved' (hgone hnthere)

/-! ## The two calls -/

/-- The newest version of a number is found under its timestamp. -/
lemma versionFind_pushed {st : Store} {ino : UInt64} {v : CowVersion}
    {m : KeyedLog UInt64 CowVersion}
    (h : tableView env.hash st.table = push maxVersions ino v m) :
    versionFind env.hash st.table ino v.timestamp = some v := by
  rw [versionFind_eq, h, push_self, maxVersions, List.take_succ_cons]
  simp

/-- What a request does whose path leads to a file. -/
lemma ioctlRollback_found {path : CStr} {timestamp : UInt64} {φ : RollbackFaults} {p : Place}
    {v : CowVersion} (hpath : cowfsPath env s path φ.path = .ok p)
    (hfind : versionFind env.hash s.store.table (s.lower.inoOf p.file) timestamp = some v)
    (h : (ioctlRollback env s path timestamp φ).1 = none) :
    ioctlRollback env s path timestamp φ = rollbackVersion env s p v φ := by
  have hino := pathToLowerIno_of_place hpath
  unfold ioctlRollback at h ⊢
  split at h
  · cases h
  next hcopy =>
    rw [if_neg hcopy]
    simp only [hino, hfind] at h ⊢
    cases hp₂ : cowfsPath env s path φ.path₂ with
    | error e =>
      rw [hp₂] at h
      cases h
    | ok p₂ =>
      -- a second resolution of the path that succeeds agrees with the first
      rw [cowfsPath_unique hpath hp₂]

/-- The version a rename records. -/
lemma records_rename {d₁ d₂ : Fid} {n₁ n₂ : CStr} {flags : RenameFlags} {ino now i : UInt64}
    {φ : SnapFaults} {err : Status} {v : CowVersion} {f : Fid}
    (h : TableInv env.hash s.store.table)
    (hr : Records env s (.rename d₁ n₁ d₂ n₂ flags ino now φ err) i v f) :
    v.opType = .rename ∧ v.hasData = false ∧ v.origName = strscpy pathBufSize n₁ ∧
      s.lower.entries d₁ n₁ = some f ∧ s.lower.inoOf f = i := by
  obtain ⟨x, copied, hx, rfl, rfl, -, hcopied, rfl, -⟩ := hr.pushed h
  have hinode := (snapshotOf_spec hx).2.1
  simp only [snapshotOf, Option.bind_eq_bind, Option.bind_eq_some_iff] at hx
  obtain ⟨sbi, -, f, hf, j, hj, hx⟩ := hx
  cases hx
  have hnodata : copied = false := by
    cases copied with
    | false => rfl
    | true => exact absurd (hcopied rfl) (by simp [SnapKind.copies])
  exact ⟨rfl, hnodata, rfl, hf, inoOf_eq hj⟩

/-- What a rename that returns 0 does to the lower tree. -/
lemma cowfsRename_success {d₁ d₂ : Fid} {n₁ n₂ : CStr} {flags : RenameFlags}
    {ino now : UInt64} {φ : SnapFaults} {err : Status} {s₁ : State}
    (h : cowfsRename env s d₁ n₁ d₂ n₂ flags ino now φ err = (none, s₁)) :
    vfsRename s.lower d₁ n₁ d₂ n₂ flags ino now.toNat err = (none, s₁.lower) := by
  unfold cowfsRename at h
  split at h
  · obtain ⟨herr, rfl⟩ := Prod.mk.inj h
    exact Prod.ext herr rfl
  · cases h

/-- The rollback of a rename. -/
lemma rollbackVersion_rename {p : Place} {v : CowVersion} {φ : RollbackFaults} {s' : State}
    (hop : v.opType = .rename) (hd : v.hasData = false)
    (h : rollbackVersion env s p v φ = (none, s')) :
    vfsRename s.lower p.dir p.name p.dir v.origName RenameFlags.zero φ.ino φ.now φ.rename =
      (none, s'.lower) := by
  have hdispatch : rollbackDispatch env s p v φ = rollbackRename s p v φ := by
    rw [rollbackDispatch_nodata env s p φ (by simp [hop]) hd, if_pos hop]
  have hfst : (rollbackRename s p v φ).1 = none := by
    rw [← hdispatch, ← rollbackVersion_fst, h]
  have hlower : s'.lower = (rollbackRename s p v φ).2 := by
    have := rollbackVersion_lower env s p v φ
    rw [h, hdispatch, if_neg (by simp [hop])] at this
    exact this
  rw [hlower]
  unfold rollbackRename at hfst ⊢
  cases hlookup : φ.lookup with
  | some e =>
    rw [hlookup] at hfst
    cases hfst
  | none =>
    rw [hlookup] at hfst
    exact Prod.ext hfst rfl

/-- **When a rollback undoes a rename.**  A rename returned 0 and recorded `v`; the rollback of
`v` on the destination path returned 0.  Then every directory entry is as before exactly when
the rename was to a free name of the same directory and the old name is whole in `orig_name`,
or neither call moved anything, all names being links of one file. -/
theorem rename_rollback_iff (env : Env) {s : State} (hs : Reachable env s) {d₁ d₂ : Fid}
    {n₁ n₂ : CStr} {flags : RenameFlags} {ino now i : UInt64} {φ : SnapFaults} {err : Status}
    {v : CowVersion} {f g : Fid} {s₁ : State}
    (hrename : exec env s (.rename d₁ n₁ d₂ n₂ flags ino now φ err) = (none, s₁))
    (hrec : Records env s (.rename d₁ n₁ d₂ n₂ flags ino now φ err) i v f)
    {path : CStr} {φ' : RollbackFaults} {s₂ : State}
    (hpath : cowfsPath env s₁ path φ'.path = .ok ⟨d₂, n₂, g⟩)
    (hback : ioctlRollback env s₁ path v.timestamp φ' = (none, s₂)) :
    (∀ d n, s₂.lower.entries d n = s.lower.entries d n) ↔
      Invertible s.lower d₁ n₁ d₂ n₂ (strscpy pathBufSize n₁) f := by
  have hinv := hs.storeInv
  obtain ⟨hop, hd, hname, hf, hino⟩ := records_rename hinv.table hrec
  obtain ⟨x, copied, -, -, -, -, -, -, hpush⟩ := hrec.pushed hinv.table
  have hstep : step env s (.rename d₁ n₁ d₂ n₂ flags ino now φ err) = s₁ := by
    simp only [step, hrename]
  have hvfs : vfsRename s.lower d₁ n₁ d₂ n₂ flags ino now.toNat err = (none, s₁.lower) :=
    cowfsRename_success hrename
  obtain ⟨htarget, hinode⟩ := vfsRename_target hf hvfs
  have hsame : g = f := Option.some.inj ((cowfsPath_entry hpath).symm.trans htarget)
  have hino₁ : s₁.lower.inoOf f = i := by
    rw [Lower.inoOf, hinode]
    exact hino
  rw [hstep] at hpush
  have hfind : versionFind env.hash s₁.store.table (s₁.lower.inoOf g) v.timestamp = some v := by
    rw [hsame, hino₁]
    exact versionFind_pushed hpush
  have hversion := ioctlRollback_found hpath hfind (by rw [hback])
  rw [hback] at hversion
  have hundo := rollbackVersion_rename hop hd hversion.symm
  rw [hname] at hundo
  exact rename_back_iff hf hvfs hundo

/-! ## A move to another directory -/

/-- The file `a/x` was made. -/
def filedState : State :=
  run (step smallEnv) (State.init smallTree fun _ => none)
    [.mount ['/', 'l'] none none, .make sIFREG 2 ['x'] 0x1A4#16 ⟨0, 0, 0⟩ 10 1 none]

lemma filedState_reachable : Reachable smallEnv filedState := ⟨_, _, _, rfl⟩

/-- `rename("a/x", "b/x")` -/
def moveOut : Op := .rename 2 ['x'] 3 ['x'] .zero 0 1000 .clean none

/-- `rename("a/x", "a/y")` -/
def moveAside : Op := .rename 2 ['x'] 2 ['y'] .zero 0 1000 .clean none

/-- What either of them records. -/
def movedVersion : CowVersion where
  timestamp := 1000
  opType := .rename
  shadowPath := []
  origName := ['x']
  savedStat := ⟨sIFREG ||| 0x1A4#16, 0, 0, 1⟩
  hasData := false
  node := 0

/-- After the move to `b` the rollback is answered with 0 and `a/x` is not there again. -/
theorem rename_rollback_moved :
    (exec smallEnv filedState moveOut).1 = none ∧
      (exec smallEnv filedState moveOut).2.versions smallEnv 10 = [movedVersion] ∧
      (ioctlRollback smallEnv (exec smallEnv filedState moveOut).2
        ['/', 'm', '/', 'b', '/', 'x'] 1000 (.clean ⟨0, 0, 0⟩ 11 2000)).1 = none ∧
      filedState.lower.entries 2 ['x'] = some 4 ∧
      (ioctlRollback smallEnv (exec smallEnv filedState moveOut).2
        ['/', 'm', '/', 'b', '/', 'x'] 1000
        (.clean ⟨0, 0, 0⟩ 11 2000)).2.lower.entries 2 ['x'] = none := by
  decide +kernel

lemma moveAside_records : Records smallEnv filedState moveAside 10 movedVersion 4 := by
  refine ⟨⟨⟨.rename ['x'], 4, ⟨10, sIFREG ||| 0x1A4#16, 0, 0, 1, []⟩,
    ⟨1, ['/', 'l'], ['/', 'l', '/'] ++ shadowDir⟩, 1000, .clean⟩, rfl, rfl, rfl⟩, ?_, ?_⟩
  · decide +kernel
  · decide +kernel

/-- Within `a` the old name comes back. -/
theorem rename_rollback_aside :
    (ioctlRollback smallEnv (exec smallEnv filedState moveAside).2 ['/', 'm', '/', 'a', '/', 'y']
      1000 (.clean ⟨0, 0, 0⟩ 11 2000)).2.lower.entries = filedState.lower.entries := by
  funext d n
  exact (rename_rollback_iff smallEnv filedState_reachable (Prod.ext (by decide +kernel) rfl)
    moveAside_records (g := 4) (by decide +kernel) (Prod.ext (by decide +kernel) rfl)).2
    (.inl ⟨rfl, by decide, by decide +kernel⟩) d n

end Cowfs
