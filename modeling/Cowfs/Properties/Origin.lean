import Cowfs.Properties.TableRefinement
import Cowfs.Properties.RenameUndo
import Cowfs.Properties.TreeEffect

/-!
# Whose versions a path has

The table is global and keyed by the lower inode number.  A version knows the number it was
recorded under and not the file, so that a later file with that number, or one of another lower
file system, has the version for its own.  `OwnNumber` is the condition on a step that keeps this
from happening: a new file gets a number without versions, and a version is recorded only while no
other file there has the number.  Under it `origin_run` finds the file of every version that a
listing or a rollback reaches by a path.
-/

namespace Cowfs

open KeyedLog

variable {env : Env} {s s₀ : State} {op : Op} {past : List Op}

/-! ## Statement -/

/-- `f` is open. -/
def IsOpen (s : State) (f : Fid) : Prop := ∃ fd fi, s.fds fd = some fi ∧ fi.lowerFile = f

/-- Files are opened, changed and linked through a name or an open file. -/
def Op.OfThere (s : State) : Op → Prop
  | .open _ f _ _ => Alive (IsOpen s) s.lower f
  | .setattr f _ _ _ _ => Alive (IsOpen s) s.lower f
  | .link f _ _ _ => Linked s.lower f
  | _ => True

/-- What the VFS and the lower file system keep to; a whiteout does not get the number of the
file that was moved away. -/
structure Regular (s : State) (op : Op) : Prop where
  there : op.OfThere s
  whiteout : ∀ x ∈ snapshotOf s op, op.newIno ≠ some x.inode.ino

/-- The table has no version under the number of a new file, and no other file that has a name or
is open has the number a version is recorded under. -/
structure OwnNumber (env : Env) (s : State) (op : Op) : Prop where
  new : ∀ ino ∈ op.newIno, s.versions env ino = []
  alone : ∀ x ∈ snapshotOf s op, ∀ g, Alive (IsOpen s) s.lower g →
    s.lower.inoOf g = x.inode.ino → g = x.file

/-- `v` was recorded from `f` under the number `ino` at some step of the run. -/
def RecordedFrom (env : Env) (s₀ : State) (past : List Op) (ino : UInt64) (v : CowVersion)
    (f : Fid) : Prop :=
  Sometime (step env) (fun s op => Records env s op ino v f) s₀ past

/-! ## Open files -/

lemma isOpen_markSnapshot {fds : Fd → Option CowfsFileInfo} {fd fd' : Fd} {fi : CowfsFileInfo}
    (h : markSnapshot fds fd fd' = some fi) :
    ∃ fi', fds fd' = some fi' ∧ fi'.lowerFile = fi.lowerFile := by
  by_cases hfd : fd' = fd
  · subst hfd
    simp only [markSnapshot, Function.update_self] at h
    obtain ⟨fi', hfi', rfl⟩ := Option.map_eq_some_iff.1 h
    exact ⟨fi', hfi', rfl⟩
  · exact ⟨fi, by simpa [markSnapshot, hfd] using h, rfl⟩

/-- The calls on open files. -/
def Op.onOpen : Op → Bool
  | .umount => true
  | .open .. => true
  | .release .. => true
  | .write .. => true
  | .setattr .. => true
  | _ => false

lemma step_fds (hop : op.onOpen = false) : (step env s op).fds = s.fds := by
  cases op with
  | mount lowerdir err shadowErr =>
    simp only [step, exec, cowfsMount]
    repeat' split
    all_goals rfl
  | make type dir name mode cred ino now err =>
    simp only [step, exec, cowfsMake]
    split <;> rfl
  | link g dir name err =>
    simp only [step, exec, cowfsLink]
    split <;> rfl
  | rmdir dir name err =>
    simp only [step, exec, cowfsRmdir]
    split <;> rfl
  | unlink dir name now φ err =>
    simp only [step, exec, cowfsUnlink]
    split <;> rfl
  | rename d₁ n₁ d₂ n₂ flags ino now φ err =>
    simp only [step, exec, cowfsRename]
    split <;> rfl
  | rollback path timestamp φ =>
    obtain ⟨l, hl⟩ := ioctlRollback_frame env s path timestamp φ
    show (ioctlRollback env s path timestamp φ).2.fds = _
    rw [hl]
  | gc now windowSeconds fail => rw [step_gc]
  | _ => cases hop

/-- A write or a setattr may set the flag of one open file. -/
lemma step_fds_mark (hop : (∃ fd pos bytes now φ err, op = .write fd pos bytes now φ err) ∨
    ∃ f attr now φ err, op = .setattr f attr now φ err) :
    (step env s op).fds = s.fds ∨ ∃ fd, (step env s op).fds = markSnapshot s.fds fd := by
  rcases hop with ⟨fd, pos, bytes, now, φ, err, rfl⟩ | ⟨f, attr, now, φ, err, rfl⟩
  · simp only [step, exec, cowfsWrite]
    split
    · split
      · exact .inl rfl
      · split_ifs <;> first | exact .inl rfl | exact .inr ⟨fd, rfl⟩
    · exact .inl rfl
  · simp only [step, exec, cowfsSetattr]
    split
    · dsimp only
      split
      · exact .inr ⟨_, rfl⟩
      · exact .inl rfl
    · exact .inl rfl

/-- A file that is open was there before the step. -/
lemma isOpen_step (hop : op.OfThere s) {f : Fid} (h : IsOpen (step env s op) f) :
    Alive (IsOpen s) s.lower f := by
  obtain ⟨fd', fi, hfi, rfl⟩ := h
  have hmark : (step env s op).fds = s.fds ∨
      (∃ fd, (step env s op).fds = markSnapshot s.fds fd) →
        Alive (IsOpen s) s.lower fi.lowerFile := by
    rintro (hfds | ⟨fd, hfds⟩)
    · exact .inr ⟨fd', fi, hfds ▸ hfi, rfl⟩
    · rw [hfds] at hfi
      obtain ⟨fi', hfi', hfile⟩ := isOpen_markSnapshot hfi
      exact .inr ⟨fd', fi', hfi', hfile⟩
  cases op with
  | umount => cases hfi
  | «open» fd g writable err =>
    by_cases hfds : (step env s (.open fd g writable err)).fds = s.fds
    · exact hmark (.inl hfds)
    · have hopened : (step env s (.open fd g writable err)).fds =
          Function.update s.fds fd (some ⟨g, writable, false⟩) := by
        simp only [step, exec, cowfsOpen] at hfds ⊢
        split at hfds
        · exact absurd rfl hfds
        · exact absurd rfl hfds
        · exact absurd rfl hfds
        · rfl
      rw [hopened] at hfi
      by_cases hfd : fd' = fd
      · subst hfd
        rw [Function.update_self] at hfi
        obtain rfl := Option.some.inj hfi
        exact hop
      · exact .inr ⟨fd', fi, (Function.update_of_ne hfd ..).symm.trans hfi, rfl⟩
  | release fd =>
    replace hfi : Function.update s.fds fd none fd' = some fi := hfi
    by_cases hfd : fd' = fd
    · subst hfd
      rw [Function.update_self] at hfi
      cases hfi
    · exact .inr ⟨fd', fi, (Function.update_of_ne hfd ..).symm.trans hfi, rfl⟩
  | write fd pos bytes now φ err =>
    exact hmark (step_fds_mark (.inl ⟨fd, pos, bytes, now, φ, err, rfl⟩))
  | setattr g attr now φ err => exact hmark (step_fds_mark (.inr ⟨g, attr, now, φ, err, rfl⟩))
  | _ => exact hmark (.inl (step_fds rfl))

lemma linksNamed_of_there (h : op.OfThere s) : op.LinksNamed s.lower := by
  cases op with
  | link => exact h
  | _ => trivial

/-! ## The invariant -/

structure Attributed (env : Env) (s₀ : State) (past : List Op) (s : State) : Prop where
  store : StoreInv env s.store
  opened : ∀ f, IsOpen s f → (s.lower.inodes f).isSome
  versions : ∀ ino v, v ∈ s.versions env ino → ∃ f, RecordedFrom env s₀ past ino v f ∧
    ∀ g, Alive (IsOpen s) s.lower g → s.lower.inoOf g = ino → g = f

lemma attributed_init (env : Env) (l : Lower) (shadow : Fid → Option ShadowFiles) :
    Attributed env (State.init l shadow) [] (State.init l shadow) where
  store := storeInv_init env shadow
  opened := by
    rintro f ⟨fd, fi, hfi, -⟩
    cases hfi
  versions ino v hv := by
    simp [State.versions, State.init, Store.init] at hv

/-- A version that stays belongs to the file it belonged to. -/
lemma Attributed.kept (h : Attributed env s₀ past s) (hreg : Regular s op)
    (hown : OwnNumber env s op) {ino : UInt64} {v : CowVersion} (hv : v ∈ s.versions env ino) :
    ∃ f, RecordedFrom env s₀ (past ++ [op]) ino v f ∧
      ∀ g, Alive (IsOpen (step env s op)) (step env s op).lower g →
        (step env s op).lower.inoOf g = ino → g = f := by
  have heffect := step_effect env s op (linksNamed_of_there hreg.there)
  obtain ⟨new, halive⟩ := heffect.alive fun _ hf => isOpen_step hreg.there hf
  obtain ⟨f, hrec, hf⟩ := h.versions ino v hv
  refine ⟨f, Sometime.concat _ hrec op, fun g hg hino => ?_⟩
  rcases halive g hg with hg' | ⟨-, -, hnew⟩
  · exact hf g hg' ((heffect.inoOf (hg'.isSome h.opened)).symm.trans hino)
  · rw [hino] at hnew
    rw [hown.new ino hnew] at hv
    cases hv

theorem Attributed.step (h : Attributed env s₀ past s) (hs : s = run (step env) s₀ past)
    (hreg : Regular s op) (hown : OwnNumber env s op) :
    Attributed env s₀ (past ++ [op]) (step env s op) := by
  have heffect := step_effect env s op (linksNamed_of_there hreg.there)
  refine ⟨h.store.step op, fun f hf => ?_, fun ino v hv => ?_⟩
  · obtain ⟨i, hi⟩ := Option.isSome_iff_exists.1 ((isOpen_step hreg.there hf).isSome h.opened)
    obtain ⟨i', hi', -⟩ := heffect.inodes hi
    exact Option.isSome_iff_exists.2 ⟨i', hi'⟩
  by_cases hold : v ∈ s.versions env ino
  · exact h.kept hreg hown hold
  -- the version was recorded by this step
  have hstep := step_versions h.store.table op
  have hpushed : ∃ x, snapshotOf s op = some x ∧ x.inode.ino = ino := by
    generalize (Cowfs.step env s op).versions env = m at hv hstep
    cases hstep with
    | same => exact absurd hv hold
    | pushed copied hx =>
      rcases mem_push hv with ⟨hino, -⟩ | hv
      · exact ⟨_, hx, hino.symm⟩
      · exact absurd hv hold
    | pruned p => exact absurd (List.mem_of_mem_filter hv) hold
  obtain ⟨x, hx, rfl⟩ := hpushed
  have hrec : Records env s op x.inode.ino v x.file := ⟨⟨x, hx, rfl, rfl⟩, hold, hv⟩
  refine ⟨x.file, Sometime.last _ (hs ▸ hrec), fun g hg hino => ?_⟩
  obtain ⟨new, halive⟩ := heffect.alive fun _ hf => isOpen_step hreg.there hf
  rcases halive g hg with hg' | ⟨-, -, hnew⟩
  · exact hown.alone x hx g hg' ((heffect.inoOf (hg'.isSome h.opened)).symm.trans hino)
  · rw [hino] at hnew
    exact absurd hnew (hreg.whiteout x hx)

/-! ## Runs -/

lemma attributed_run {l : Lower} {shadow : Fid → Option ShadowFiles} {ops : List Op}
    (hreg : Along (step env) Regular (State.init l shadow) ops)
    (hown : Along (step env) (OwnNumber env) (State.init l shadow) ops) :
    Attributed env (State.init l shadow) ops (run (step env) (State.init l shadow) ops) := by
  refine prefix_run (attributed_init env l shadow) ?_
  rintro past op post rfl h
  exact h.step rfl hreg.at hown.at

/-- The version belongs to the file that has the number now. -/
lemma Attributed.recordedFrom (h : Attributed env s₀ past s) {path : CStr} {err : Status}
    {p : Place} (hp : cowfsPath env s path err = .ok p) {v : CowVersion}
    (hv : v ∈ s.versions env (s.lower.inoOf p.file)) :
    RecordedFrom env s₀ past (s.lower.inoOf p.file) v p.file := by
  obtain ⟨f, hrec, hf⟩ := h.versions _ v hv
  have hfile : p.file = f := hf p.file (.inl ⟨p.dir, p.name, cowfsPath_entry hp⟩) rfl
  exact hfile.symm ▸ hrec

/-- **Versions belong to their file.**  In every run in which each step keeps the numbers apart,
every version listed for a path, and every version a rollback applies to a path that resolves,
was recorded from the file that is there. -/
theorem origin_run (env : Env) (l : Lower) (shadow : Fid → Option ShadowFiles) (ops : List Op)
    (hreg : Along (step env) Regular (State.init l shadow) ops)
    (hown : Along (step env) (OwnNumber env) (State.init l shadow) ops) (path : CStr) :
    let s := run (step env) (State.init l shadow) ops
    (∀ maxCount φ p infos, cowfsPath env s path φ.path = .ok p →
      ioctlList env s path maxCount φ = .ok infos → ∀ info ∈ infos, ∃ v,
        info = ⟨v.timestamp, v.opType, strscpy pathBufSize v.shadowPath⟩ ∧
          RecordedFrom env (State.init l shadow) ops (s.lower.inoOf p.file) v p.file) ∧
    ∀ timestamp φ p v, chosen env s path timestamp φ = .ok (.found p v) →
      RecordedFrom env (State.init l shadow) ops (s.lower.inoOf p.file) v p.file := by
  intro s
  have h := attributed_run hreg hown
  refine ⟨fun maxCount φ p infos hp hlist info hinfo => ?_, fun timestamp φ p v hc => ?_⟩
  · obtain ⟨ino, hino, rfl⟩ := ioctlList_answered hlist
    obtain rfl := Except.ok.inj ((pathToLowerIno_of_place hp).symm.trans hino)
    obtain ⟨v, hv, rfl⟩ := List.mem_map.1 hinfo
    rw [versionList_eq] at hv
    exact ⟨v, rfl, h.recordedFrom hp (List.mem_of_mem_take hv)⟩
  · obtain ⟨hp, hfind⟩ := chosen_version hc
    exact h.recordedFrom hp (versionFind_mem hfind).1

/-! ## A number given twice -/

/-- `OwnNumber`, asked of all objects allocated so far. -/
def OwnNumberSoFar (env : Env) (s : State) (op : Op) : Prop :=
  (op.newIno.map (s.versions env)).getD [] = [] ∧
    ∀ x ∈ snapshotOf s op, ∀ g < s.lower.next, s.lower.inoOf g = x.inode.ino → g = x.file

instance (s : State) (op : Op) : Decidable (OwnNumberSoFar env s op) :=
  inferInstanceAs (Decidable ((op.newIno.map (s.versions env)).getD [] = [] ∧
    ∀ x ∈ snapshotOf s op, ∀ g < s.lower.next, s.lower.inoOf g = x.inode.ino → g = x.file))

/-- While no file is open it is enough to ask the objects. -/
lemma along_ownNumber {ops : List Op} (hfds : s.fds = fun _ => none)
    (hops : ∀ op ∈ ops, op.onOpen = false) (h : Along (step env) (OwnNumberSoFar env) s ops) :
    Along (step env) (OwnNumber env) s ops := by
  induction ops generalizing s with
  | nil => trivial
  | cons op ops ih =>
    obtain ⟨⟨hnew, halone⟩, hrest⟩ := h
    have hopen : ∀ f, IsOpen s f → (s.lower.inodes f).isSome := by
      rintro f ⟨fd, fi, hfi, -⟩
      rw [hfds] at hfi
      cases hfi
    have hnew' : ∀ ino ∈ op.newIno, s.versions env ino = [] := by
      intro ino hino
      rw [Option.mem_def.1 hino] at hnew
      exact hnew
    refine ⟨⟨hnew', fun x hx g hg => halone x hx g (hg.lt_next hopen)⟩, ih ?_ ?_ hrest⟩
    · rw [step_fds (hops op List.mem_cons_self), hfds]
    · exact fun op' hop' => hops op' (List.mem_cons_of_mem op hop')

/-- `x` is made under the number 10 and renamed to `y`. -/
def renamedOps : List Op :=
  [.mount ['/', 'l'] none none, .make sIFREG 1 ['x'] 0x1A4#16 ⟨0, 0, 0⟩ 10 1 none,
    .rename 1 ['x'] 1 ['y'] .zero 0 1000 .clean none]

theorem origin_run_renamed :
    chosen smallEnv (run (step smallEnv) (State.init smallTree fun _ => none) renamedOps)
        ['/', 'm', '/', 'y'] 0 (.clean ⟨0, 0, 0⟩ 99 2) = .ok (.found ⟨1, ['y'], 4⟩ movedVersion) ∧
      RecordedFrom smallEnv (State.init smallTree fun _ => none) renamedOps 10 movedVersion 4 := by
  have hc : chosen smallEnv (run (step smallEnv) (State.init smallTree fun _ => none) renamedOps)
      ['/', 'm', '/', 'y'] 0 (.clean ⟨0, 0, 0⟩ 99 2) =
        .ok (.found ⟨1, ['y'], 4⟩ movedVersion) := by
    decide +kernel
  refine ⟨hc, (origin_run smallEnv smallTree (fun _ => none) renamedOps ?_ ?_ _).2 _ _ _ _ hc⟩
  · exact ⟨⟨trivial, by decide +kernel⟩, ⟨trivial, by decide +kernel⟩,
      ⟨trivial, by decide +kernel⟩, trivial⟩
  · exact along_ownNumber rfl (by decide) (by decide +kernel)

/-- `y` is removed, and `z` is made under its number. -/
def reusedOps : List Op :=
  renamedOps ++ [.unlink 1 ['y'] 2000 .clean none,
    .make sIFREG 1 ['z'] 0x1A4#16 ⟨0, 0, 0⟩ 10 3 none]

/-- A rollback of `z` finds the rename of the file that was `x`. -/
theorem reused_number_origin :
    Along (step smallEnv) Regular (State.init smallTree fun _ => none) reusedOps ∧
      chosen smallEnv (run (step smallEnv) (State.init smallTree fun _ => none) reusedOps)
        ['/', 'm', '/', 'z'] 1000 (.clean ⟨0, 0, 0⟩ 99 4) =
          .ok (.found ⟨1, ['z'], 5⟩ movedVersion) ∧
      RecordedFrom smallEnv (State.init smallTree fun _ => none) reusedOps 10 movedVersion 4 ∧
      ¬ RecordedFrom smallEnv (State.init smallTree fun _ => none) reusedOps 10 movedVersion 5 := by
  refine ⟨?_, by decide +kernel, ?_, ?_⟩
  · exact ⟨⟨trivial, by decide +kernel⟩, ⟨trivial, by decide +kernel⟩,
      ⟨trivial, by decide +kernel⟩, ⟨trivial, by decide +kernel⟩, ⟨trivial, by decide +kernel⟩,
      trivial⟩
  · refine ⟨renamedOps.take 2, _, reusedOps.drop 3, rfl, ?_, by decide +kernel, by decide +kernel⟩
    have hx : (snapshotOf (run (step smallEnv) (State.init smallTree fun _ => none)
        (renamedOps.take 2)) (.rename 1 ['x'] 1 ['y'] .zero 0 1000 .clean none)).map
          (fun x => (x.file, x.inode.ino)) = some (4, 10) := by
      decide +kernel
    obtain ⟨x, hx, hpair⟩ := Option.map_eq_some_iff.1 hx
    exact ⟨x, hx, congrArg Prod.fst hpair, congrArg Prod.snd hpair⟩
  · -- no step records the file 5
    have hnone : Along (step smallEnv) (fun s op => ∀ x ∈ snapshotOf s op, x.file ≠ 5)
        (State.init smallTree fun _ => none) reusedOps := by
      decide +kernel
    rintro ⟨pre, a, post, hsplit, ⟨⟨x, hx, hfile, -⟩, -⟩⟩
    rw [hsplit] at hnone
    exact hnone.at x hx hfile

end Cowfs
