import Cowfs.Construction.DirLocks

/-!
# Exclusive changes of a lower directory

A create, mkdir, symlink, link or rename changes its lower directories `Bare`, under the locks of
the upper ones alone; a rollback and the removal of a shadow file change theirs `FromBelow`, under
the lock of the lower one alone.  The two kinds have no lock in common, while any other two
operations on one directory have: `namespace_exclusive_iff` says that the changes of a lower
directory exclude each other in a run exactly when none of the one kind starts inside one of the
other.
-/

namespace Cowfs

/-- `o` changes the lower directory `d` without its lock. -/
def Bare (o : NsOp) (d : Fid) : Prop :=
  match o with
  | .create d' | .mkdir d' | .symlink d' | .link d' => d = d'
  | .rename d₁ d₂ _ => d = d₁ ∨ d = d₂
  | _ => False

/-- `o` changes the lower directory `d`, if at all, without the lock of the upper one. -/
def FromBelow (o : NsOp) (d : Fid) : Prop :=
  match o with
  | .create d' | .mkdir d' | .symlink d' | .link d' | .rmdir d' | .unlink d' _ => d ≠ d'
  | .rename d₁ d₂ _ => d ≠ d₁ ∧ d ≠ d₂
  | _ => True

/-- The two changes of `d` have no lock in common. -/
def Collide (o o' : NsOp) (d : Fid) : Prop :=
  (Bare o d ∧ FromBelow o' d) ∨ (FromBelow o d ∧ Bare o' d)

/-- No thread starts a change of a lower directory while one it collides with is under way. -/
def Clear (s : Threads NsOp DirLock Fid) : Sched NsOp → Prop
  | .start _ _ => True
  | .exec t => ∀ rs is, s.todo t = .enter rs :: is →
      ∀ d ∈ rs, ∀ t', d ∈ s.inside t' → t ≠ t' → ¬ Collide (s.op t) (s.op t') d

/-- The locks held during a change. -/
def dirLocks : Discipline NsOp DirLock Fid where
  program := NsOp.steps
  guards o d k := (k = .upper d ∧ ¬ FromBelow o d) ∨ (k = .lower d ∧ ¬ Bare o d)

/-! ## The programs keep the discipline -/

variable {g : Fid → DirLock → Prop} {hs : List DirLock} {d : Fid} {rest : List DirInstr}

lemma filter_lower (h : ∀ d, .lower d ∉ hs) (d : Fid) :
    hs.filter (· ≠ DirLock.lower d) = hs := by
  refine List.filter_eq_self.2 fun k hk => ?_
  have hne : k ≠ .lower d := by
    rintro rfl
    exact h d hk
  simpa using hne

lemma follows_lowerChange (hlower : ∀ d, .lower d ∉ hs)
    (hg : ∀ k, g d k → k ∈ DirLock.lower d :: hs) (hrest : Follows g hs [] rest) :
    Follows g hs [] (lowerChange d ++ rest) := by
  refine ⟨rfl, ?_, rfl, List.mem_cons_self, ?_⟩
  · simpa using hg
  · have hback : (DirLock.lower d :: hs).filter (· ≠ .lower d) = hs := by
      simpa using filter_lower hlower d
    rw [hback]
    exact hrest

lemma follows_snapshotChanges {shadow : List Fid} (hlower : ∀ d, .lower d ∉ hs)
    (hg : ∀ d ∈ shadow, ∀ k, g d k → k ∈ DirLock.lower d :: hs) (hrest : Follows g hs [] rest) :
    Follows g hs [] (snapshotChanges shadow ++ rest) := by
  induction shadow with
  | nil => exact hrest
  | cons d shadow ih =>
    have htail := ih fun d' hd' => hg d' (List.mem_cons_of_mem d hd')
    have hsplit : snapshotChanges (d :: shadow) ++ rest =
        lowerChange d ++ (snapshotChanges shadow ++ rest) := by
      simp [snapshotChanges]
    rw [hsplit]
    exact follows_lowerChange hlower (hg d List.mem_cons_self) htail

/-- The four operations that make a name hold the upper lock, which is all they promise. -/
lemma follows_bare (h : ∀ k, g d k → k = .upper d) :
    Follows g [] [] (underUpper d [.enter [d], .leave]) := by
  refine ⟨rfl, ?_, rfl, List.mem_cons_self, ?_⟩
  · simpa using h
  · simp [Follows]

/-- A rollback changes its directory under the lower lock, or gives the lock back unused. -/
lemma follows_rollback (h : ∀ k, g d k → k = .lower d) (found : Bool) :
    Follows g [] [] (rollbackChange d found) := by
  cases found with
  | false => simp [rollbackChange, Follows]
  | true =>
    have hend : Follows g [] [] (lowerChange d ++ []) :=
      follows_lowerChange (by simp) (by simpa using h) ⟨rfl, rfl⟩
    simpa [rollbackChange] using hend

lemma follows_rename (d₁ d₂ : Fid) (shadow : List Fid) :
    Follows (dirLocks.guards (.rename d₁ d₂ shadow)) [] [] (cowfsRenameSteps d₁ d₂ shadow) := by
  unfold cowfsRenameSteps
  split_ifs with hdirs
  · subst hdirs
    have hsplit : underUpper d₁ (snapshotChanges shadow ++ [Instr.enter [d₁], Instr.leave]) =
        Instr.lock (DirLock.upper d₁) :: (snapshotChanges shadow ++
          [Instr.enter [d₁], Instr.leave, Instr.unlock (DirLock.upper d₁)]) := by
      simp [underUpper]
    rw [hsplit]
    refine follows_snapshotChanges (by simp) ?_ ?_
    · rintro d' - k (⟨rfl, h⟩ | ⟨rfl, -⟩)
      · simpa [FromBelow] using h
      · exact List.mem_cons_self
    · simp [Follows, dirLocks, Bare, FromBelow]
  · have hsplit : underUpper d₁ (underUpper d₂
        (snapshotChanges shadow ++ [Instr.enter [d₁, d₂], Instr.leave])) =
        Instr.lock (DirLock.upper d₁) :: Instr.lock (DirLock.upper d₂) ::
          (snapshotChanges shadow ++ [Instr.enter [d₁, d₂], Instr.leave,
            Instr.unlock (DirLock.upper d₂), Instr.unlock (DirLock.upper d₁)]) := by
      simp [underUpper]
    rw [hsplit]
    refine follows_snapshotChanges (by simp) ?_ ?_
    · rintro d' - k (⟨rfl, h⟩ | ⟨rfl, -⟩)
      · have hd' : d' = d₁ ∨ d' = d₂ := by
          simpa [FromBelow, or_iff_not_imp_left] using h
        simpa [or_comm] using hd'
      · exact List.mem_cons_self
    · simp [Follows, dirLocks, Bare, FromBelow, hdirs]

lemma dirLocks_sound : dirLocks.Sound := by
  intro o
  show Follows (dirLocks.guards o) [] [] o.steps
  cases o with
  | create d => exact follows_bare (by simp [dirLocks, Bare, FromBelow])
  | mkdir d => exact follows_bare (by simp [dirLocks, Bare, FromBelow])
  | symlink d => exact follows_bare (by simp [dirLocks, Bare, FromBelow])
  | link d => exact follows_bare (by simp [dirLocks, Bare, FromBelow])
  | unlink d shadow =>
    have hsplit : cowfsUnlinkSteps d shadow = Instr.lock (DirLock.upper d) ::
        (snapshotChanges shadow ++ (lowerChange d ++ [Instr.unlock (DirLock.upper d)])) := by
      simp [cowfsUnlinkSteps, underUpper]
    show Follows _ _ _ (cowfsUnlinkSteps d shadow)
    rw [hsplit]
    refine follows_snapshotChanges (by simp) ?_ (follows_lowerChange (by simp) ?_ ?_)
    · rintro d' - k (⟨rfl, h⟩ | ⟨rfl, -⟩)
      · simpa [FromBelow] using h
      · exact List.mem_cons_self
    · rintro k (⟨rfl, -⟩ | ⟨rfl, -⟩) <;> simp
    · simp [Follows]
  | rmdir d =>
    have hsplit : cowfsRmdirSteps d =
        Instr.lock (DirLock.upper d) :: (lowerChange d ++ [Instr.unlock (DirLock.upper d)]) := by
      simp [cowfsRmdirSteps, underUpper]
    show Follows _ _ _ (cowfsRmdirSteps d)
    rw [hsplit]
    refine follows_lowerChange (by simp) ?_ (by simp [Follows])
    rintro k (⟨rfl, -⟩ | ⟨rfl, -⟩) <;> simp
  | rename d₁ d₂ shadow => exact follows_rename d₁ d₂ shadow
  | rollbackDeleted d found => exact follows_rollback (by simp [dirLocks, Bare, FromBelow]) found
  | rollbackUnlink d found => exact follows_rollback (by simp [dirLocks, Bare, FromBelow]) found
  | rollbackRename d found => exact follows_rollback (by simp [dirLocks, Bare, FromBelow]) found
  | rollbackSetattr f => simp [NsOp.steps, rollbackSetattrSteps, Follows]

/-! ## Collisions -/

lemma not_bare_and_fromBelow (o : NsOp) (d : Fid) : ¬ (Bare o d ∧ FromBelow o d) := by
  rintro ⟨hbare, hbelow⟩
  cases o <;> simp_all [Bare, FromBelow]

lemma share_iff (o o' : NsOp) (d : Fid) : dirLocks.Share o o' d ↔ ¬ Collide o o' d := by
  have ho := not_bare_and_fromBelow o d
  have ho' := not_bare_and_fromBelow o' d
  have hshare : dirLocks.Share o o' d ↔
      (¬ FromBelow o d ∧ ¬ FromBelow o' d) ∨ (¬ Bare o d ∧ ¬ Bare o' d) := by
    constructor
    · rintro ⟨k, ⟨rfl, h⟩ | ⟨rfl, h⟩, h'⟩
      · exact .inl ⟨h, by simpa [dirLocks] using h'⟩
      · exact .inr ⟨h, by simpa [dirLocks] using h'⟩
    · rintro (⟨h, h'⟩ | ⟨h, h'⟩)
      · exact ⟨.upper d, .inl ⟨rfl, h⟩, .inl ⟨rfl, h'⟩⟩
      · exact ⟨.lower d, .inr ⟨rfl, h⟩, .inr ⟨rfl, h'⟩⟩
  rw [hshare]
  unfold Collide
  grind

lemma clear_eq_guarded : Clear = dirLocks.Guarded := by
  funext s a
  cases a with
  | start t o => rfl
  | exec t => simp only [Clear, Discipline.Guarded, share_iff]

/-- **Exclusive changes.**  No two threads are in a change of one lower directory at any point of
a run exactly when no create, mkdir, symlink, link or rename of the run starts its change of a
directory inside a rollback's (or the removal of a shadow file) and none of these inside one of
theirs. -/
theorem namespace_exclusive_iff (acts : List (Sched NsOp)) :
    (∀ pre post, acts = pre ++ post → (run (Threads.step dirLocks) .init pre).Exclusive) ↔
      Along (Threads.step dirLocks) Clear .init acts := by
  rw [clear_eq_guarded]
  exact exclusive_iff dirLocks_sound acts

/-- A create and the rollback of a deletion, both in directory 0. -/
theorem create_meets_rollback :
    let acts : List (Sched NsOp) :=
      [.start 1 (.create 0), .start 2 (.rollbackDeleted 0 true), .exec 1, .exec 1, .exec 2, .exec 2]
    ¬ (run (Threads.step dirLocks) .init acts).Exclusive := by
  intro acts h
  have hsame := h 1 2 0 (by decide) (by decide)
  cases hsame

end Cowfs
