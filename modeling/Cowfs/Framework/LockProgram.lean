import Cowfs.Framework.Run

/-!
# Threads that run programs of locks and critical sections

Any number of threads, each with the instructions it still has to execute.  A program takes and
gives back locks and is inside a set of regions for a while; a scheduler picks the thread that
moves, and a thread whose lock is taken stays where it is.  Every operation `o : ω` has a program
and, for every region, the locks that guard it while the operation is inside.

`Follows` is the discipline of a program: it holds the guards of a region for as long as it is
inside.  `held_run` derives from it that a thread inside a region owns the guards in every state,
and `exclusive_iff` that two threads are in one region only where a thread enters it beside an
operation that shares no guard with its own.
-/

namespace Cowfs

/-- One instruction: locks `k : κ`, regions `r : ρ`. -/
inductive Instr (κ ρ : Type*)
  | lock (k : κ)
  | unlock (k : κ)
  | enter (rs : List ρ)
  | leave

/-- What the operations do and what protects them. -/
structure Discipline (ω κ ρ : Type*) where
  program : ω → List (Instr κ ρ)
  guards : ω → ρ → κ → Prop

structure Threads (ω κ ρ : Type*) where
  /-- The operation a thread is at, or the last it was at. -/
  op : ℕ → ω
  todo : ℕ → List (Instr κ ρ)
  owner : κ → Option ℕ
  inside : ℕ → List ρ

/-- The scheduler's choice: a thread starts an operation or executes its next instruction. -/
inductive Sched (ω : Type*)
  | start (t : ℕ) (o : ω)
  | exec (t : ℕ)

section

variable {ω κ ρ : Type*} [DecidableEq κ] (D : Discipline ω κ ρ)

namespace Threads

/-- No thread has started. -/
def init [Inhabited ω] : Threads ω κ ρ :=
  ⟨fun _ => default, fun _ => [], fun _ => none, fun _ => []⟩

/-- Execute the instruction of `t` at the head of its program. -/
def exec (s : Threads ω κ ρ) (t : ℕ) : Threads ω κ ρ :=
  match s.todo t with
  | [] => s
  | .lock k :: is =>
    if (s.owner k).isSome then s
    else
      { s with
        todo := Function.update s.todo t is
        owner := Function.update s.owner k (some t) }
  | .unlock k :: is =>
    { s with
      todo := Function.update s.todo t is
      owner := Function.update s.owner k none }
  | .enter rs :: is =>
    { s with
      todo := Function.update s.todo t is
      inside := Function.update s.inside t rs }
  | .leave :: is =>
    { s with
      todo := Function.update s.todo t is
      inside := Function.update s.inside t [] }

/-- A thread starts an operation when it has done the one before. -/
def step (s : Threads ω κ ρ) : Sched ω → Threads ω κ ρ
  | .start t o =>
    match s.todo t with
    | [] =>
      { s with
        op := Function.update s.op t o
        todo := Function.update s.todo t (D.program o) }
    | _ :: _ => s
  | .exec t => s.exec t

/-- No two threads are in one region. -/
def Exclusive (s : Threads ω κ ρ) : Prop :=
  ∀ t t' r, r ∈ s.inside t → r ∈ s.inside t' → t = t'

end Threads

/-- A program that holds the locks `hs` and is inside `ins` holds the guards `g` of every region
for as long as it is inside, gives back only what it holds, and ends with nothing. -/
def Follows (g : ρ → κ → Prop) : List κ → List ρ → List (Instr κ ρ) → Prop
  | hs, ins, [] => hs = [] ∧ ins = []
  | hs, ins, .lock k :: is => Follows g (k :: hs) ins is
  | hs, ins, .unlock k :: is => ins = [] ∧ k ∈ hs ∧ Follows g (hs.filter (· ≠ k)) ins is
  | hs, ins, .enter rs :: is => ins = [] ∧ (∀ r ∈ rs, ∀ k, g r k → k ∈ hs) ∧ Follows g hs rs is
  | hs, _, .leave :: is => Follows g hs [] is

/-- Every operation follows its discipline. -/
def Discipline.Sound : Prop := ∀ o, Follows (D.guards o) [] [] (D.program o)

/-- Two operations have a common guard in the region. -/
def Discipline.Share (o o' : ω) (r : ρ) : Prop := ∃ k, D.guards o r k ∧ D.guards o' r k

/-- No region is entered beside an operation without a common guard. -/
def Discipline.Guarded (s : Threads ω κ ρ) : Sched ω → Prop
  | .start _ _ => True
  | .exec t => ∀ rs is, s.todo t = .enter rs :: is →
      ∀ r ∈ rs, ∀ t', r ∈ s.inside t' → t ≠ t' → D.Share (s.op t) (s.op t') r

variable {D} {s : Threads ω κ ρ} {t : ℕ}

/-- A thread holds `hs`: it owns these locks, its program goes on from them, and they include
the guards of the regions it is inside. -/
structure Holds (D : Discipline ω κ ρ) (s : Threads ω κ ρ) (t : ℕ) (hs : List κ) : Prop where
  follows : Follows (D.guards (s.op t)) hs (s.inside t) (s.todo t)
  owned : ∀ k ∈ hs, s.owner k = some t
  guarded : ∀ r ∈ s.inside t, ∀ k, D.guards (s.op t) r k → k ∈ hs

def AllHold (D : Discipline ω κ ρ) (s : Threads ω κ ρ) : Prop := ∀ t, ∃ hs, Holds D s t hs

/-! ## One thread moves -/

/-- A move of `t` leaves the other threads where they are, with the locks they own. -/
structure MovesOnly (t : ℕ) (s s' : Threads ω κ ρ) : Prop where
  op : ∀ t', t' ≠ t → s'.op t' = s.op t'
  todo : ∀ t', t' ≠ t → s'.todo t' = s.todo t'
  inside : ∀ t', t' ≠ t → s'.inside t' = s.inside t'
  owner : ∀ t', t' ≠ t → ∀ k, s.owner k = some t' → s'.owner k = some t'

lemma AllHold.move {s' : Threads ω κ ρ} (hall : AllHold D s) (hmove : MovesOnly t s s')
    (ht : ∃ hs, Holds D s' t hs) : AllHold D s' := by
  intro t'
  by_cases htt : t' = t
  · subst htt
    exact ht
  obtain ⟨hs, h⟩ := hall t'
  refine ⟨hs, ?_, fun k hk => hmove.owner t' htt k (h.owned k hk), ?_⟩
  · rw [hmove.op t' htt, hmove.todo t' htt, hmove.inside t' htt]
    exact h.follows
  · rw [hmove.op t' htt, hmove.inside t' htt]
    exact h.guarded

lemma start_holds {o : ω} (hD : D.Sound) (hall : AllHold D s) :
    AllHold D (s.step D (.start t o)) := by
  simp only [Threads.step]
  split
  · next htodo =>
    obtain ⟨hs, h⟩ := hall t
    have hdone := h.follows
    rw [htodo] at hdone
    obtain ⟨rfl, hinside⟩ := hdone
    refine hall.move (t := t) ⟨?_, ?_, fun _ _ => rfl, fun _ _ _ hk => hk⟩ ⟨[], ?_, by simp, ?_⟩
    · exact fun t' ht' => Function.update_of_ne ht' _ _
    · exact fun t' ht' => Function.update_of_ne ht' _ _
    · simpa [hinside] using hD o
    · simp [hinside]
  · exact hall

lemma lock_holds {k : κ} {is : List (Instr κ ρ)} (hall : AllHold D s)
    (htodo : s.todo t = .lock k :: is) : AllHold D (s.exec t) := by
  unfold Threads.exec
  rw [htodo]
  dsimp only
  split_ifs with hk
  · exact hall
  have hfree : s.owner k = none := by simpa using hk
  obtain ⟨hs, h⟩ := hall t
  have hfollows := h.follows
  rw [htodo] at hfollows
  refine hall.move (t := t) ⟨fun _ _ => rfl, ?_, fun _ _ => rfl, ?_⟩ ⟨k :: hs, ?_, ?_, ?_⟩
  · exact fun t' ht' => Function.update_of_ne ht' _ _
  · intro t' _ k' hk'
    have hne : k' ≠ k := by
      rintro rfl
      simp [hk'] at hfree
    exact (Function.update_of_ne hne _ _).trans hk'
  · show Follows _ _ _ (Function.update s.todo t is t)
    rw [Function.update_self]
    exact hfollows
  · intro k' hk'
    by_cases hkk : k' = k
    · simp [hkk]
    · exact (Function.update_of_ne hkk _ _).trans
        (h.owned k' ((List.mem_cons.1 hk').resolve_left hkk))
  · exact fun r hr k' hg => List.mem_cons_of_mem k (h.guarded r hr k' hg)

lemma unlock_holds {k : κ} {is : List (Instr κ ρ)} (hall : AllHold D s)
    (htodo : s.todo t = .unlock k :: is) : AllHold D (s.exec t) := by
  unfold Threads.exec
  rw [htodo]
  dsimp only
  obtain ⟨hs, h⟩ := hall t
  have hfollows := h.follows
  rw [htodo] at hfollows
  obtain ⟨hinside, hmem, hrest⟩ := hfollows
  refine hall.move (t := t) ⟨fun _ _ => rfl, ?_, fun _ _ => rfl, ?_⟩ ⟨hs.filter (· ≠ k), ?_, ?_, ?_⟩
  · exact fun t' ht' => Function.update_of_ne ht' _ _
  · -- the lock given back is not one of another thread's
    intro t' ht' k' hk'
    have hne : k' ≠ k := by
      rintro rfl
      exact ht' (Option.some.inj (hk'.symm.trans (h.owned k' hmem)))
    exact (Function.update_of_ne hne _ _).trans hk'
  · show Follows _ _ _ (Function.update s.todo t is t)
    rw [Function.update_self]
    exact hrest
  · intro k' hk'
    obtain ⟨hk', hne⟩ := List.mem_filter.1 hk'
    exact (Function.update_of_ne (by simpa using hne) _ _).trans (h.owned k' hk')
  · show ∀ r ∈ s.inside t, _
    simp [hinside]

lemma enter_holds {rs : List ρ} {is : List (Instr κ ρ)} (hall : AllHold D s)
    (htodo : s.todo t = .enter rs :: is) : AllHold D (s.exec t) := by
  unfold Threads.exec
  rw [htodo]
  dsimp only
  obtain ⟨hs, h⟩ := hall t
  have hfollows := h.follows
  rw [htodo] at hfollows
  obtain ⟨-, hguards, hrest⟩ := hfollows
  refine hall.move (t := t) ⟨fun _ _ => rfl, ?_, ?_, fun _ _ _ hk => hk⟩ ⟨hs, ?_, h.owned, ?_⟩
  · exact fun t' ht' => Function.update_of_ne ht' _ _
  · exact fun t' ht' => Function.update_of_ne ht' _ _
  · show Follows _ _ (Function.update s.inside t rs t) (Function.update s.todo t is t)
    rw [Function.update_self, Function.update_self]
    exact hrest
  · show ∀ r ∈ Function.update s.inside t rs t, _
    rw [Function.update_self]
    exact hguards

lemma leave_holds {is : List (Instr κ ρ)} (hall : AllHold D s)
    (htodo : s.todo t = .leave :: is) : AllHold D (s.exec t) := by
  unfold Threads.exec
  rw [htodo]
  dsimp only
  obtain ⟨hs, h⟩ := hall t
  have hfollows := h.follows
  rw [htodo] at hfollows
  refine hall.move (t := t) ⟨fun _ _ => rfl, ?_, ?_, fun _ _ _ hk => hk⟩ ⟨hs, ?_, h.owned, ?_⟩
  · exact fun t' ht' => Function.update_of_ne ht' _ _
  · exact fun t' ht' => Function.update_of_ne ht' _ _
  · show Follows _ _ (Function.update s.inside t [] t) (Function.update s.todo t is t)
    rw [Function.update_self, Function.update_self]
    exact hfollows
  · show ∀ r ∈ Function.update s.inside t [] t, _
    simp

theorem step_holds (hD : D.Sound) (hall : AllHold D s) (a : Sched ω) :
    AllHold D (s.step D a) := by
  cases a with
  | start t o => exact start_holds hD hall
  | exec t =>
    show AllHold D (s.exec t)
    cases htodo : s.todo t with
    | nil => simpa [Threads.exec, htodo] using hall
    | cons i is =>
      cases i with
      | lock k => exact lock_holds hall htodo
      | unlock k => exact unlock_holds hall htodo
      | enter rs => exact enter_holds hall htodo
      | leave => exact leave_holds hall htodo

/-! ## Exclusion -/

/-- Two threads inside one region have no common guard there. -/
lemma apart_of_share (hall : AllHold D s) {t t' : ℕ} {r : ρ} (hr : r ∈ s.inside t)
    (hr' : r ∈ s.inside t') (hshare : D.Share (s.op t) (s.op t') r) : t = t' := by
  obtain ⟨k, hk, hk'⟩ := hshare
  obtain ⟨hs, h⟩ := hall t
  obtain ⟨hs', h'⟩ := hall t'
  have hown := h.owned k (h.guarded r hr k hk)
  have hown' := h'.owned k (h'.guarded r hr' k hk')
  exact Option.some.inj (hown.symm.trans hown')

omit [DecidableEq κ] in
/-- A step that takes no thread into a region keeps the regions exclusive. -/
lemma Threads.Exclusive.shrink {s' : Threads ω κ ρ} (hex : s.Exclusive)
    (hsub : ∀ t r, r ∈ s'.inside t → r ∈ s.inside t) : s'.Exclusive :=
  fun t t' r hr hr' => hex t t' r (hsub t r hr) (hsub t' r hr')

omit [DecidableEq κ] in
/-- Only an `enter` can be unguarded. -/
lemma guarded_of_not_enter (h : ∀ rs is, s.todo t ≠ .enter rs :: is) : D.Guarded s (.exec t) :=
  fun rs is htodo => absurd htodo (h rs is)

lemma enter_exclusive (hD : D.Sound) {rs : List ρ} {is : List (Instr κ ρ)} (hall : AllHold D s)
    (hex : s.Exclusive) (htodo : s.todo t = .enter rs :: is) :
    (s.exec t).Exclusive ↔ D.Guarded s (.exec t) := by
  have hself : (s.exec t).inside t = rs := by simp [Threads.exec, htodo]
  have hother : ∀ t', t' ≠ t → (s.exec t).inside t' = s.inside t' := by
    intro t' ht'
    simp [Threads.exec, htodo, ht']
  constructor
  · intro hex' rs' is' htodo' r hr t' hr' hne
    obtain ⟨hrs, -⟩ := List.cons.inj (htodo.symm.trans htodo')
    obtain rfl := Instr.enter.inj hrs
    exact absurd (hex' t t' r (hself.symm ▸ hr) ((hother t' hne.symm).symm ▸ hr')) hne
  · intro hguard
    have hall' : AllHold D (s.exec t) := step_holds hD hall (.exec t)
    have hop : (s.exec t).op = s.op := by simp [Threads.exec, htodo]
    -- the thread that enters against one that is there
    have key : ∀ t' r, t' ≠ t → r ∈ (s.exec t).inside t → r ∈ (s.exec t).inside t' → t = t' := by
      intro t' r ht' hr hr'
      refine apart_of_share hall' hr hr' ?_
      rw [hop]
      exact hguard rs is htodo r (hself ▸ hr) t' (hother t' ht' ▸ hr') ht'.symm
    intro t₁ t₂ r h₁ h₂
    by_cases ht₁ : t₁ = t
    · subst ht₁
      by_cases ht₂ : t₂ = t₁
      · exact ht₂.symm
      · exact key t₂ r ht₂ h₁ h₂
    · by_cases ht₂ : t₂ = t
      · subst ht₂
        exact (key t₁ r ht₁ h₂ h₁).symm
      · exact hex t₁ t₂ r (hother t₁ ht₁ ▸ h₁) (hother t₂ ht₂ ▸ h₂)

lemma step_exclusive (hD : D.Sound) (hall : AllHold D s) (hex : s.Exclusive) (a : Sched ω) :
    (s.step D a).Exclusive ↔ D.Guarded s a := by
  cases a with
  | start t o =>
    refine iff_of_true (hex.shrink fun t' r hr => ?_) trivial
    cases htodo : s.todo t <;> simpa [Threads.step, htodo] using hr
  | exec t =>
    show (s.exec t).Exclusive ↔ _
    cases htodo : s.todo t with
    | nil =>
      refine iff_of_true (hex.shrink fun t' r hr => ?_) (guarded_of_not_enter (by simp [htodo]))
      simpa [Threads.exec, htodo] using hr
    | cons i is =>
      cases i with
      | lock k =>
        refine iff_of_true (hex.shrink fun t' r hr => ?_) (guarded_of_not_enter (by simp [htodo]))
        cases hk : s.owner k <;> simpa [Threads.exec, htodo, hk] using hr
      | unlock k =>
        refine iff_of_true (hex.shrink fun t' r hr => ?_) (guarded_of_not_enter (by simp [htodo]))
        simpa [Threads.exec, htodo] using hr
      | enter rs => exact enter_exclusive hD hall hex htodo
      | leave =>
        refine iff_of_true (hex.shrink fun t' r hr => ?_) (guarded_of_not_enter (by simp [htodo]))
        by_cases ht : t' = t
        · subst ht
          simp [Threads.exec, htodo] at hr
        · simpa [Threads.exec, htodo, ht] using hr

/-- **Exclusion.**  In a sound discipline, no region holds two threads at any point of a run
exactly when none is entered beside an operation without a common guard. -/
theorem exclusive_iff [Inhabited ω] (hD : D.Sound) (as : List (Sched ω)) :
    (∀ pre post, as = pre ++ post → (run (Threads.step D) .init pre).Exclusive) ↔
      Along (Threads.step D) D.Guarded .init as := by
  refine exact_run (I := AllHold D) (fun s a hall _ _ => step_holds hD hall a) ?_ ?_ ?_
  · exact fun s a hall hex => step_exclusive hD hall hex a
  · exact fun t => ⟨[], ⟨⟨rfl, rfl⟩, by simp, by simp [Threads.init]⟩⟩
  · intro t t' r h
    simp [Threads.init] at h

end

end Cowfs
