import Mathlib

/-!
# Runs of a deterministic step function

A system is a state type `σ`, an action type `α` and a total step function; what the
environment decides (which calls fail, what the clock reads) is part of the action.  This
module holds the vocabulary every run theorem of the development uses: the state a list of
actions leads to, a condition met by every step of a run, an event that happened at some
step of a run, and the two induction rules over runs.

The second rule, `prefix_run`, is for invariants that speak of the past: its step case knows
the actions already executed and where in the run it stands, so a property such as "every
record in the table was taken at some step" is preserved by extending the history on the right.
-/

namespace Cowfs

section Runs

variable {σ α : Type*} (step : σ → α → σ)

/-- The state reached from `s` by executing the actions of `as` in order. -/
def run (s : σ) (as : List α) : σ := as.foldl step s

@[simp] theorem run_nil (s : σ) : run step s [] = s := rfl

@[simp] theorem run_cons (s : σ) (a : α) (as : List α) :
    run step s (a :: as) = run step (step s a) as := rfl

theorem run_append (s : σ) (as bs : List α) :
    run step s (as ++ bs) = run step (run step s as) bs := by
  simp [run]

@[simp] theorem run_concat (s : σ) (as : List α) (a : α) :
    run step s (as ++ [a]) = step (run step s as) a := by
  simp [run]

/-- Every step of the run from `s` meets `ok`, which sees the state the step starts in. -/
def Along (ok : σ → α → Prop) : σ → List α → Prop
  | _, [] => True
  | s, a :: as => ok s a ∧ Along ok (step s a) as

@[simp] theorem along_nil (ok : σ → α → Prop) (s : σ) : Along step ok s [] := trivial

@[simp] theorem along_cons (ok : σ → α → Prop) (s : σ) (a : α) (as : List α) :
    Along step ok s (a :: as) ↔ ok s a ∧ Along step ok (step s a) as := Iff.rfl

theorem along_append (ok : σ → α → Prop) (s : σ) (as bs : List α) :
    Along step ok s (as ++ bs) ↔ Along step ok s as ∧ Along step ok (run step s as) bs := by
  induction as generalizing s with
  | nil => simp
  | cons a as ih => simp [ih, and_assoc]

theorem Along.mono {ok ok' : σ → α → Prop} (h : ∀ s a, ok s a → ok' s a) {s : σ} {as : List α}
    (hs : Along step ok s as) : Along step ok' s as := by
  induction as generalizing s with
  | nil => trivial
  | cons a as ih => exact ⟨h s a hs.1, ih hs.2⟩

theorem along_and (ok ok' : σ → α → Prop) (s : σ) (as : List α) :
    Along step (fun s a => ok s a ∧ ok' s a) s as ↔ Along step ok s as ∧ Along step ok' s as := by
  induction as generalizing s with
  | nil => simp
  | cons a as ih => simp only [along_cons, ih, and_and_and_comm]

/-- A condition that does not depend on the state is checked on the actions. -/
theorem along_of_forall {ok : σ → α → Prop} {as : List α} (h : ∀ a ∈ as, ∀ s, ok s a) (s : σ) :
    Along step ok s as := by
  induction as generalizing s with
  | nil => trivial
  | cons a as ih =>
    exact ⟨h a List.mem_cons_self s, ih (fun b hb => h b (List.mem_cons_of_mem a hb)) _⟩

instance decidableAlong (ok : σ → α → Prop) [∀ s a, Decidable (ok s a)] :
    ∀ s as, Decidable (Along step ok s as)
  | _, [] => isTrue trivial
  | s, a :: as =>
    have := decidableAlong ok (step s a) as
    inferInstanceAs (Decidable (ok s a ∧ Along step ok (step s a) as))

/-- Some step of the run from `s` satisfied `p` in the state it started in. -/
def Sometime (p : σ → α → Prop) (s : σ) (as : List α) : Prop :=
  ∃ pre a post, as = pre ++ a :: post ∧ p (run step s pre) a

/-- An event of the past stays an event of the past. -/
theorem Sometime.concat {p : σ → α → Prop} {s : σ} {as : List α} (h : Sometime step p s as)
    (a : α) : Sometime step p s (as ++ [a]) := by
  obtain ⟨pre, b, post, rfl, hp⟩ := h
  exact ⟨pre, b, post ++ [a], by simp, hp⟩

/-- The event of the last step. -/
theorem Sometime.last {p : σ → α → Prop} {s : σ} {as : List α} {a : α}
    (h : p (run step s as) a) : Sometime step p s (as ++ [a]) :=
  ⟨as, a, [], rfl, h⟩

theorem Sometime.mono {p q : σ → α → Prop} {s : σ} {as : List α}
    (hpq : ∀ s a, p s a → q s a) (h : Sometime step p s as) : Sometime step q s as := by
  obtain ⟨pre, a, post, rfl, hp⟩ := h
  exact ⟨pre, a, post, rfl, hpq _ _ hp⟩

variable {step}

/-- **Invariants.**  What holds at the start and is kept by every step that meets `ok`
holds after every run whose steps all meet it. -/
theorem invariant_run {ok : σ → α → Prop} {I : σ → Prop}
    (hstep : ∀ s a, I s → ok s a → I (step s a)) {s : σ} {as : List α}
    (h0 : I s) (hok : Along step ok s as) : I (run step s as) := by
  induction as generalizing s with
  | nil => exact h0
  | cons a as ih => exact ih (hstep s a h0 hok.1) hok.2

/-- **Exact conditions.**  Where a step from a good state leads to a good state exactly when it
meets `ok`, a run is good throughout exactly when every step of it meets `ok`; of the steps of
the run it may be known that they are `usual`. -/
theorem exact_run_on {usual ok : σ → α → Prop} {I P : σ → Prop}
    (hkeep : ∀ s a, I s → P s → usual s a → ok s a → I (step s a))
    (hexact : ∀ s a, I s → P s → usual s a → (P (step s a) ↔ ok s a)) {s : σ} {as : List α}
    (hI : I s) (hP : P s) (husual : Along step usual s as) :
    (∀ pre post, as = pre ++ post → P (run step s pre)) ↔ Along step ok s as := by
  induction as generalizing s with
  | nil =>
    refine ⟨fun _ => trivial, fun _ pre post has => ?_⟩
    obtain ⟨rfl, -⟩ := List.append_eq_nil_iff.1 has.symm
    exact hP
  | cons a as ih =>
    constructor
    · intro h
      have hP' : P (step s a) := h [a] as rfl
      have hok : ok s a := (hexact s a hI hP husual.1).1 hP'
      have hI' : I (step s a) := hkeep s a hI hP husual.1 hok
      refine ⟨hok, (ih hI' hP' husual.2).1 fun pre post has => ?_⟩
      exact h (a :: pre) post (by rw [has, List.cons_append])
    · rintro ⟨hok, hrest⟩ pre post has
      have hP' : P (step s a) := (hexact s a hI hP husual.1).2 hok
      cases pre with
      | nil => exact hP
      | cons b pre =>
        obtain ⟨rfl, has'⟩ := List.cons.inj has
        have hI' : I (step s a) := hkeep s a hI hP husual.1 hok
        exact (ih hI' hP' husual.2).2 hrest pre post has'

/-- The rule for all runs. -/
theorem exact_run {ok : σ → α → Prop} {I P : σ → Prop}
    (hkeep : ∀ s a, I s → P s → ok s a → I (step s a))
    (hexact : ∀ s a, I s → P s → (P (step s a) ↔ ok s a)) {s : σ} {as : List α}
    (hI : I s) (hP : P s) :
    (∀ pre post, as = pre ++ post → P (run step s pre)) ↔ Along step ok s as := by
  have hall : Along step (fun _ _ => True) s as := along_of_forall step (fun _ _ _ => trivial) s
  exact exact_run_on (fun s a hI hP _ => hkeep s a hI hP) (fun s a hI hP _ => hexact s a hI hP)
    hI hP hall

/-- **Invariants with a history.**  As `invariant_run`, for an invariant that also speaks of
the actions executed so far; the step case may use where in the run it stands. -/
theorem prefix_run {s : σ} {as : List α} {I : List α → σ → Prop} (h0 : I [] s)
    (hstep : ∀ past a post, as = past ++ a :: post → I past (run step s past) →
      I (past ++ [a]) (step (run step s past) a)) : I as (run step s as) := by
  suffices h : ∀ past post, as = past ++ post → I past (run step s past) from h as [] (by simp)
  intro past
  induction past using List.reverseRecOn with
  | nil => exact fun _ _ => h0
  | append_singleton past a ih =>
    intro post has
    have has' : as = past ++ a :: post := by simpa using has
    rw [run_concat]
    exact hstep past a post has' (ih (a :: post) has')

/-- A condition met along a run is met by each of its steps. -/
theorem Along.at {ok : σ → α → Prop} {s : σ} {past post : List α} {a : α}
    (h : Along step ok s (past ++ a :: post)) : ok (run step s past) a :=
  ((along_append step ok s past (a :: post)).1 h).2.1

variable (step)

/-- What an observer sees of a run: the concatenation of what it sees of each step. -/
def observe {β : Type*} (obs : σ → α → List β) : σ → List α → List β
  | _, [] => []
  | s, a :: as => obs s a ++ observe obs (step s a) as

theorem observe_append {β : Type*} (obs : σ → α → List β) (s : σ) (as bs : List α) :
    observe step obs s (as ++ bs) =
      observe step obs s as ++ observe step obs (run step s as) bs := by
  induction as generalizing s with
  | nil => rfl
  | cons a as ih => simp [observe, ih]

theorem observe_concat {β : Type*} (obs : σ → α → List β) (s : σ) (as : List α) (a : α) :
    observe step obs s (as ++ [a]) = observe step obs s as ++ obs (run step s as) a := by
  simp [observe_append, observe]

/-- What is seen once is seen at one step. -/
theorem observe_once {β : Type*} {obs : σ → α → List β} {s : σ} {as : List α}
    (h : (observe step obs s as).Nodup) {pre pre' post post' : List α} {a a' : α} {b : β}
    (has : as = pre ++ a :: post) (has' : as = pre' ++ a' :: post')
    (hb : b ∈ obs (run step s pre) a) (hb' : b ∈ obs (run step s pre') a') :
    pre = pre' ∧ a = a' := by
  -- a step before another one would show `b` twice
  have key : ∀ {q q' r r' : List α} {c c' : α}, as = q ++ c :: r → as = q' ++ c' :: r' →
      b ∈ obs (run step s q) c → b ∈ obs (run step s q') c' → ¬ q.length < q'.length := by
    intro q q' r r' c c' hq hq' hc hc' hlt
    obtain ⟨mid, rfl⟩ : ∃ mid, q' = q ++ c :: mid := by
      have hpre : q ++ [c] <+: q' := by
        have hto : q ++ [c] <+: as := ⟨r, by simp [hq]⟩
        have hto' : q' <+: as := ⟨c' :: r', hq'.symm⟩
        exact List.prefix_of_prefix_length_le hto hto' (by simpa using hlt)
      obtain ⟨mid, hmid⟩ := hpre
      exact ⟨mid, by simp [← hmid]⟩
    have hsplit : as = ((q ++ [c]) ++ mid) ++ c' :: r' := by
      rw [hq']
      simp
    rw [hsplit, observe_append, List.nodup_append, observe_append, observe_concat] at h
    refine h.2.2 b ?_ b ?_ rfl
    · exact List.mem_append_left _ (List.mem_append_right _ hc)
    · have hrun : (q ++ [c]) ++ mid = q ++ c :: mid := by simp
      rw [hrun]
      exact List.mem_append_left _ hc'
  have hlen : pre.length = pre'.length := by
    have h₁ := key has has' hb hb'
    have h₂ := key has' has hb' hb
    omega
  have heq : pre ++ a :: post = pre' ++ a' :: post' := has.symm.trans has'
  obtain ⟨rfl, hrest⟩ := List.append_inj heq hlen
  exact ⟨rfl, (List.cons.inj hrest).1⟩

end Runs

end Cowfs
