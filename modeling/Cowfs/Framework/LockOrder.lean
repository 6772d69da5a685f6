import Cowfs.Framework.LockProgram

/-!
# Lock orders

Any number of threads run programs that take locks, exclusively or shared, give them back, and
act in between.  `LockRules` is what a program keeps to: under which locks it may take another
one, and under which it may act.  In every state of every run a thread about to act or to take a
lock holds what the rules ask for (`allowed_run`, `mayTake_run`).

A `LockOrder` gives the locks ranks, and within a rank puts some of them above others, as the
directories above a directory.  Rules are `Ordered` by it where a lock is taken only under locks
of lower ranks or above it; under the gate of a rank, which one thread at a time holds
exclusively, the locks of this rank may be taken in any order but from below.  Then some thread
can move while one has anything left to do (`exists_free`), so that all of them can finish
(`can_finish`).  `Free` asks more than any fair queue does: nobody at all holds the lock.

A program that takes a lock it holds never finishes (`never_finishes`), and neither do threads
that all wait for each other (`stuck_never_finishes`).
-/

namespace Cowfs

/-- One instruction: locks `k : κ`, actions `a : α`. -/
inductive LockInstr (κ α : Type*)
  | take (k : κ) (shared : Bool)
  | give (k : κ)
  | act (a : α)
  deriving DecidableEq

structure LockThreads (κ α : Type*) where
  todo : ℕ → List (LockInstr κ α)
  /-- The threads that hold a lock, each with whether it shares it. -/
  holders : κ → List (ℕ × Bool)

/-- What a thread may do under the locks it holds. -/
structure LockRules (κ α : Type*) where
  mayTake : κ → List (κ × Bool) → Prop
  allowed : α → List (κ × Bool) → Prop

/-- The order of the locks. -/
structure LockOrder (κ β : Type*) where
  rank : κ → β
  /-- The order within a rank. -/
  above : κ → κ → Prop
  above_irrefl : ∀ k, ¬ above k k
  above_trans : ∀ {k₁ k₂ k₃}, above k₁ k₂ → above k₂ k₃ → above k₁ k₃
  /-- The lock under which locks of a rank are taken in another order. -/
  gate : β → Option κ

section

variable {κ α β ω : Type*} [DecidableEq κ]

namespace LockThreads

/-- No thread has started. -/
def init : LockThreads κ α := ⟨fun _ => [], fun _ => []⟩

/-- Whether a lock can be taken. -/
def admits (s : LockThreads κ α) (k : κ) (shared : Bool) : Bool :=
  if shared then (s.holders k).all Prod.snd else (s.holders k).isEmpty

/-- Execute the instruction of `t` at the head of its program. -/
def exec (s : LockThreads κ α) (t : ℕ) : LockThreads κ α :=
  match s.todo t with
  | [] => s
  | .take k shared :: is =>
    if s.admits k shared then
      { todo := Function.update s.todo t is
        holders := Function.update s.holders k ((t, shared) :: s.holders k) }
    else s
  | .give k :: is =>
    { todo := Function.update s.todo t is
      holders := Function.update s.holders k ((s.holders k).filter fun p => p.1 ≠ t) }
  | .act _ :: is => { s with todo := Function.update s.todo t is }

/-- A thread starts an operation when it has done the one before. -/
def step (program : ω → List (LockInstr κ α)) (s : LockThreads κ α) :
    Sched ω → LockThreads κ α
  | .start t o =>
    match s.todo t with
    | [] => { s with todo := Function.update s.todo t (program o) }
    | _ :: _ => s
  | .exec t => s.exec t

/-- Nobody holds the lock the thread is about to take. -/
def Free (s : LockThreads κ α) (t : ℕ) : Prop :=
  ∀ k shared is, s.todo t = .take k shared :: is → s.holders k = []

/-- No thread has anything left to do. -/
def Idle (s : LockThreads κ α) : Prop := ∀ t, s.todo t = []

/-- The scheduler can let all threads finish. -/
def CanFinish (program : ω → List (LockInstr κ α)) (s : LockThreads κ α) : Prop :=
  ∃ ts : List ℕ, (run (LockThreads.step program) s (ts.map .exec)).Idle

end LockThreads

open LockThreads

/-! ## The rules -/

/-- A program that holds `hs` takes locks and acts where it may, and ends with nothing. -/
def LockRules.Keeps (R : LockRules κ α) : List (κ × Bool) → List (LockInstr κ α) → Prop
  | hs, [] => hs = []
  | hs, .take k shared :: is => R.mayTake k hs ∧ R.Keeps ((k, shared) :: hs) is
  | hs, .give k :: is => R.Keeps (hs.filter fun h => h.1 ≠ k) is
  | hs, .act a :: is => R.allowed a hs ∧ R.Keeps hs is

/-- A thread that holds `hs` may hold `h` while it takes `k`. -/
def LockOrder.Before [LT β] (O : LockOrder κ β) (hs : List (κ × Bool)) (h k : κ) : Prop :=
  h ≠ k ∧ (O.rank h < O.rank k ∨ O.rank h = O.rank k ∧
    (O.above h k ∨ ¬ O.above k h ∧ ∃ g ∈ O.gate (O.rank k), (g, false) ∈ hs))

/-- The rules allow a lock only after those it may be taken under. -/
def LockRules.Ordered [LT β] (R : LockRules κ α) (O : LockOrder κ β) : Prop :=
  ∀ k hs, R.mayTake k hs → ∀ h ∈ hs, O.Before hs h.1 k

/-- A piece of a program that starts and ends with the locks `hs`. -/
def LockRules.Balanced (R : LockRules κ α) (hs : List (κ × Bool))
    (is : List (LockInstr κ α)) : Prop :=
  ∀ rest, R.Keeps hs rest → R.Keeps hs (is ++ rest)

/-- Do `body` with the lock `k` taken. -/
def LockInstr.under (k : κ) (shared : Bool) (body : List (LockInstr κ α)) :
    List (LockInstr κ α) :=
  .take k shared :: (body ++ [.give k])

section Balanced

variable {R : LockRules κ α} {hs : List (κ × Bool)} {is js : List (LockInstr κ α)}

lemma keeps_of_balanced (h : R.Balanced [] is) : R.Keeps [] is := by
  have hkeeps := h [] rfl
  rwa [List.append_nil] at hkeeps

lemma balanced_nil : R.Balanced hs [] := fun _ h => h

lemma LockRules.Balanced.append (h : R.Balanced hs is) (h' : R.Balanced hs js) :
    R.Balanced hs (is ++ js) := by
  intro rest hrest
  rw [List.append_assoc]
  exact h _ (h' rest hrest)

lemma LockRules.Balanced.act {a : α} (ha : R.allowed a hs) (h : R.Balanced hs is) :
    R.Balanced hs (.act a :: is) :=
  fun rest hrest => ⟨ha, h rest hrest⟩

lemma balanced_flatMap {ι : Type*} {f : ι → List (LockInstr κ α)} {xs : List ι}
    (h : ∀ x ∈ xs, R.Balanced hs (f x)) : R.Balanced hs (xs.flatMap f) := by
  induction xs with
  | nil => exact balanced_nil
  | cons x xs ih =>
    rw [List.flatMap_cons]
    exact (h x List.mem_cons_self).append (ih fun y hy => h y (List.mem_cons_of_mem x hy))

/-- A lock that is not held, taken around a piece. -/
lemma balanced_under {k : κ} {shared : Bool} (hk : ∀ h ∈ hs, h.1 ≠ k) (htake : R.mayTake k hs)
    (hbody : R.Balanced ((k, shared) :: hs) is) : R.Balanced hs (LockInstr.under k shared is) := by
  intro rest hrest
  refine ⟨htake, ?_⟩
  show R.Keeps _ ((is ++ [.give k]) ++ rest)
  rw [List.append_assoc]
  refine hbody _ ?_
  have hback : ((k, shared) :: hs).filter (fun h => h.1 ≠ k) = hs := by
    rw [List.filter_cons_of_neg (by simp)]
    exact List.filter_eq_self.2 fun h hh => by simpa using hk h hh
  show R.Keeps (((k, shared) :: hs).filter fun h => h.1 ≠ k) rest
  rw [hback]
  exact hrest

end Balanced

/-- The thread holds `hs`, and its program goes on from there. -/
structure Holding (R : LockRules κ α) (s : LockThreads κ α) (t : ℕ)
    (hs : List (κ × Bool)) : Prop where
  holds : ∀ k m, (t, m) ∈ s.holders k ↔ (k, m) ∈ hs
  keeps : R.Keeps hs (s.todo t)

/-- Every thread keeps the rules, and an exclusive holder is the only one. -/
structure Orderly (R : LockRules κ α) (s : LockThreads κ α) : Prop where
  held : ∀ t, ∃ hs, Holding R s t hs
  exclusive : ∀ k t t' m, (t, false) ∈ s.holders k → (t', m) ∈ s.holders k → t' = t
  /-- Finitely many threads have something to do. -/
  bounded : ∃ n, ∀ t, n ≤ t → s.todo t = []

section Steps

variable {R : LockRules κ α} {s : LockThreads κ α} {t : ℕ} {hs : List (κ × Bool)}

omit [DecidableEq κ] in
lemma bounded_update (h : ∃ n, ∀ t, n ≤ t → s.todo t = []) (is : List (LockInstr κ α)) :
    ∃ n, ∀ t', n ≤ t' → Function.update s.todo t is t' = [] := by
  obtain ⟨n, hn⟩ := h
  refine ⟨max n (t + 1), fun t' ht' => ?_⟩
  rw [Function.update_of_ne (by omega)]
  exact hn t' (by omega)

/-- The state after a move of `t`, which leaves the locks of the others alone. -/
lemma Orderly.move (h : Orderly R s) (hs : List (κ × Bool)) {is : List (LockInstr κ α)}
    {holders : κ → List (ℕ × Bool)}
    (hothers : ∀ t', t' ≠ t → ∀ k m, (t', m) ∈ holders k ↔ (t', m) ∈ s.holders k)
    (hheld : Holding R ⟨Function.update s.todo t is, holders⟩ t hs)
    (hexclusive : ∀ k t t' m, (t, false) ∈ holders k → (t', m) ∈ holders k → t' = t) :
    Orderly R ⟨Function.update s.todo t is, holders⟩ := by
  refine ⟨fun t' => ?_, hexclusive, bounded_update h.bounded is⟩
  by_cases htt : t' = t
  · rw [htt]
    exact ⟨hs, hheld⟩
  · obtain ⟨hs', h'⟩ := h.held t'
    refine ⟨hs', fun k m => (hothers t' htt k m).trans (h'.holds k m), ?_⟩
    dsimp only
    rw [Function.update_of_ne htt]
    exact h'.keeps

lemma take_orderly (h : Orderly R s) {k : κ} {shared : Bool} {is : List (LockInstr κ α)}
    (htodo : s.todo t = .take k shared :: is) (hadmits : s.admits k shared = true) :
    Orderly R ⟨Function.update s.todo t is,
      Function.update s.holders k ((t, shared) :: s.holders k)⟩ := by
  obtain ⟨hs, hheld⟩ := h.held t
  have hkeeps := hheld.keeps
  rw [htodo] at hkeeps
  have hmem : ∀ k' t' m, (t', m) ∈ Function.update s.holders k ((t, shared) :: s.holders k) k' ↔
      (k' = k ∧ t' = t ∧ m = shared) ∨ (t', m) ∈ s.holders k' := by
    intro k' t' m
    by_cases hk : k' = k
    · subst hk
      simp
    · simp [hk]
  refine h.move ((k, shared) :: hs) ?_ ⟨?_, ?_⟩ ?_
  · intro t' ht' k' m
    simp [hmem, ht']
  · intro k' m
    rw [hmem, hheld.holds, List.mem_cons, Prod.mk.injEq]
    simp
  · dsimp only
    rw [Function.update_self]
    exact hkeeps.2
  · intro k' t₁ t₂ m h₁ h₂
    rw [hmem] at h₁ h₂
    unfold admits at hadmits
    rcases h₁ with ⟨rfl, rfl, rfl⟩ | h₁
    · -- taken exclusively: nobody was there
      have hempty : s.holders k' = [] := by simpa using hadmits
      rcases h₂ with ⟨-, rfl, -⟩ | h₂
      · rfl
      · simp [hempty] at h₂
    · rcases h₂ with ⟨rfl, rfl, rfl⟩ | h₂
      · -- an exclusive holder keeps everybody out
        exfalso
        by_cases hm : m = true
        · rw [if_pos hm, List.all_eq_true] at hadmits
          exact absurd (hadmits _ h₁) (by simp)
        · rw [if_neg hm, List.isEmpty_iff] at hadmits
          simp [hadmits] at h₁
      · exact h.exclusive k' t₁ t₂ m h₁ h₂

lemma give_orderly (h : Orderly R s) {k : κ} {is : List (LockInstr κ α)}
    (htodo : s.todo t = .give k :: is) :
    Orderly R ⟨Function.update s.todo t is,
      Function.update s.holders k ((s.holders k).filter fun p => p.1 ≠ t)⟩ := by
  obtain ⟨hs, hheld⟩ := h.held t
  have hkeeps := hheld.keeps
  rw [htodo] at hkeeps
  have hmem : ∀ k' t' m,
      (t', m) ∈ Function.update s.holders k ((s.holders k).filter fun p => p.1 ≠ t) k' ↔
        (t', m) ∈ s.holders k' ∧ ¬ (k' = k ∧ t' = t) := by
    intro k' t' m
    by_cases hk : k' = k
    · subst hk
      simp
    · simp [hk]
  refine h.move (hs.filter fun p => p.1 ≠ k) ?_ ⟨?_, ?_⟩ ?_
  · intro t' ht' k' m
    rw [hmem]
    simp [ht']
  · intro k' m
    rw [hmem, hheld.holds, List.mem_filter]
    simp
  · dsimp only
    rw [Function.update_self]
    exact hkeeps
  · intro k' t₁ t₂ m h₁ h₂
    exact h.exclusive k' t₁ t₂ m ((hmem _ _ _).1 h₁).1 ((hmem _ _ _).1 h₂).1

lemma act_orderly (h : Orderly R s) {a : α} {is : List (LockInstr κ α)}
    (htodo : s.todo t = .act a :: is) :
    Orderly R ⟨Function.update s.todo t is, s.holders⟩ := by
  obtain ⟨hs, hheld⟩ := h.held t
  have hkeeps := hheld.keeps
  rw [htodo] at hkeeps
  refine h.move hs (fun _ _ _ _ => Iff.rfl) ⟨hheld.holds, ?_⟩ h.exclusive
  dsimp only
  rw [Function.update_self]
  exact hkeeps.2

lemma exec_orderly (h : Orderly R s) (t : ℕ) : Orderly R (s.exec t) := by
  unfold LockThreads.exec
  rcases htodo : s.todo t with _ | ⟨i, is⟩
  · exact h
  rcases i with ⟨k, shared⟩ | k | a
  · dsimp only
    split_ifs with hadmits
    · exact take_orderly h htodo hadmits
    · exact h
  · exact give_orderly h htodo
  · exact act_orderly h htodo

lemma start_orderly {program : ω → List (LockInstr κ α)} (h : Orderly R s) {o : ω}
    (ho : s.todo t = [] → R.Keeps [] (program o)) :
    Orderly R (s.step program (.start t o)) := by
  simp only [LockThreads.step]
  rcases htodo : s.todo t with _ | ⟨i, is⟩
  · obtain ⟨hs, hheld⟩ := h.held t
    have hnone := hheld.keeps
    rw [htodo] at hnone
    refine h.move hs (fun _ _ _ _ => Iff.rfl) ⟨hheld.holds, ?_⟩ h.exclusive
    dsimp only
    rw [Function.update_self, show hs = [] from hnone]
    exact ho htodo
  · exact h

lemma init_orderly (R : LockRules κ α) : Orderly R (LockThreads.init : LockThreads κ α) where
  held t := ⟨[], ⟨by simp [LockThreads.init], by simp [LockThreads.init, LockRules.Keeps]⟩⟩
  exclusive := by simp [LockThreads.init]
  bounded := ⟨0, by simp [LockThreads.init]⟩

end Steps

/-! ## Some thread can move -/

section Progress

variable [LinearOrder β] {R : LockRules κ α} {O : LockOrder κ β} {s : LockThreads κ α} {t : ℕ}

omit [DecidableEq κ] in
/-- A thread that is not free waits for a lock somebody holds. -/
lemma not_free_iff : ¬ s.Free t ↔ ∃ k shared is, s.todo t = .take k shared :: is ∧
    s.holders k ≠ [] := by
  unfold Free
  push Not
  rfl

/-- The thread waits for `k`, under the locks `hs`. -/
structure WaitsFor (O : LockOrder κ β) (s : LockThreads κ α) (t : ℕ) (hs : List (κ × Bool))
    (k : κ) : Prop where
  holds : ∀ k m, (t, m) ∈ s.holders k ↔ (k, m) ∈ hs
  todo : ∃ shared is, s.todo t = .take k shared :: is
  busy : s.holders k ≠ []
  before : ∀ h ∈ hs, O.Before hs h.1 k

/-- When nobody is free, whoever has something to do waits. -/
lemma waitsFor_of_stuck (hR : R.Ordered O) (h : Orderly R s)
    (hstuck : ∀ t, s.todo t ≠ [] → ¬ s.Free t) (ht : s.todo t ≠ []) :
    ∃ hs k, WaitsFor O s t hs k := by
  obtain ⟨hs, hheld⟩ := h.held t
  obtain ⟨k, shared, is, hwait, hbusy⟩ := not_free_iff.1 (hstuck t ht)
  have hkeeps := hheld.keeps
  rw [hwait] at hkeeps
  exact ⟨hs, k, hheld.holds, ⟨shared, is, hwait⟩, hbusy, hR k hs hkeeps.1⟩

/-- The holder of a lock has something to do. -/
lemma todo_of_holds (h : Orderly R s) {k : κ} {m : Bool} (hk : (t, m) ∈ s.holders k) :
    s.todo t ≠ [] := by
  obtain ⟨hs, hheld⟩ := h.held t
  intro hnil
  have hkeeps := hheld.keeps
  rw [hnil] at hkeeps
  have hmem := (hheld.holds k m).1 hk
  rw [show hs = [] from hkeeps] at hmem
  simp at hmem

/-- The lock a thread waits for, if it waits. -/
def awaited (s : LockThreads κ α) (t : ℕ) : Option κ :=
  match s.todo t with
  | .take k _ :: _ => some k
  | _ => none

omit [DecidableEq κ] in
lemma WaitsFor.awaited_eq {hs : List (κ × Bool)} {k : κ} (h : WaitsFor O s t hs k) :
    awaited s t = some k := by
  obtain ⟨shared, is, htodo⟩ := h.todo
  rw [awaited, htodo]

/-- The holder of a lock of the highest rank anybody waits for waits for another one of this
rank, below it unless the holder has the gate. -/
lemma holder_waits (hR : R.Ordered O) (h : Orderly R s)
    (hstuck : ∀ t, s.todo t ≠ [] → ¬ s.Free t) {r : β}
    (hmax : ∀ t k, awaited s t = some k → O.rank k ≤ r) {hs : List (κ × Bool)} {k : κ}
    (hwait : WaitsFor O s t hs k) (hk : O.rank k = r) :
    ∃ t' hs' k', WaitsFor O s t' hs' k' ∧ O.rank k' = r ∧ k ≠ k' ∧
      (O.above k k' ∨ ¬ O.above k' k ∧ ∃ g ∈ O.gate r, (g, false) ∈ hs') := by
  obtain ⟨⟨t', m⟩, hholds⟩ := List.exists_mem_of_ne_nil _ hwait.busy
  obtain ⟨hs', k', hwait'⟩ := waitsFor_of_stuck hR h hstuck (todo_of_holds h hholds)
  have hmem : (k, m) ∈ hs' := (hwait'.holds k m).1 hholds
  obtain ⟨hne, hlt | ⟨heq, hsame⟩⟩ := hwait'.before _ hmem
  · rw [hk] at hlt
    exact absurd (hmax t' k' hwait'.awaited_eq) (not_le_of_gt hlt)
  · have hk' : O.rank k' = r := heq.symm.trans hk
    rw [hk'] at hsame
    exact ⟨t', hs', k', hwait', hk', hne, hsame⟩

omit [DecidableEq κ] [LinearOrder β] in
/-- Among finitely many locks there is none from which it goes down for ever. -/
lemma no_descent (O : LockOrder κ β) (S : Finset κ) {P : κ → Prop} (hS : ∀ k, P k → k ∈ S)
    (hnext : ∀ k, P k → ∃ k', P k' ∧ O.above k k') (k : κ) : ¬ P k := by
  intro hk
  have htrans : IsTrans S fun a b => O.above b.1 a.1 := ⟨fun _ _ _ hab hbc => O.above_trans hbc hab⟩
  have hirrefl : Std.Irrefl fun a b : S => O.above b.1 a.1 := ⟨fun a => O.above_irrefl a.1⟩
  have hwf := Finite.wellFounded_of_trans_of_irrefl fun a b : S => O.above b.1 a.1
  obtain ⟨low, hlow, hmin⟩ := hwf.has_min {a : S | P a.1} ⟨⟨k, hS k hk⟩, hk⟩
  obtain ⟨k', hk', habove⟩ := hnext low.1 hlow
  exact hmin ⟨k', hS k' hk'⟩ hk' habove

omit [DecidableEq κ] in
/-- The locks threads wait for. -/
lemma exists_awaited (h : ∃ n, ∀ t, n ≤ t → s.todo t = []) :
    ∃ S : Finset κ, ∀ t k, awaited s t = some k → k ∈ S := by
  classical
  obtain ⟨n, hn⟩ := h
  refine ⟨(Finset.range n).biUnion fun t => (awaited s t).toFinset, fun t k hk => ?_⟩
  have hlt : t < n := by
    by_contra hge
    rw [awaited, hn t (by omega)] at hk
    cases hk
  exact Finset.mem_biUnion.2 ⟨t, Finset.mem_range.2 hlt, by simp [hk]⟩

/-- A thread that waits for a lock of the highest rank anybody waits for. -/
lemma exists_highest (hR : R.Ordered O) (h : Orderly R s)
    (hstuck : ∀ t, s.todo t ≠ [] → ¬ s.Free t) (ht : s.todo t ≠ []) :
    ∃ t hs k, WaitsFor O s t hs k ∧ ∀ t' k', awaited s t' = some k' → O.rank k' ≤ O.rank k := by
  classical
  obtain ⟨S, hS⟩ := exists_awaited h.bounded
  obtain ⟨hs₀, k₀, hwait₀⟩ := waitsFor_of_stuck hR h hstuck ht
  have hmem : ∀ t k, awaited s t = some k → k ∈ S.filter fun k => ∃ t, awaited s t = some k :=
    fun t k hk => Finset.mem_filter.2 ⟨hS t k hk, t, hk⟩
  obtain ⟨k, hk, hmax⟩ := Finset.exists_max_image _ O.rank ⟨k₀, hmem t k₀ hwait₀.awaited_eq⟩
  obtain ⟨t', ht'⟩ := (Finset.mem_filter.1 hk).2
  have htodo : s.todo t' ≠ [] := by
    intro hnil
    rw [awaited, hnil] at ht'
    cases ht'
  obtain ⟨hs, k', hwait⟩ := waitsFor_of_stuck hR h hstuck htodo
  obtain rfl : k' = k := Option.some.inj (hwait.awaited_eq.symm.trans ht')
  exact ⟨t', hs, k', hwait, fun t'' k'' hk'' => hmax k'' (hmem t'' k'' hk'')⟩

/-- **No deadlock.**  While a thread has something to do, one of those that have is free. -/
theorem exists_free (hR : R.Ordered O) (h : Orderly R s) (hbusy : ∃ t, s.todo t ≠ []) :
    ∃ t, s.todo t ≠ [] ∧ s.Free t := by
  by_contra hnone
  have hstuck : ∀ t, s.todo t ≠ [] → ¬ s.Free t := fun t ht hfree => hnone ⟨t, ht, hfree⟩
  obtain ⟨S, hS⟩ := exists_awaited h.bounded
  obtain ⟨t₀, ht₀⟩ := hbusy
  obtain ⟨t₁, hs₁, k₁, hwait₁, hmax⟩ := exists_highest hR h hstuck ht₀
  by_cases hgate : ∃ t hs k, WaitsFor O s t hs k ∧ O.rank k = O.rank k₁ ∧
      ∃ g ∈ O.gate (O.rank k₁), (g, false) ∈ hs
  · -- what the thread with the gate waits for has locks below it that are waited for, without end
    obtain ⟨tG, hsG, kG, hwaitG, hrankG, g, hg, hgateG⟩ := hgate
    have hsame : ∀ {t hs k}, WaitsFor O s t hs k →
        (∃ g ∈ O.gate (O.rank k₁), (g, false) ∈ hs) → k = kG := by
      rintro t hs k hwait ⟨g', hg', hgate'⟩
      rw [Option.mem_def] at hg hg'
      obtain rfl : g = g' := by rw [hg, Option.some.injEq] at hg'; exact hg'
      obtain rfl : t = tG := h.exclusive g tG t false ((hwaitG.holds g false).2 hgateG)
        ((hwait.holds g false).2 hgate')
      exact Option.some.inj (hwait.awaited_eq.symm.trans hwaitG.awaited_eq)
    obtain ⟨t', hs', k', hwait', hrank', hne, hbelow⟩ :=
      holder_waits hR h hstuck hmax hwaitG hrankG
    have hfirst : O.above kG k' := by
      rcases hbelow with habove | ⟨-, hgate'⟩
      · exact habove
      · exact absurd (hsame hwait' hgate').symm hne
    refine no_descent O S (P := fun k => (∃ t hs, WaitsFor O s t hs k) ∧ O.rank k = O.rank k₁ ∧
      O.above kG k) ?_ ?_ k' ⟨⟨t', hs', hwait'⟩, hrank', hfirst⟩
    · rintro k ⟨⟨t, hs, hwait⟩, -⟩
      exact hS t k hwait.awaited_eq
    · rintro k ⟨⟨t, hs, hwait⟩, hrank, habove⟩
      obtain ⟨t'', hs'', k'', hwait'', hrank'', -, hbelow'' | ⟨hnot, hgate''⟩⟩ :=
        holder_waits hR h hstuck hmax hwait hrank
      · exact ⟨k'', ⟨⟨t'', hs'', hwait''⟩, hrank'', O.above_trans habove hbelow''⟩, hbelow''⟩
      · rw [hsame hwait'' hgate''] at hnot
        exact absurd habove hnot
  · refine no_descent O S (P := fun k => (∃ t hs, WaitsFor O s t hs k) ∧ O.rank k = O.rank k₁)
      ?_ ?_ k₁ ⟨⟨t₁, hs₁, hwait₁⟩, rfl⟩
    · rintro k ⟨⟨t, hs, hwait⟩, -⟩
      exact hS t k hwait.awaited_eq
    · rintro k ⟨⟨t, hs, hwait⟩, hrank⟩
      obtain ⟨t'', hs'', k'', hwait'', hrank'', -, hbelow'' | ⟨-, hgate''⟩⟩ :=
        holder_waits hR h hstuck hmax hwait hrank
      · exact ⟨k'', ⟨⟨t'', hs'', hwait''⟩, hrank''⟩, hbelow''⟩
      · exact absurd ⟨t'', hs'', k'', hwait'', hrank'', hgate''⟩ hgate

/-! ## All threads can finish -/

/-- What a free thread has to do gets less. -/
lemma exec_todo (hfree : s.Free t) (ht : s.todo t ≠ []) :
    (s.exec t).todo = Function.update s.todo t (s.todo t).tail := by
  unfold LockThreads.exec
  rcases htodo : s.todo t with _ | ⟨i, is⟩
  · exact absurd htodo ht
  rcases i with ⟨k, shared⟩ | k | a
  · have hadmits : s.admits k shared = true := by
      simp [admits, hfree k shared is htodo]
    simp only [hadmits, if_true, List.tail_cons]
  · simp only [List.tail_cons]
  · simp only [List.tail_cons]

/-- **All threads can finish**, from every state in which ordered rules are kept. -/
theorem can_finish (program : ω → List (LockInstr κ α)) (hR : R.Ordered O) (h : Orderly R s) :
    s.CanFinish program := by
  obtain ⟨n, hn⟩ := h.bounded
  -- the number of instructions left
  induction hleft : ∑ t ∈ Finset.range n, (s.todo t).length using Nat.strong_induction_on
    generalizing s with
  | _ left ih =>
    by_cases hidle : s.Idle
    · exact ⟨[], hidle⟩
    obtain ⟨t, ht, hfree⟩ := exists_free hR h (by simpa [Idle] using hidle)
    have hlt : t < n := by
      by_contra hge
      exact ht (hn t (by omega))
    have htodo := exec_todo hfree ht
    have hless : ∑ t' ∈ Finset.range n, ((s.exec t).todo t').length < left := by
      rw [← hleft, htodo]
      apply Finset.sum_lt_sum
      · intro t' _
        by_cases htt : t' = t
        · subst htt
          simp
        · simp [htt]
      · refine ⟨t, Finset.mem_range.2 hlt, ?_⟩
        have hpos : 0 < (s.todo t).length := List.length_pos_iff.2 ht
        rw [Function.update_self, List.length_tail]
        omega
    have hn' : ∀ t', n ≤ t' → (s.exec t).todo t' = [] := by
      intro t' ht'
      rw [htodo, Function.update_of_ne (by omega)]
      exact hn t' ht'
    obtain ⟨ts, hts⟩ := ih _ hless (exec_orderly h t) hn' rfl
    exact ⟨t :: ts, hts⟩

end Progress

/-! ## A thread that waits for itself -/

/-- The program takes a lock again that it still holds, once at least exclusively. -/
def Retakes (k : κ) (is : List (LockInstr κ α)) : Prop :=
  ∃ pre m₁ mid m₂ post, is = pre ++ .take k m₁ :: (mid ++ .take k m₂ :: post) ∧
    .give k ∉ mid ∧ (m₁ = false ∨ m₂ = false)

omit [DecidableEq κ] in
lemma Retakes.append {k : κ} {is : List (LockInstr κ α)} (h : Retakes k is)
    (before after : List (LockInstr κ α)) : Retakes k (before ++ (is ++ after)) := by
  obtain ⟨pre, m₁, mid, m₂, post, rfl, hgive, hexcl⟩ := h
  exact ⟨before ++ pre, m₁, mid, m₂, post ++ after, by simp, hgive, hexcl⟩

/-- The thread has taken `k` and is to take it again. -/
def Waits (s : LockThreads κ α) (t : ℕ) (k : κ) : Prop :=
  ∃ m₁ mid m₂ post, s.todo t = mid ++ .take k m₂ :: post ∧ .give k ∉ mid ∧
    (m₁ = false ∨ m₂ = false) ∧ (t, m₁) ∈ s.holders k

section Stuck

variable {s : LockThreads κ α} {t : ℕ} {k : κ}

/-- The move of another thread leaves a thread what it has to do and what it holds. -/
lemma exec_other {t' : ℕ} (ht : t' ≠ t) (k : κ) {m : Bool} :
    (s.exec t').todo t = s.todo t ∧ ((t, m) ∈ s.holders k → (t, m) ∈ (s.exec t').holders k) := by
  have htodo : ∀ is, Function.update s.todo t' is t = s.todo t :=
    fun is => Function.update_of_ne ht.symm _ _
  unfold LockThreads.exec
  rcases s.todo t' with _ | ⟨⟨k', shared⟩ | k' | a, is⟩
  · exact ⟨rfl, id⟩
  · dsimp only
    split_ifs with hadmits
    · refine ⟨htodo is, fun hmem => ?_⟩
      by_cases hk : k = k'
      · subst hk
        simp [hmem]
      · simpa [hk] using hmem
    · exact ⟨rfl, id⟩
  · refine ⟨htodo is, fun hmem => ?_⟩
    by_cases hk : k = k'
    · subst hk
      simpa [ht.symm] using hmem
    · simpa [hk] using hmem
  · exact ⟨htodo is, id⟩

lemma Waits.exec (h : Waits s t k) (t' : ℕ) : Waits (s.exec t') t k := by
  obtain ⟨m₁, mid, m₂, post, htodo, hgive, hexcl, hmem⟩ := h
  by_cases ht : t' = t
  · subst ht
    rcases mid with _ | ⟨i, mid⟩
    · -- at the second `take`, which it keeps waiting for
      have hadmits : s.admits k m₂ = false := by
        unfold admits
        rcases hexcl with rfl | rfl
        · rcases m₂ with _ | _
          · simpa using List.ne_nil_of_mem hmem
          · simpa using ⟨t', hmem⟩
        · simpa using List.ne_nil_of_mem hmem
      have hsame : s.exec t' = s := by
        unfold LockThreads.exec
        rw [htodo]
        simp [hadmits]
      rw [hsame]
      exact ⟨m₁, [], m₂, post, htodo, hgive, hexcl, hmem⟩
    · rw [List.mem_cons, not_or] at hgive
      rw [List.cons_append] at htodo
      unfold LockThreads.exec
      rw [htodo]
      rcases i with ⟨k', shared⟩ | k' | a
      · dsimp only
        split_ifs with hadmits
        · refine ⟨m₁, mid, m₂, post, by simp, hgive.2, hexcl, ?_⟩
          by_cases hk : k = k'
          · subst hk
            simp [hmem]
          · simpa [hk] using hmem
        · exact ⟨m₁, .take k' shared :: mid, m₂, post, htodo, by simp [hgive.2], hexcl, hmem⟩
      · have hk : k ≠ k' := fun hk => hgive.1 (by rw [hk])
        exact ⟨m₁, mid, m₂, post, by simp, hgive.2, hexcl, by simpa [hk] using hmem⟩
      · exact ⟨m₁, mid, m₂, post, by simp, hgive.2, hexcl, hmem⟩
  · obtain ⟨htodo', hmem'⟩ := exec_other (s := s) ht k (m := m₁)
    exact ⟨m₁, mid, m₂, post, htodo'.trans htodo, hgive, hexcl, hmem' hmem⟩

/-- A thread before or between the two `take`s stays there. -/
lemma retakes_exec (h : Retakes k (s.todo t) ∨ Waits s t k) (t' : ℕ) :
    Retakes k ((s.exec t').todo t) ∨ Waits (s.exec t') t k := by
  rcases h with ⟨pre, m₁, mid, m₂, post, htodo, hgive, hexcl⟩ | h
  · by_cases ht : t' = t
    · subst ht
      rcases pre with _ | ⟨i, pre⟩
      · rw [List.nil_append] at htodo
        unfold LockThreads.exec
        rw [htodo]
        dsimp only
        split_ifs with hadmits
        · exact .inr ⟨m₁, mid, m₂, post, by simp, hgive, hexcl, by simp⟩
        · exact .inl ⟨[], m₁, mid, m₂, post, htodo, hgive, hexcl⟩
      · rw [List.cons_append] at htodo
        unfold LockThreads.exec
        rw [htodo]
        rcases i with ⟨k', shared⟩ | k' | a
        · dsimp only
          split_ifs with hadmits
          · exact .inl ⟨pre, m₁, mid, m₂, post, by simp, hgive, hexcl⟩
          · exact .inl ⟨.take k' shared :: pre, m₁, mid, m₂, post, htodo, hgive, hexcl⟩
        · exact .inl ⟨pre, m₁, mid, m₂, post, by simp, hgive, hexcl⟩
        · exact .inl ⟨pre, m₁, mid, m₂, post, by simp, hgive, hexcl⟩
    · rw [(exec_other (s := s) ht k (m := m₁)).1]
      exact .inl ⟨pre, m₁, mid, m₂, post, htodo, hgive, hexcl⟩
  · exact .inr (h.exec t')

/-- **A thread that takes what it holds never finishes**, whatever the others do. -/
theorem never_finishes (program : ω → List (LockInstr κ α)) (h : Retakes k (s.todo t)) :
    ¬ s.CanFinish program := by
  rintro ⟨ts, hidle⟩
  have hkept : ∀ (ts : List ℕ) (s : LockThreads κ α), Retakes k (s.todo t) ∨ Waits s t k →
      Retakes k ((run (LockThreads.step program) s (ts.map .exec)).todo t) ∨
        Waits (run (LockThreads.step program) s (ts.map .exec)) t k := by
    intro ts
    induction ts with
    | nil => exact fun _ h => h
    | cons t' ts ih => exact fun s h => ih (s.exec t') (retakes_exec h t')
  rcases hkept ts s (.inl h) with ⟨pre, _, mid, _, post, htodo, -⟩ | ⟨_, mid, _, post, htodo, -⟩
  · rw [hidle t] at htodo
    simp at htodo
  · rw [hidle t] at htodo
    simp at htodo

end Stuck

/-- **Threads that wait for each other never finish**: a state in which nobody can move. -/
theorem stuck_never_finishes (program : ω → List (LockInstr κ α)) {s : LockThreads κ α} {t : ℕ}
    (ht : s.todo t ≠ []) (hstuck : ∀ t, s.exec t = s) : ¬ s.CanFinish program := by
  rintro ⟨ts, hidle⟩
  have hsame : ∀ ts : List ℕ, run (LockThreads.step program) s (ts.map .exec) = s := by
    intro ts
    induction ts with
    | nil => rfl
    | cons t' ts ih =>
      show run (LockThreads.step program) (s.exec t') (ts.map .exec) = s
      rw [hstuck t']
      exact ih
  rw [hsame] at hidle
  exact ht (hidle t)

/-! ## Runs -/

section Runs

variable {R : LockRules κ α} {program : ω → List (LockInstr κ α)}

/-- A step that starts an operation starts one that is `ok`. -/
def Starts (ok : ω → Prop) (s : LockThreads κ α) : Sched ω → Prop
  | .start t o => s.todo t = [] → ok o
  | .exec _ => True

omit [DecidableEq κ] in
lemma starts_any {s : LockThreads κ α} (a : Sched ω) : Starts (fun _ => True) s a := by
  cases a with
  | start t o => exact fun _ => trivial
  | exec t => trivial

lemma step_orderly {ok : ω → Prop} (hok : ∀ o, ok o → R.Keeps [] (program o))
    {s : LockThreads κ α} {a : Sched ω} (h : Orderly R s) (ha : Starts ok s a) :
    Orderly R (s.step program a) := by
  rcases a with ⟨t, o⟩ | t
  · exact start_orderly h fun ht => hok o (ha ht)
  · exact exec_orderly h t

/-- Every state of a run of operations that keep the rules. -/
theorem orderly_run (hok : ∀ o, R.Keeps [] (program o)) (as : List (Sched ω)) :
    Orderly R (run (LockThreads.step program) .init as) :=
  invariant_run (fun _ _ h ha => step_orderly (fun o _ => hok o) h ha) (init_orderly R)
    (along_of_forall _ (fun a _ _ => starts_any a) _)

/-- **When all threads can finish.**  Among runs of operations that are `usual`, where one that
is `ok` keeps the rules and one that is not takes a lock it holds: the threads can finish from
every state of the run exactly when it starts none of the second kind. -/
theorem finish_iff {β : Type*} [LinearOrder β] {O : LockOrder κ β} (hR : R.Ordered O)
    {usual ok : ω → Prop} (hok : ∀ o, usual o → ok o → R.Keeps [] (program o))
    (hbad : ∀ o, ¬ ok o → ∃ k, Retakes k (program o)) {as : List (Sched ω)}
    (has : Along (LockThreads.step program) (Starts usual) .init as) :
    (∀ pre post, as = pre ++ post →
        (run (LockThreads.step program) .init pre).CanFinish program) ↔
      Along (LockThreads.step program) (Starts ok) .init as := by
  have hboth : ∀ (s : LockThreads κ α) a, Starts usual s a → Starts ok s a →
      Starts (fun o => usual o ∧ ok o) s a := by
    rintro s (⟨t, o⟩ | t) husual hstart
    · exact fun ht => ⟨husual ht, hstart ht⟩
    · trivial
  have hstep : ∀ s a, Orderly R s → Starts usual s a → Starts ok s a →
      Orderly R (LockThreads.step program s a) := fun s a h husual hstart =>
    step_orderly (fun o ho => hok o ho.1 ho.2) h (hboth s a husual hstart)
  refine exact_run_on (I := Orderly R) (fun s a h _ husual ha => hstep s a h husual ha) ?_
    (init_orderly R) (can_finish program hR (init_orderly R)) has
  intro s a h hfin husual
  constructor
  · intro hfin'
    rcases a with ⟨t, o⟩ | t
    · intro ht
      by_contra ho
      obtain ⟨k, hk⟩ := hbad o ho
      refine never_finishes (t := t) (k := k) program ?_ hfin'
      simpa [LockThreads.step, ht] using hk
    · trivial
  · exact fun ha => can_finish program hR (hstep s a h husual ha)

/-- **What a thread holds when it acts.** -/
theorem allowed_run (hok : ∀ o, R.Keeps [] (program o)) {as : List (Sched ω)} {t : ℕ} {a : α}
    {is : List (LockInstr κ α)}
    (htodo : (run (LockThreads.step program) .init as).todo t = .act a :: is) :
    ∃ hs, Holding R (run (LockThreads.step program) .init as) t hs ∧ R.allowed a hs := by
  obtain ⟨hs, hheld⟩ := (orderly_run hok as).held t
  have hkeeps := hheld.keeps
  rw [htodo] at hkeeps
  exact ⟨hs, hheld, hkeeps.1⟩

/-- **What a thread holds when it takes a lock.** -/
theorem mayTake_run (hok : ∀ o, R.Keeps [] (program o)) {as : List (Sched ω)} {t : ℕ} {k : κ}
    {shared : Bool} {is : List (LockInstr κ α)}
    (htodo : (run (LockThreads.step program) .init as).todo t = .take k shared :: is) :
    ∃ hs, Holding R (run (LockThreads.step program) .init as) t hs ∧ R.mayTake k hs := by
  obtain ⟨hs, hheld⟩ := (orderly_run hok as).held t
  have hkeeps := hheld.keeps
  rw [htodo] at hkeeps
  exact ⟨hs, hheld, hkeeps.1⟩

end Runs

end

end Cowfs
