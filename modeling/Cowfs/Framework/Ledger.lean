import Mathlib

/-!
# Ledgers

Items that are each in the hands of one owner.  `Ledger hold all` says that the lists `hold o`
hold exactly the items of `all`, none of them twice and none in two places.  A new item is issued
to an owner (`Ledger.issue`), and some owners trade what they hold among themselves
(`Ledger.trade`); where only the owners `os` still hold anything, what they hold is everything,
once (`Ledger.perm_of_settled`).
-/

namespace Cowfs

section

variable {ω ι : Type*} {hold hold' : ω → List ι} {all : ι → Prop}

structure Ledger (hold : ω → List ι) (all : ι → Prop) : Prop where
  nodup : ∀ o, (hold o).Nodup
  apart : ∀ o o' i, i ∈ hold o → i ∈ hold o' → o = o'
  covers : ∀ i, all i ↔ ∃ o, i ∈ hold o

namespace Ledger

lemma nil : Ledger (fun _ : ω => ([] : List ι)) fun _ => False where
  nodup _ := List.nodup_nil
  apart _ _ _ h := absurd h List.not_mem_nil
  covers i := by simp

/-- What distinct owners hold, put together. -/
lemma nodup_flatMap (h : Ledger hold all) {os : List ω} (hos : os.Nodup) :
    (os.flatMap hold).Nodup := by
  rw [List.nodup_flatMap]
  refine ⟨fun o _ => h.nodup o, hos.imp fun {o o'} hne i hi hi' => hne (h.apart o o' i hi hi')⟩

/-- **Trades.**  The owners `os` hold together what they held before, and the others their own. -/
theorem trade (h : Ledger hold all) (os : List ω) (hos : os.Nodup)
    (hperm : (os.flatMap hold').Perm (os.flatMap hold)) (hsame : ∀ o ∉ os, hold' o = hold o) :
    Ledger hold' all := by
  have hnodup : (os.flatMap hold').Nodup := hperm.nodup_iff.2 (h.nodup_flatMap hos)
  rw [List.nodup_flatMap] at hnodup
  have hback : ∀ {o i}, i ∈ hold' o → o ∈ os → ∃ o' ∈ os, i ∈ hold o' := fun {o i} hi ho =>
    List.mem_flatMap.1 (hperm.subset (List.mem_flatMap.2 ⟨o, ho, hi⟩))
  refine ⟨fun o => ?_, fun o o' i hi hi' => ?_, fun i => ?_⟩
  · by_cases ho : o ∈ os
    · exact hnodup.1 o ho
    · rw [hsame o ho]
      exact h.nodup o
  · by_cases ho : o ∈ os <;> by_cases ho' : o' ∈ os
    · by_contra hne
      have : Std.Symm (Function.onFun List.Disjoint hold') := ⟨fun _ _ hd => hd.symm⟩
      exact hnodup.2.forall ho ho' hne hi hi'
    · obtain ⟨o'', ho'', hi''⟩ := hback hi ho
      rw [hsame o' ho'] at hi'
      exact absurd (h.apart o'' o' i hi'' hi' ▸ ho'') ho'
    · obtain ⟨o'', ho'', hi''⟩ := hback hi' ho'
      rw [hsame o ho] at hi
      exact absurd (h.apart o'' o i hi'' hi ▸ ho'') ho
    · rw [hsame o ho] at hi
      rw [hsame o' ho'] at hi'
      exact h.apart o o' i hi hi'
  · rw [h.covers]
    constructor
    · rintro ⟨o, hi⟩
      by_cases ho : o ∈ os
      · obtain ⟨o', -, hi'⟩ :=
          List.mem_flatMap.1 (hperm.symm.subset (List.mem_flatMap.2 ⟨o, ho, hi⟩))
        exact ⟨o', hi'⟩
      · exact ⟨o, by rwa [hsame o ho]⟩
    · rintro ⟨o, hi⟩
      by_cases ho : o ∈ os
      · obtain ⟨o', -, hi'⟩ := hback hi ho
        exact ⟨o', hi'⟩
      · exact ⟨o, by rwa [hsame o ho] at hi⟩

/-- **A new item**, for an owner. -/
theorem issue [DecidableEq ω] (h : Ledger hold all) (o : ω) {i : ι} (hi : ¬ all i)
    (hhold : hold' = Function.update hold o (i :: hold o)) :
    Ledger hold' fun j => all j ∨ j = i := by
  have hnone : ∀ o', i ∉ hold o' := fun o' hmem => hi ((h.covers i).2 ⟨o', hmem⟩)
  have hmem : ∀ o' j, j ∈ hold' o' ↔ j ∈ hold o' ∨ o' = o ∧ j = i := by
    intro o' j
    rw [hhold]
    by_cases ho : o' = o
    · subst ho
      simp [or_comm]
    · simp [ho]
  refine ⟨fun o' => ?_, fun o₁ o₂ j h₁ h₂ => ?_, fun j => ?_⟩
  · rw [hhold]
    by_cases ho : o' = o
    · subst ho
      simpa using ⟨hnone o', h.nodup o'⟩
    · simpa [ho] using h.nodup o'
  · rw [hmem] at h₁ h₂
    rcases h₁ with h₁ | ⟨rfl, rfl⟩
    · rcases h₂ with h₂ | ⟨rfl, rfl⟩
      · exact h.apart o₁ o₂ j h₁ h₂
      · exact absurd h₁ (hnone o₁)
    · rcases h₂ with h₂ | ⟨rfl, -⟩
      · exact absurd h₂ (hnone o₂)
      · rfl
  · simp only [hmem, h.covers]
    constructor
    · rintro (⟨o', hj⟩ | rfl)
      · exact ⟨o', .inl hj⟩
      · exact ⟨o, .inr ⟨rfl, rfl⟩⟩
    · rintro ⟨o', hj | ⟨-, rfl⟩⟩
      · exact .inl ⟨o', hj⟩
      · exact .inr rfl

/-- **Settlement.**  Where only the owners `os` hold anything, they hold everything, once. -/
theorem perm_of_settled (h : Ledger hold all) (os : List ω) (hos : os.Nodup)
    (hothers : ∀ o ∉ os, hold o = []) {is : List ι} (his : is.Nodup)
    (hall : ∀ i, i ∈ is ↔ all i) : (os.flatMap hold).Perm is := by
  rw [List.perm_ext_iff_of_nodup (h.nodup_flatMap hos) his]
  intro i
  rw [hall, h.covers, List.mem_flatMap]
  constructor
  · rintro ⟨o, -, hi⟩
    exact ⟨o, hi⟩
  · rintro ⟨o, hi⟩
    refine ⟨o, ?_, hi⟩
    by_contra ho
    rw [hothers o ho] at hi
    exact List.not_mem_nil hi

end Ledger

end

end Cowfs
