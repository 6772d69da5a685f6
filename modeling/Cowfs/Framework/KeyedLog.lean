import Mathlib

/-!
# Bounded keyed logs

A keyed log holds, for every key, a list of records with the newest in front.  It is what a
version store with a retention limit is *for*: recording a record under a key keeps the
newest `cap` of that key, expiry keeps the records a predicate selects, and clearing drops
everything.  Records carry an identity (for a kernel object: its address), and the notions
that matter for memory safety are stated through it: `Distinct`, no record is held twice, and
`Frees`, the list of released records is exactly what the log no longer holds, each once.

Nothing here mentions a concrete store; the table of the file system is shown to refine this
log elsewhere.
-/

namespace Cowfs

/-- For every key its records, newest first. -/
abbrev KeyedLog (κ α : Type*) := κ → List α

namespace KeyedLog

section Operations

variable {κ α : Type*} [DecidableEq κ]

/-- Record `a` under `k`, keeping the newest `cap` records of that key. -/
def push (cap : ℕ) (k : κ) (a : α) (m : KeyedLog κ α) : KeyedLog κ α :=
  Function.update m k ((a :: m k).take cap)

/-- Keep the records satisfying `p`. -/
def prune (p : α → Bool) (m : KeyedLog κ α) : KeyedLog κ α := fun k => (m k).filter p

/-- Drop everything. -/
def empty : KeyedLog κ α := fun _ => []

/-- `a` is held under some key. -/
def Holds (m : KeyedLog κ α) (a : α) : Prop := ∃ k, a ∈ m k

@[simp] theorem push_self (cap : ℕ) (k : κ) (a : α) (m : KeyedLog κ α) :
    push cap k a m k = (a :: m k).take cap := by
  simp [push]

theorem push_of_ne {cap : ℕ} {k k' : κ} (h : k' ≠ k) (a : α) (m : KeyedLog κ α) :
    push cap k a m k' = m k' := by
  simp [push, h]

omit [DecidableEq κ] in
@[simp] theorem prune_apply (p : α → Bool) (m : KeyedLog κ α) (k : κ) :
    prune p m k = (m k).filter p := rfl

omit [DecidableEq κ] in
@[simp] theorem empty_apply (k : κ) : (empty : KeyedLog κ α) k = [] := rfl

omit [DecidableEq κ] in
@[simp] theorem not_holds_empty (a : α) : ¬ (empty : KeyedLog κ α).Holds a := by
  simp [Holds]

/-- What a record under `k` after a push can be. -/
theorem mem_push {cap : ℕ} {k k' : κ} {a b : α} {m : KeyedLog κ α}
    (h : b ∈ push cap k a m k') : (k' = k ∧ b = a) ∨ b ∈ m k' := by
  by_cases hk : k' = k
  · subst hk
    rw [push_self] at h
    rcases List.mem_cons.1 (List.mem_of_mem_take h) with hb | hb
    · exact .inl ⟨rfl, hb⟩
    · exact .inr hb
  · rw [push_of_ne hk] at h
    exact .inr h

end Operations

section Identity

variable {κ α ι : Type*} [DecidableEq κ] (ident : α → ι)

/-- No record is held twice: identities are distinct inside a list and across keys. -/
structure Distinct (m : KeyedLog κ α) : Prop where
  nodup : ∀ k, ((m k).map ident).Nodup
  apart : ∀ k k' a a', a ∈ m k → a' ∈ m k' → ident a = ident a' → k = k'

/-- The identity of `a` is borne by no held record. -/
def Fresh (m : KeyedLog κ α) (a : α) : Prop := ∀ b, m.Holds b → ident b ≠ ident a

/-- `freed` lists exactly the records of `before` that `m'` no longer holds, each once. -/
def Frees (before : α → Prop) (m' : KeyedLog κ α) (freed : List α) : Prop :=
  (freed.map ident).Nodup ∧ ∀ a, a ∈ freed ↔ before a ∧ ¬ m'.Holds a

variable {ident}

omit [DecidableEq κ] in
theorem distinct_empty : Distinct ident (empty : KeyedLog κ α) :=
  ⟨fun _ => by simp, fun _ _ _ _ h => by simp at h⟩

omit [DecidableEq κ] in
theorem Distinct.prune {m : KeyedLog κ α} (h : Distinct ident m) (p : α → Bool) :
    Distinct ident (prune p m) where
  nodup k := (h.nodup k).sublist (List.filter_sublist.map _)
  apart k k' a a' ha ha' :=
    h.apart k k' a a' (List.mem_of_mem_filter ha) (List.mem_of_mem_filter ha')

theorem Distinct.push {m : KeyedLog κ α} (h : Distinct ident m) (cap : ℕ) (k : κ) {a : α}
    (ha : m.Fresh ident a) : Distinct ident (push cap k a m) where
  nodup k' := by
    by_cases hk : k' = k
    · subst hk
      rw [push_self]
      refine List.Nodup.sublist (List.take_sublist _ _ |>.map _) ?_
      rw [List.map_cons, List.nodup_cons]
      refine ⟨fun hmem => ?_, h.nodup k'⟩
      obtain ⟨b, hb, hba⟩ := List.mem_map.1 hmem
      exact ha b ⟨k', hb⟩ hba
    · rw [push_of_ne hk]
      exact h.nodup k'
  apart k₁ k₂ b c hb hc hbc := by
    rcases mem_push hb with ⟨rfl, rfl⟩ | hb' <;> rcases mem_push hc with ⟨rfl, rfl⟩ | hc'
    · rfl
    · exact absurd hbc.symm (ha c ⟨k₂, hc'⟩)
    · exact absurd hbc (ha b ⟨k₁, hb'⟩)
    · exact h.apart k₁ k₂ b c hb' hc' hbc

omit [DecidableEq κ] in
/-- A record is determined by its identity among the held ones. -/
theorem Distinct.eq_of_ident {m : KeyedLog κ α} (h : Distinct ident m) {k k' : κ} {a a' : α}
    (ha : a ∈ m k) (ha' : a' ∈ m k') (he : ident a = ident a') : a = a' := by
  obtain rfl := h.apart k k' a a' ha ha' he
  exact List.inj_on_of_nodup_map (h.nodup k) ha ha' he

/-- What a push drops is the overflow of the key's list, and nothing else. -/
theorem Distinct.frees_push {m : KeyedLog κ α} (h : Distinct ident m) (cap : ℕ) (k : κ) {a : α}
    (ha : m.Fresh ident a) :
    Frees ident (fun b => m.Holds b ∨ b = a) (KeyedLog.push cap k a m)
      ((a :: m k).drop cap) := by
  have hnd : ((a :: m k).map ident).Nodup := by
    rw [List.map_cons, List.nodup_cons]
    refine ⟨fun hmem => ?_, h.nodup k⟩
    obtain ⟨b, hb, hba⟩ := List.mem_map.1 hmem
    exact ha b ⟨k, hb⟩ hba
  refine ⟨hnd.sublist ((List.drop_sublist _ _).map _), fun b => ?_⟩
  have hsplit : b ∈ a :: m k ↔ b ∈ (a :: m k).take cap ∨ b ∈ (a :: m k).drop cap := by
    conv_lhs => rw [← List.take_append_drop cap (a :: m k)]
    exact List.mem_append
  constructor
  · intro hb
    refine ⟨?_, ?_⟩
    · rcases List.mem_cons.1 (hsplit.2 (.inr hb)) with rfl | hb'
      · exact .inr rfl
      · exact .inl ⟨k, hb'⟩
    · rintro ⟨k', hk'⟩
      -- kept under another key, the record would be held twice; under `k`, listed twice
      by_cases hkk : k' = k
      · subst hkk
        rw [push_self] at hk'
        have hdisj : ((a :: m k').take cap).Disjoint ((a :: m k').drop cap) :=
          List.disjoint_take_drop (hnd.of_map _) le_rfl
        exact hdisj hk' hb
      · rw [push_of_ne hkk] at hk'
        rcases List.mem_cons.1 (hsplit.2 (.inr hb)) with rfl | hb'
        · exact ha b ⟨k', hk'⟩ rfl
        · exact hkk (h.apart k' k b b hk' hb' rfl)
  · rintro ⟨hb, hnot⟩
    have hmem : b ∈ a :: m k := by
      rcases hb with ⟨k', hk'⟩ | rfl
      · by_cases hkk : k' = k
        · exact hkk ▸ List.mem_cons_of_mem _ hk'
        · exact absurd ⟨k', by rwa [push_of_ne hkk]⟩ hnot
      · exact List.mem_cons_self
    rcases hsplit.1 hmem with ht | hd
    · exact absurd ⟨k, by rwa [push_self]⟩ hnot
    · exact hd

omit [DecidableEq κ] in
/-- What a pruning drops is the list of the held records it does not keep. -/
theorem frees_prune {m : KeyedLog κ α} {p : α → Bool} {freed : List α}
    (hnd : (freed.map ident).Nodup) (hmem : ∀ a, a ∈ freed ↔ m.Holds a ∧ p a = false) :
    Frees ident m.Holds (KeyedLog.prune p m) freed := by
  refine ⟨hnd, fun a => ?_⟩
  rw [hmem]
  refine and_congr_right fun ⟨k, hk⟩ => ?_
  constructor
  · rintro hp ⟨k', hk'⟩
    rw [prune_apply, List.mem_filter, hp] at hk'
    cases hk'.2
  · intro h
    by_contra hp
    exact h ⟨k, by simpa [prune_apply, hk] using hp⟩

omit [DecidableEq κ] in
/-- What is left and what is freed make up what there was. -/
lemma Frees.perm {before : α → Prop} {m' : KeyedLog κ α} {freed left all : List α}
    (h : Frees ident before m' freed) (hall : all.Nodup) (hbefore : ∀ a, a ∈ all ↔ before a)
    (hnodup : left.Nodup) (hleft : ∀ a, a ∈ left ↔ m'.Holds a)
    (hsub : ∀ a, m'.Holds a → before a) : (left ++ freed).Perm all := by
  have hfreed : freed.Nodup := h.1.of_map _
  have hdisjoint : left.Disjoint freed := fun a ha ha' => ((h.2 a).1 ha').2 ((hleft a).1 ha)
  rw [List.perm_ext_iff_of_nodup (List.nodup_append'.2 ⟨hnodup, hfreed, hdisjoint⟩) hall]
  intro a
  rw [List.mem_append, hleft, h.2, hbefore]
  by_cases ha : m'.Holds a
  · simp [ha, hsub a ha]
  · simp [ha]

end Identity

end KeyedLog

end Cowfs
