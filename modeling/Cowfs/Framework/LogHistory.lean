import Cowfs.Framework.KeyedLog
import Cowfs.Framework.Run

/-!
# Histories of bounded logs

What happened to a bounded keyed log: records saved, each under its key, and passes that keep the
records a predicate selects.  `LogEvent.apply` is what one event does.  A record is there as long
as fewer than `cap` records have been saved under its key since and every pass since has kept it
(`mem_run_of_recent`).
-/

namespace Cowfs

namespace KeyedLog

section

variable {κ α : Type*} [DecidableEq κ] {cap : ℕ}

inductive LogEvent (κ α : Type*)
  | save (k : κ) (a : α)
  | keep (p : α → Bool)

def LogEvent.apply (cap : ℕ) (m : KeyedLog κ α) : LogEvent κ α → KeyedLog κ α
  | .save k a => push cap k a m
  | .keep p => prune p m

/-- The number of records saved under `k`. -/
def saves (k : κ) : List (LogEvent κ α) → ℕ
  | [] => 0
  | .save k' _ :: es => (if k' = k then 1 else 0) + saves k es
  | .keep _ :: es => saves k es

/-- Every pass keeps `a`. -/
def Spares (a : α) (es : List (LogEvent κ α)) : Prop :=
  ∀ p, .keep p ∈ es → p a = true

/-- `a` is there with at most `n` records in front of it. -/
def Within (m : KeyedLog κ α) (k : κ) (a : α) (n : ℕ) : Prop :=
  ∃ newer older, m k = newer ++ a :: older ∧ newer.length ≤ n

omit [DecidableEq κ] in
lemma Within.mem {m : KeyedLog κ α} {k : κ} {a : α} {n : ℕ} (h : Within m k a n) : a ∈ m k := by
  obtain ⟨newer, older, hm, -⟩ := h
  rw [hm]
  exact List.mem_append_right _ List.mem_cons_self

lemma within_push_self (hcap : 0 < cap) (m : KeyedLog κ α) (k : κ) (a : α) :
    Within (push cap k a m) k a 0 := by
  obtain ⟨n, rfl⟩ : ∃ n, cap = n + 1 := ⟨cap - 1, by omega⟩
  exact ⟨[], (m k).take n, by rw [push_self, List.take_succ_cons, List.nil_append], le_rfl⟩

/-- A record saved under the key moves `a` back by one. -/
lemma Within.push {m : KeyedLog κ α} {k : κ} {a : α} {n : ℕ} (h : Within m k a n)
    (hn : n + 1 < cap) (b : α) : Within (push cap k b m) k a (n + 1) := by
  obtain ⟨newer, older, hm, hlen⟩ := h
  refine ⟨b :: newer, older.take (cap - newer.length - 2), ?_, by simpa using hlen⟩
  have hroom : cap = (b :: newer).length + (cap - newer.length - 2 + 1) := by
    rw [List.length_cons]
    omega
  rw [push_self, hm, ← List.cons_append]
  conv_lhs => rw [hroom]
  rw [List.take_length_add_append, List.take_succ_cons]

omit [DecidableEq κ] in
lemma Within.prune {m : KeyedLog κ α} {k : κ} {a : α} {n : ℕ} (h : Within m k a n)
    {p : α → Bool} (hp : p a = true) : Within (prune p m) k a n := by
  obtain ⟨newer, older, hm, hlen⟩ := h
  refine ⟨newer.filter p, older.filter p, ?_, (List.length_filter_le _ _).trans hlen⟩
  rw [prune_apply, hm, List.filter_append, List.filter_cons_of_pos hp]

lemma Within.run {m : KeyedLog κ α} {k : κ} {a : α} {n : ℕ} {es : List (LogEvent κ α)}
    (h : Within m k a n) (hes : Spares a es) (hn : n + saves k es < cap) :
    Within (run (LogEvent.apply cap) m es) k a (n + saves k es) := by
  induction es generalizing m n with
  | nil => exact h
  | cons e es ih =>
    have hrest : Spares a es := fun p hp => hes p (List.mem_cons_of_mem _ hp)
    rcases e with ⟨k', b⟩ | p
    · by_cases hk : k' = k
      · subst hk
        simp only [saves, if_true] at hn ⊢
        have hpushed : Within (KeyedLog.push cap k' b m) k' a (n + 1) := h.push (by omega) b
        have hrun := ih hpushed hrest (by omega)
        rwa [Nat.add_assoc] at hrun
      · simp only [saves, if_neg hk, Nat.zero_add] at hn ⊢
        apply ih _ hrest hn
        obtain ⟨newer, older, hm, hlen⟩ := h
        refine ⟨newer, older, ?_, hlen⟩
        rw [LogEvent.apply, push_of_ne (Ne.symm hk), hm]
    · exact ih (h.prune (hes p List.mem_cons_self)) hrest hn

/-- **How long a record is kept.** -/
theorem mem_run_of_recent (m : KeyedLog κ α) {k : κ} {a : α} {es : List (LogEvent κ α)}
    (hes : Spares a es) (hn : saves k es < cap) :
    a ∈ run (LogEvent.apply cap) m (.save k a :: es) k := by
  have hsaved := within_push_self (by omega : 0 < cap) m k a
  exact (hsaved.run hes (by omega)).mem

end

end KeyedLog

end Cowfs
