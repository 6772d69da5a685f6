import Mathlib

/-!
# Undo logs

An undo log is a list of entries, the newest in front, each of which can be undone on a state.
It takes a state back when undoing its entries in order leads to the state it was started in.

An entry need not save the whole state, and a change need not be logged at all: what a later
change spoils may be a part of the state that an entry already in the log restores.  `TakesBack`
is kept in both cases.  `TakesBack.push` logs a change its entry undoes exactly;
`TakesBack.absorb` makes an unlogged change between two states that no entry tells apart for
long, since one of the entries overwrites all they differ in.
-/

namespace Cowfs

section UndoLog

variable {σ ε : Type*} (undo : ε → σ → σ) (ok : ε → σ → Prop)

/-- Undo the entries in order. -/
def undoAll : List ε → σ → σ
  | [], x => x
  | e :: es, x => undoAll es (undo e x)

/-- Every entry can be undone when its turn comes. -/
def CanUndo : List ε → σ → Prop
  | [], _ => True
  | e :: es, x => ok e x ∧ CanUndo es (undo e x)

/-- The entries can be undone in order, from `x` back to `x₀`. -/
structure TakesBack (es : List ε) (x x₀ : σ) : Prop where
  can : CanUndo undo ok es x
  back : undoAll undo es x = x₀

variable {undo ok}

theorem TakesBack.nil (x : σ) : TakesBack undo ok [] x x := ⟨trivial, rfl⟩

theorem TakesBack.push {es : List ε} {e : ε} {x y x₀ : σ} (h : TakesBack undo ok es x x₀)
    (hok : ok e y) (hundo : undo e y = x) : TakesBack undo ok (e :: es) y x₀ := by
  subst hundo
  exact ⟨⟨hok, h.can⟩, h.back⟩

theorem takesBack_cons {es : List ε} {e : ε} {y x₀ : σ} :
    TakesBack undo ok (e :: es) y x₀ ↔ ok e y ∧ TakesBack undo ok es (undo e y) x₀ :=
  ⟨fun h => ⟨h.can.1, h.can.2, h.back⟩, fun h => ⟨⟨h.1, h.2.can⟩, h.2.back⟩⟩

/-- A change within `R` is absorbed by a log whose entries respect `R` and one of which makes
related states equal. -/
theorem TakesBack.absorb {R : σ → σ → Prop} {es : List ε} {x y x₀ : σ}
    (h : TakesBack undo ok es x x₀) (hxy : R x y)
    (hundo : ∀ e x y, R x y → R (undo e x) (undo e y))
    (hok : ∀ e x y, R x y → ok e x → ok e y)
    (hone : ∃ e ∈ es, ∀ x y, R x y → undo e x = undo e y) : TakesBack undo ok es y x₀ := by
  induction es generalizing x y with
  | nil =>
    obtain ⟨e, he, -⟩ := hone
    cases he
  | cons e es ih =>
    obtain ⟨hokx, hrest⟩ := takesBack_cons.1 h
    refine takesBack_cons.2 ⟨hok e x y hxy hokx, ?_⟩
    obtain ⟨e', he', hcol⟩ := hone
    rcases List.mem_cons.1 he' with rfl | he''
    · rw [← hcol x y hxy]
      exact hrest
    · exact ih hrest (hundo e x y hxy) ⟨e', he'', hcol⟩

end UndoLog

end Cowfs
