import Mathlib

/-!
# C strings

A C string is modelled by the list of its characters before the terminating `NUL`, one
`Char` for one `char`.  The bounded copies of the kernel (`strscpy`, `snprintf`) keep what
fits in front of the terminator, `strrchr` splits a string at the last occurrence of a
character, and `%lu`/`%llu` print a number in decimal.

The facts proved here are the ones path names rest on: a bounded copy of what fits is the
string itself, the part after the last `/` of a joined path is the joined name, and a pair
of numbers is recovered from its `_`-separated decimal form.
-/

namespace Cowfs

/-- A C string: the characters in front of the `NUL`. -/
abbrev CStr := List Char

/-- `strscpy(dst, s, n)`: at most `n - 1` characters and the terminator. -/
def strscpy (n : ℕ) (s : CStr) : CStr := s.take (n - 1)

/-- `snprintf(dst, n, "%s", s)`: the formatted text `s` cut to the buffer. -/
def snprintf (n : ℕ) (s : CStr) : CStr := s.take (n - 1)

theorem strscpy_of_lt {n : ℕ} {s : CStr} (h : s.length < n) : strscpy n s = s :=
  List.take_of_length_le (by omega)

theorem snprintf_of_lt {n : ℕ} {s : CStr} (h : s.length < n) : snprintf n s = s :=
  List.take_of_length_le (by omega)

/-! ## Splitting at the last occurrence -/

/-- The parts of `s` before and after the last occurrence of `c`; `none` where `strrchr`
returns `NULL`. -/
def strrchr (c : Char) : CStr → Option (CStr × CStr)
  | [] => none
  | x :: xs =>
    match strrchr c xs with
    | some (d, b) => some (x :: d, b)
    | none => if x = c then some ([], xs) else none

theorem strrchr_eq_none {c : Char} {s : CStr} : strrchr c s = none ↔ c ∉ s := by
  induction s with
  | nil => simp [strrchr]
  | cons x xs ih =>
    cases h : strrchr c xs with
    | some p =>
      have hc : c ∈ xs := by
        by_contra hc
        rw [ih.2 hc] at h
        cases h
      simp [strrchr, h, hc]
    | none =>
      have hc : c ∉ xs := ih.1 h
      by_cases hx : x = c
      · simp [strrchr, h, hx]
      · simp [strrchr, h, hx, hc, Ne.symm hx]

theorem strrchr_append {c : Char} {d b : CStr} (hb : c ∉ b) :
    strrchr c (d ++ c :: b) = some (d, b) := by
  induction d with
  | nil => simp [strrchr, strrchr_eq_none.2 hb]
  | cons x xs ih => simp [strrchr, ih]

theorem strrchr_spec {c : Char} {s d b : CStr} (h : strrchr c s = some (d, b)) :
    s = d ++ c :: b ∧ c ∉ b := by
  induction s generalizing d b with
  | nil => simp [strrchr] at h
  | cons x xs ih =>
    cases hx : strrchr c xs with
    | some p =>
      simp only [strrchr, hx, Option.some.injEq, Prod.mk.injEq] at h
      obtain ⟨rfl, rfl⟩ := h
      obtain ⟨hxs, hb⟩ := ih hx
      exact ⟨by simp [← hxs], hb⟩
    | none =>
      by_cases hxc : x = c
      · simp only [strrchr, hx, hxc, if_true, Option.some.injEq, Prod.mk.injEq] at h
        obtain ⟨rfl, rfl⟩ := h
        exact ⟨by simp [hxc], strrchr_eq_none.1 hx⟩
      · simp [strrchr, hx, hxc] at h

/-! ## Decimal numbers -/

/-- `%lu` and `%llu`. -/
def decimal (n : ℕ) : CStr := Nat.toDigits 10 n

theorem decimal_injective : Function.Injective decimal := fun m n h => by
  have h' := congrArg (fun s => Nat.ofDigitChars 10 s 0) h
  simpa only [decimal, Nat.ofDigitChars_ten_toDigits] using h'

theorem slash_notMem_decimal (n : ℕ) : '/' ∉ decimal n := fun h => by
  have := Nat.isDigit_of_mem_toDigits (b := 10) (by norm_num) (by norm_num) h
  revert this
  decide

theorem underscore_notMem_decimal (n : ℕ) : '_' ∉ decimal n := Nat.underscore_not_in_toDigits

/-- A 64-bit number prints in at most twenty characters. -/
theorem length_decimal_le {n : ℕ} (h : n < 2 ^ 64) : (decimal n).length ≤ 20 :=
  (Nat.length_toDigits_le_iff (by norm_num) (by norm_num)).2 (by omega)

/-- The `_`-separated decimal form of a pair of numbers. -/
def decimalPair (m n : ℕ) : CStr := decimal m ++ '_' :: decimal n

theorem decimalPair_injective {m n m' n' : ℕ} (h : decimalPair m n = decimalPair m' n') :
    m = m' ∧ n = n' := by
  have h₁ := strrchr_append (d := decimal m) (underscore_notMem_decimal n)
  have h₂ := strrchr_append (d := decimal m') (underscore_notMem_decimal n')
  rw [show decimal m ++ '_' :: decimal n = decimal m' ++ '_' :: decimal n' from h, h₂] at h₁
  simp only [Option.some.injEq, Prod.mk.injEq] at h₁
  exact ⟨decimal_injective h₁.1.symm, decimal_injective h₁.2.symm⟩

theorem slash_notMem_decimalPair (m n : ℕ) : '/' ∉ decimalPair m n := by
  simp [decimalPair, slash_notMem_decimal]

theorem length_decimalPair_le {m n : ℕ} (hm : m < 2 ^ 64) (hn : n < 2 ^ 64) :
    (decimalPair m n).length ≤ 41 := by
  have := length_decimal_le hm
  have := length_decimal_le hn
  simp only [decimalPair, List.length_append, List.length_cons]
  omega

end Cowfs
