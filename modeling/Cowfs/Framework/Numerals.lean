import Cowfs.Framework.CString

/-!
# Reading numbers

`strtoull(s, NULL, 10)` skips white space, takes a sign and reads as many digits as there are.
What follows them is ignored, a number that does not fit is the largest one, and a string in
which there are no digits at that place counts as 0.

Two facts say what a caller can rely on: a printed number is read back, whatever follows it that
is not a digit, and the result is 0 exactly for the strings that do not begin with a numeral in
which some digit is not `0`.
-/

namespace Cowfs

/-- `isspace` -/
def isSpace (c : Char) : Bool := c = ' ' || (9 ≤ c.toNat && c.toNat ≤ 13)

/-- `ULLONG_MAX` -/
def ullongMax : UInt64 := 0xFFFFFFFFFFFFFFFF

/-- The sign in front, `true` for a minus, and what follows it. -/
def takeSign (s : CStr) : Bool × CStr :=
  if s.head? = some '-' then (true, s.tail)
  else if s.head? = some '+' then (false, s.tail)
  else (false, s)

/-- The number the digits in front make up. -/
def leadingNumber (s : CStr) : ℕ := Nat.ofDigitChars 10 (s.takeWhile Char.isDigit) 0

/-- `strtoull(s, NULL, 10)` -/
def strtoull (s : CStr) : UInt64 :=
  let (negative, digits) := takeSign (s.dropWhile isSpace)
  let n := leadingNumber digits
  if 2 ^ 64 ≤ n then ullongMax
  else if negative then -UInt64.ofNat n
  else UInt64.ofNat n

/-- A complete decimal numeral. -/
def Numeral (s : CStr) : Prop := s ≠ [] ∧ ∀ c ∈ s, c.isDigit = true

variable {s ds rest : CStr} {n : ℕ}

/-! ## The parts of a numeral -/

lemma not_isSpace_of_isDigit {c : Char} (h : c.isDigit = true) : isSpace c = false := by
  have hlow : 48 ≤ c.toNat := by
    simp only [Char.isDigit, Bool.and_eq_true, decide_eq_true_eq] at h
    exact h.1
  have hne : c ≠ ' ' := by
    rintro rfl
    revert hlow
    decide
  simp only [isSpace, hne, decide_false, Bool.false_or, Bool.and_eq_false_iff,
    decide_eq_false_iff_not]
  omega

lemma ne_sign_of_isDigit {c : Char} (h : c.isDigit = true) : c ≠ '-' ∧ c ≠ '+' := by
  constructor <;> rintro rfl <;> revert h <;> decide

lemma takeSign_of_isDigit {c : Char} (h : c.isDigit = true) (cs : CStr) :
    takeSign (c :: cs) = (false, c :: cs) := by
  obtain ⟨hminus, hplus⟩ := ne_sign_of_isDigit h
  simp [takeSign, hminus, hplus]

/-- The digits end where the first other character stands. -/
lemma takeWhile_digits_append (hds : ∀ c ∈ ds, c.isDigit = true) (rest : CStr) :
    (ds ++ rest).takeWhile Char.isDigit = ds ++ rest.takeWhile Char.isDigit :=
  List.takeWhile_append_of_pos hds

lemma isDigit_decimal {c : Char} (h : c ∈ decimal n) : c.isDigit = true :=
  Nat.isDigit_of_mem_toDigits (by norm_num) (by norm_num) h

lemma numeral_decimal (n : ℕ) : Numeral (decimal n) :=
  ⟨Nat.toDigits_ne_nil, fun _ => isDigit_decimal⟩

/-! ## Printed numbers are read back -/

lemma leadingNumber_decimal (hrest : rest.takeWhile Char.isDigit = []) :
    leadingNumber (decimal n ++ rest) = n := by
  rw [leadingNumber, takeWhile_digits_append fun _ => isDigit_decimal, hrest, List.append_nil]
  exact Nat.ofDigitChars_ten_toDigits

/-- A printed number is read back, whatever follows it but a digit. -/
theorem strtoull_decimal (hn : n < 2 ^ 64) (hrest : rest.takeWhile Char.isDigit = []) :
    strtoull (decimal n ++ rest) = UInt64.ofNat n := by
  obtain ⟨c, cs, hc⟩ := List.exists_cons_of_ne_nil (numeral_decimal n).1
  have hdigit : c.isDigit = true := isDigit_decimal (hc ▸ List.mem_cons_self)
  have hspace : (decimal n ++ rest).dropWhile isSpace = decimal n ++ rest := by
    rw [hc, List.cons_append, List.dropWhile_cons, not_isSpace_of_isDigit hdigit]
    rfl
  have hsign : takeSign (decimal n ++ rest) = (false, decimal n ++ rest) := by
    rw [hc, List.cons_append]
    exact takeSign_of_isDigit hdigit _
  simp only [strtoull, hspace, hsign, leadingNumber_decimal hrest]
  rw [if_neg (by omega)]
  rfl

/-! ## Which strings count as 0 -/

lemma ofDigitChars_eq_zero (hds : ∀ c ∈ ds, c.isDigit = true) (init : ℕ) :
    Nat.ofDigitChars 10 ds init = 0 ↔ init = 0 ∧ ∀ c ∈ ds, c = '0' := by
  induction ds generalizing init with
  | nil => simp
  | cons c cs ih =>
    obtain ⟨hc, hcs⟩ := List.forall_mem_cons.1 hds
    have hlow : 48 ≤ c.toNat := by
      simp only [Char.isDigit, Bool.and_eq_true, decide_eq_true_eq] at hc
      exact hc.1
    have hzero : c = '0' ↔ c.toNat = 48 := by
      refine ⟨fun h => h ▸ rfl, fun h => ?_⟩
      exact Char.toNat_inj.1 h
    have hsum : 10 * init + (c.toNat - '0'.toNat) = 0 ↔ init = 0 ∧ c.toNat = 48 := by
      have h48 : '0'.toNat = 48 := rfl
      omega
    rw [Nat.ofDigitChars_cons, ih hcs, hsum, List.forall_mem_cons, hzero, and_assoc]

lemma leadingNumber_ne_zero : leadingNumber s ≠ 0 ↔ ∃ c ∈ s.takeWhile Char.isDigit, c ≠ '0' := by
  have hdigits : ∀ c ∈ s.takeWhile Char.isDigit, c.isDigit = true := fun c hc =>
    List.mem_takeWhile_imp hc
  rw [leadingNumber, ne_eq, ofDigitChars_eq_zero hdigits]
  push Not
  exact ⟨fun h => h rfl, fun h _ => h⟩

lemma strtoull_eq_zero :
    strtoull s = 0 ↔ leadingNumber (takeSign (s.dropWhile isSpace)).2 = 0 := by
  unfold strtoull
  rcases takeSign (s.dropWhile isSpace) with ⟨negative, digits⟩
  dsimp only
  generalize leadingNumber digits = n
  by_cases hbig : 2 ^ 64 ≤ n
  · rw [if_pos hbig]
    have hmax : ullongMax ≠ 0 := by decide
    simp only [hmax, false_iff]
    omega
  · rw [if_neg hbig]
    have hn : UInt64.ofNat n = 0 ↔ n = 0 := by
      rw [← UInt64.toNat_inj, UInt64.toNat_ofNat_of_lt' (by simpa [UInt64.size] using hbig)]
      rfl
    cases negative with
    | true => simpa using hn
    | false => simpa using hn

/-- White space, a sign or none, then digits not all of which are `0`, at the start of `s`. -/
def BeginsNonzero (s : CStr) : Prop :=
  ∃ sp sign ds rest, s = sp ++ (sign ++ (ds ++ rest)) ∧ (∀ c ∈ sp, isSpace c = true) ∧
    (sign = [] ∨ sign = ['-'] ∨ sign = ['+']) ∧ (∀ c ∈ ds, c.isDigit = true) ∧
    ∃ c ∈ ds, c ≠ '0'

lemma takeSign_spec (s : CStr) :
    ∃ sign, s = sign ++ (takeSign s).2 ∧ (sign = [] ∨ sign = ['-'] ∨ sign = ['+']) := by
  unfold takeSign
  split_ifs with hminus hplus
  · exact ⟨['-'], (List.cons_head?_tail hminus).symm, .inr (.inl rfl)⟩
  · exact ⟨['+'], (List.cons_head?_tail hplus).symm, .inr (.inr rfl)⟩
  · exact ⟨[], rfl, .inl rfl⟩

/-- The sign is taken off the digits, and the white space off the sign. -/
lemma takeSign_skip {sp sign : CStr} {c : Char} {cs : CStr} (hsp : ∀ c ∈ sp, isSpace c = true)
    (hsign : sign = [] ∨ sign = ['-'] ∨ sign = ['+']) (hc : c.isDigit = true) :
    (takeSign ((sp ++ (sign ++ c :: cs)).dropWhile isSpace)).2 = c :: cs := by
  rw [List.dropWhile_append_of_pos hsp]
  rcases hsign with rfl | rfl | rfl
  · rw [List.nil_append, List.dropWhile_cons, not_isSpace_of_isDigit hc]
    simp [takeSign_of_isDigit hc]
  · have hspace : isSpace '-' = false := by decide
    simp [hspace, takeSign]
  · have hspace : isSpace '+' = false := by decide
    simp [hspace, takeSign]

/-- **When the result is not 0.** -/
theorem strtoull_ne_zero : strtoull s ≠ 0 ↔ BeginsNonzero s := by
  rw [ne_eq, strtoull_eq_zero, ← ne_eq, leadingNumber_ne_zero]
  constructor
  · rintro ⟨c, hc, hne⟩
    obtain ⟨sign, hsign, hcases⟩ := takeSign_spec (s.dropWhile isSpace)
    refine ⟨s.takeWhile isSpace, sign, (takeSign (s.dropWhile isSpace)).2.takeWhile Char.isDigit,
      (takeSign (s.dropWhile isSpace)).2.dropWhile Char.isDigit, ?_,
      fun _ => List.mem_takeWhile_imp, hcases, fun _ => List.mem_takeWhile_imp, c, hc, hne⟩
    rw [List.takeWhile_append_dropWhile, ← hsign, List.takeWhile_append_dropWhile]
  · rintro ⟨sp, sign, ds, rest, rfl, hsp, hsign, hds, c, hc, hne⟩
    obtain ⟨d, ds', rfl⟩ : ∃ d ds', ds = d :: ds' :=
      List.exists_cons_of_ne_nil (List.ne_nil_of_mem hc)
    have hd : d.isDigit = true := hds d List.mem_cons_self
    rw [List.cons_append, takeSign_skip hsp hsign hd, ← List.cons_append,
      takeWhile_digits_append hds]
    exact ⟨c, List.mem_append_left _ hc, hne⟩

end Cowfs
