import Cowfs.Framework.CString

/-!
# C strings in buffers

A buffer is the list of its characters, any of which may be `NUL`; the string at its start is
what stands in front of the first `NUL`.  A function that looks for the terminator reads on until
it meets one.  In a buffer it either meets it or leaves the buffer, and `none` stands for the
second: a computation with the value `some x` has read nothing but the buffer.

`readString` is such a scan, `readStringN` one that gives up after a number of characters, as the
bounded copies do, and `strncpyZeroed` is the usual way to put a string into a zeroed buffer.
-/

namespace Cowfs

/-- `'\0'` -/
def nul : Char := Char.ofNat 0

/-- The string at the start of a buffer, read up to its terminator. -/
def readString : List Char → Option CStr
  | [] => none
  | c :: cs => if c = nul then some [] else (readString cs).map (c :: ·)

/-- The same, for at most `n` characters. -/
def readStringN : ℕ → List Char → Option CStr
  | 0, _ => some []
  | _ + 1, [] => none
  | n + 1, c :: cs => if c = nul then some [] else (readStringN n cs).map (c :: ·)

/-- `strscpy(dst, src, n)` from a buffer: at most `n` characters are read, and the copy is cut to
`n - 1` of them. -/
def strscpyFrom (n : ℕ) (src : List Char) : Option CStr := (readStringN n src).map (strscpy n)

/-- `strncpy(dst, s, n - 1)` into a zeroed buffer of `n` characters. -/
def strncpyZeroed (n : ℕ) (s : CStr) : List Char :=
  s.take (n - 1) ++ List.replicate (n - (s.take (n - 1)).length) nul

variable {buf : List Char} {s d b : CStr} {n : ℕ}

/-! ## Scans for the terminator -/

theorem readString_append (hs : nul ∉ s) (rest : List Char) :
    readString (s ++ nul :: rest) = some s := by
  induction s with
  | nil => simp [readString]
  | cons c s ih =>
    rw [List.mem_cons, not_or] at hs
    simp [readString, Ne.symm hs.1, ih hs.2]

theorem readString_eq_none : readString buf = none ↔ nul ∉ buf := by
  induction buf with
  | nil => simp [readString]
  | cons c cs ih =>
    by_cases hc : c = nul
    · simp [readString, hc]
    · simp [readString, hc, Ne.symm hc, ih]

theorem isSome_readString : (readString buf).isSome ↔ nul ∈ buf := by
  rw [Option.isSome_iff_ne_none, ne_eq, readString_eq_none, not_not]

/-- What is read stands in front of a terminator. -/
theorem readString_spec (h : readString buf = some s) :
    ∃ rest, buf = s ++ nul :: rest ∧ nul ∉ s := by
  induction buf generalizing s with
  | nil => cases h
  | cons c cs ih =>
    by_cases hc : c = nul
    · simp only [readString, hc, if_true, Option.some.injEq] at h
      subst h
      exact ⟨cs, by simp [hc], List.not_mem_nil⟩
    · simp only [readString, hc, if_false, Option.map_eq_some_iff] at h
      obtain ⟨s', hs', rfl⟩ := h
      obtain ⟨rest, rfl, hnul⟩ := ih hs'
      exact ⟨rest, by simp, by simp [Ne.symm hc, hnul]⟩

/-- From inside a string the scan reads the rest of it. -/
theorem readString_drop (h : readString buf = some (d ++ b)) :
    readString (buf.drop d.length) = some b := by
  obtain ⟨rest, rfl, hnul⟩ := readString_spec h
  rw [List.append_assoc, List.drop_left]
  exact readString_append (fun hb => hnul (List.mem_append_right _ hb)) rest

/-- A bounded scan that reaches the terminator reads the string. -/
theorem readStringN_of_le (h : readString buf = some s) (hn : s.length ≤ n) :
    readStringN n buf = some s := by
  induction buf generalizing s n with
  | nil => cases h
  | cons c cs ih =>
    cases n with
    | zero =>
      obtain rfl := List.length_eq_zero_iff.1 (Nat.le_zero.1 hn)
      rfl
    | succ n =>
      by_cases hc : c = nul
      · simpa only [readString, readStringN, hc, if_true] using h
      · simp only [readString, hc, if_false, Option.map_eq_some_iff] at h
        obtain ⟨s', hs', rfl⟩ := h
        have hrest : readStringN n cs = some s' := ih hs' (by simpa using hn)
        simp [readStringN, hc, hrest]

/-- A copy of a string that fits reads the string and keeps it. -/
theorem strscpyFrom_of_lt (h : readString buf = some s) (hn : s.length < n) :
    strscpyFrom n buf = some s := by
  rw [strscpyFrom, readStringN_of_le h (by omega), Option.map_some, strscpy_of_lt hn]

/-! ## Zeroed buffers -/

theorem length_strncpyZeroed (hn : 0 < n) : (strncpyZeroed n s).length = n := by
  have hle : (s.take (n - 1)).length ≤ n - 1 := List.length_take_le _ _
  rw [strncpyZeroed, List.length_append, List.length_replicate]
  omega

/-- The buffer keeps a terminator whatever is copied into it. -/
theorem readString_strncpyZeroed (hn : 0 < n) (hs : nul ∉ s) :
    readString (strncpyZeroed n s) = some (s.take (n - 1)) := by
  have hle : (s.take (n - 1)).length ≤ n - 1 := List.length_take_le _ _
  obtain ⟨k, hk⟩ : ∃ k, n - (s.take (n - 1)).length = k + 1 :=
    ⟨n - (s.take (n - 1)).length - 1, by omega⟩
  rw [strncpyZeroed, hk, List.replicate_succ]
  exact readString_append (fun h => hs (List.mem_of_mem_take h)) _

end Cowfs
