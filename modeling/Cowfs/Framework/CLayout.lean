import Cowfs.Framework.CBuffer

/-!
# C structures in memory

A C type is known by its size and its alignment, and the layout of a structure follows from those
of its fields: every field at the next place its alignment allows, the whole rounded up so that
an array of it is aligned throughout.  Memory is a list of characters, as in a buffer; a number
of `w` characters has the least significant one first.

A `Span` is where something lies.  Two fields of a structure and two elements of an array lie
apart (`field_apart`, `elem_apart`), and what is apart from a store is read as before it
(`loadAt_storeAt_of_apart`).
-/

namespace Cowfs

/-! ## Types -/

/-- The size and the alignment of a type; a size is a multiple of the alignment. -/
structure CType where
  size : ℕ
  align : ℕ
  align_pos : 0 < align
  align_dvd : align ∣ size

/-- The next multiple of `a` from `n` on. -/
def alignUp (a n : ℕ) : ℕ := (n + (a - 1)) / a * a

lemma le_alignUp {a : ℕ} (ha : 0 < a) (n : ℕ) : n ≤ alignUp a n := by
  have hdiv := Nat.div_add_mod (n + (a - 1)) a
  have hmod := Nat.mod_lt (n + (a - 1)) ha
  rw [mul_comm] at hdiv
  unfold alignUp
  omega

namespace CType

/-- A number of `w` characters, aligned to `a`. -/
def number (w a : ℕ) (ha : 0 < a) (h : a ∣ w) : CType := ⟨w, a, ha, h⟩

def char : CType := ⟨1, 1, Nat.one_pos, dvd_rfl⟩

def array (t : CType) (n : ℕ) : CType :=
  ⟨n * t.size, t.align, t.align_pos, t.align_dvd.mul_left n⟩

/-- The offset of field `i` among fields that begin at `o`, and behind the last one the offset of
the end. -/
def offsetFrom : ℕ → List CType → ℕ → ℕ
  | o, [], _ => o
  | o, t :: _, 0 => alignUp t.align o
  | o, t :: ts, i + 1 => offsetFrom (alignUp t.align o + t.size) ts i

/-- The alignment of a structure: that of the field with the largest one. -/
def maxAlign (fields : List CType) : ℕ := (fields.map CType.align).foldr max 1

lemma maxAlign_pos (fields : List CType) : 0 < maxAlign fields := by
  induction fields with
  | nil => exact Nat.one_pos
  | cons t ts ih =>
    show 0 < max t.align (maxAlign ts)
    exact lt_max_of_lt_right ih

/-- A structure of these fields. -/
def struct (fields : List CType) : CType where
  size := alignUp (maxAlign fields) (offsetFrom 0 fields fields.length)
  align := maxAlign fields
  align_pos := maxAlign_pos fields
  align_dvd := Nat.dvd_mul_left _ _

/-! ## Fields lie one behind the other -/

lemma le_offsetFrom (o : ℕ) (fields : List CType) (i : ℕ) : o ≤ offsetFrom o fields i := by
  induction fields generalizing o i with
  | nil => rw [offsetFrom]
  | cons t ts ih =>
    have hup := le_alignUp t.align_pos o
    rcases i with _ | i
    · exact hup
    · exact (hup.trans (Nat.le_add_right _ _)).trans (ih _ i)

lemma offsetFrom_add_size_le {fields : List CType} {t : CType} {i j : ℕ}
    (ht : fields[i]? = some t) (hij : i < j) (o : ℕ) :
    offsetFrom o fields i + t.size ≤ offsetFrom o fields j := by
  induction fields generalizing o i j with
  | nil => simp at ht
  | cons t' ts ih =>
    obtain ⟨j, rfl⟩ := Nat.exists_eq_add_of_lt (Nat.zero_lt_of_lt hij)
    rw [Nat.zero_add]
    rcases i with _ | i
    · obtain rfl : t' = t := by simpa using ht
      exact le_offsetFrom _ ts j
    · exact ih (by simpa using ht) (by omega) _

end CType

/-! ## Places -/

/-- `len` characters from `off` on. -/
structure Span where
  off : ℕ
  len : ℕ

namespace Span

def Apart (a b : Span) : Prop := a.off + a.len ≤ b.off ∨ b.off + b.len ≤ a.off

def Within (a b : Span) : Prop := b.off ≤ a.off ∧ a.off + a.len ≤ b.off + b.len

variable {a b c d : Span}

lemma Apart.symm (h : a.Apart b) : b.Apart a := Or.symm h

lemma Within.trans (h : a.Within b) (h' : b.Within c) : a.Within c :=
  ⟨h'.1.trans h.1, h.2.trans h'.2⟩

/-- What is within places that lie apart lies apart. -/
lemma Apart.within (h : a.Apart b) (hc : c.Within a) (hd : d.Within b) : c.Apart d := by
  obtain ⟨hc₁, hc₂⟩ := hc
  obtain ⟨hd₁, hd₂⟩ := hd
  unfold Apart at *
  omega

end Span

namespace CType

/-- A value of type `t` at `off`. -/
def span (t : CType) (off : ℕ) : Span := ⟨off, t.size⟩

/-- Field `i` of a structure at `off`. -/
def field (fields : List CType) (off i : ℕ) : Span :=
  ⟨off + offsetFrom 0 fields i, (fields[i]?.map CType.size).getD 0⟩

/-- Element `k` of an array at `off`. -/
def elem (t : CType) (off k : ℕ) : Span := ⟨off + k * t.size, t.size⟩

variable {fields : List CType} {off i j k n : ℕ}

lemma field_end_le (hi : i < fields.length) (hij : i < j) :
    (field fields off i).off + (field fields off i).len ≤ off + offsetFrom 0 fields j := by
  have hle := offsetFrom_add_size_le (List.getElem?_eq_getElem hi) hij 0
  simp only [field, List.getElem?_eq_getElem hi, Option.map_some, Option.getD_some]
  omega

lemma field_apart (hi : i < fields.length) (hj : j < fields.length) (hij : i ≠ j) :
    (field fields off i).Apart (field fields off j) := by
  rcases lt_or_gt_of_ne hij with h | h
  · exact .inl (field_end_le hi h)
  · exact .inr (field_end_le hj h)

lemma field_within (hi : i < fields.length) :
    (field fields off i).Within ((struct fields).span off) := by
  have hend : (field fields off i).off + (field fields off i).len ≤
      off + offsetFrom 0 fields fields.length := field_end_le hi hi
  have hup := le_alignUp (maxAlign_pos fields) (offsetFrom 0 fields fields.length)
  refine ⟨Nat.le_add_right _ _, hend.trans ?_⟩
  exact Nat.add_le_add_left hup off

lemma elem_apart (t : CType) (off : ℕ) {k k' : ℕ} (h : k ≠ k') :
    (elem t off k).Apart (elem t off k') := by
  rcases lt_or_gt_of_ne h with h | h
  · have hmul := Nat.mul_le_mul_right t.size (Nat.succ_le_of_lt h)
    left
    simp only [elem, Nat.succ_mul] at *
    omega
  · have hmul := Nat.mul_le_mul_right t.size (Nat.succ_le_of_lt h)
    right
    simp only [elem, Nat.succ_mul] at *
    omega

lemma elem_within (t : CType) (off : ℕ) (h : k < n) :
    (elem t off k).Within ((array t n).span off) := by
  have hmul := Nat.mul_le_mul_right t.size (Nat.succ_le_of_lt h)
  refine ⟨Nat.le_add_right _ _, ?_⟩
  simp only [elem, array, CType.span, Nat.succ_mul] at *
  omega

end CType

/-! ## Loads and stores -/

/-- What is at `a`. -/
def loadAt (m : List Char) (a : Span) : List Char := (m.drop a.off).take a.len

/-- `cs` stored from `off` on. -/
def storeAt (m : List Char) (off : ℕ) (cs : List Char) : List Char :=
  m.take off ++ cs ++ m.drop (off + cs.length)

variable {m cs : List Char} {a : Span}

lemma length_loadAt (h : a.off + a.len ≤ m.length) : (loadAt m a).length = a.len := by
  rw [loadAt, List.length_take, List.length_drop]
  omega

/-- The beginning of what is at `a`. -/
lemma take_loadAt {n : ℕ} (hn : n ≤ a.len) : (loadAt m a).take n = loadAt m ⟨a.off, n⟩ := by
  rw [loadAt, loadAt, List.take_take, Nat.min_eq_left hn]

lemma length_storeAt (hcs : cs.length ≤ a.len) (h : a.off + a.len ≤ m.length) :
    (storeAt m a.off cs).length = m.length := by
  simp only [storeAt, List.length_append, List.length_take, List.length_drop]
  omega

/-- A store is read back. -/
lemma take_storeAt (hcs : cs.length ≤ a.len) (h : a.off + a.len ≤ m.length) :
    (loadAt (storeAt m a.off cs) a).take cs.length = cs := by
  have htake : (m.take a.off).length = a.off := by
    rw [List.length_take]
    omega
  rw [take_loadAt hcs, loadAt, storeAt, List.append_assoc,
    List.drop_append_of_le_length htake.ge, List.drop_eq_nil_of_le htake.le, List.nil_append,
    List.take_left]

lemma loadAt_storeAt_self (hcs : cs.length = a.len) (h : a.off + a.len ≤ m.length) :
    loadAt (storeAt m a.off cs) a = cs := by
  have hlen := length_storeAt hcs.le h
  have hload : (loadAt (storeAt m a.off cs) a).length = a.len := length_loadAt (by omega)
  have htake := take_storeAt hcs.le h
  rwa [List.take_of_length_le (by omega)] at htake

/-- A store into `b` leaves what is apart from `b`. -/
lemma loadAt_storeAt_of_apart {b : Span} (hcs : cs.length ≤ b.len)
    (h : b.off + b.len ≤ m.length) (hapart : a.Apart b) :
    loadAt (storeAt m b.off cs) a = loadAt m a := by
  refine List.ext_getElem? fun i => ?_
  have hlen : (m.take b.off).length = b.off := by
    rw [List.length_take]
    omega
  simp only [loadAt, List.getElem?_take, List.getElem?_drop]
  split_ifs with hi
  · rcases hapart with hbefore | hbehind
    · rw [storeAt, List.append_assoc, List.getElem?_append_left (by omega), List.getElem?_take,
        if_pos (by omega)]
    · rw [storeAt, List.getElem?_append_right (by rw [List.length_append]; omega),
        List.length_append, hlen, List.getElem?_drop]
      congr 1
      omega
  · rfl

/-! ## Numbers -/

/-- A number in `w` characters. -/
def putNumber : ℕ → ℕ → List Char
  | 0, _ => []
  | w + 1, n => Char.ofNat (n % 256) :: putNumber w (n / 256)

/-- The number these characters are. -/
def getNumber : List Char → ℕ
  | [] => 0
  | c :: cs => c.toNat + 256 * getNumber cs

@[simp] lemma length_putNumber (w n : ℕ) : (putNumber w n).length = w := by
  induction w generalizing n with
  | zero => rfl
  | succ w ih => rw [putNumber, List.length_cons, ih]

lemma toNat_ofNat_mod (n : ℕ) : (Char.ofNat (n % 256)).toNat = n % 256 := by
  have hvalid : (n % 256).isValidChar := .inl (by omega)
  rw [Char.ofNat, dif_pos hvalid]
  rfl

lemma getNumber_putNumber (w n : ℕ) : getNumber (putNumber w n) = n % 256 ^ w := by
  induction w generalizing n with
  | zero => rw [putNumber, getNumber, pow_zero, Nat.mod_one]
  | succ w ih =>
    rw [putNumber, getNumber, toNat_ofNat_mod, ih, pow_succ', Nat.mod_mul]

/-- A number stored in a place of its size. -/
lemma getNumber_stored {w n : ℕ} (hlen : a.len = w) (h : a.off + a.len ≤ m.length)
    (hn : n < 256 ^ w) : getNumber (loadAt (storeAt m a.off (putNumber w n)) a) = n := by
  rw [loadAt_storeAt_self (by rw [length_putNumber, hlen]) h, getNumber_putNumber,
    Nat.mod_eq_of_lt hn]

/-- A string stored in a place it fits with its terminator. -/
lemma readString_stored {str : CStr} (hlen : str.length < a.len) (h : a.off + a.len ≤ m.length)
    (hnul : nul ∉ str) : readString (loadAt (storeAt m a.off (str ++ [nul])) a) = some str := by
  have htake : (loadAt (storeAt m a.off (str ++ [nul])) a).take (str ++ [nul]).length =
      str ++ [nul] := by
    refine take_storeAt ?_ h
    rw [List.length_append, List.length_singleton]
    omega
  rw [← List.take_append_drop (str ++ [nul]).length (loadAt _ a), htake, List.append_assoc,
    List.singleton_append, readString_append hnul]

end Cowfs
