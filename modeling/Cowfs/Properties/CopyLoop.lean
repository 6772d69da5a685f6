import Cowfs.Construction.Shadow

/-!
# The copy loop

`cowfs_shadow_copy_file` and `cowfs_shadow_restore_file` share one loop: read up to 64 KiB,
write what was read, until a read delivers nothing.  A read advances the source by what it
delivered and a write the destination by what it accepted, so a write that accepts less than
it was offered loses the rest of its chunk.

`Complete` is the condition on the results of the two calls under which nothing is lost: every
chunk up to the end of the source is read and accepted in full.  `copyAll_eq_iff` shows that
the destination ends up equal to the source exactly then.  The return value says less:
`Complete` may fail although 0 is returned.
-/

namespace Cowfs

variable {io : ℕ → IoStep} {src dst : Content}

/-! ## One chunk -/

lemma kernelRead_eq_nil {pos n : ℕ} : kernelRead src pos n = [] ↔ src.length ≤ pos := by
  unfold kernelRead
  rw [List.take_eq_nil_iff, List.drop_eq_nil_iff]
  constructor
  · intro h
    rcases h with h | h
    · omega
    · exact h
  · exact Or.inr

lemma length_kernelRead_pos {pos : ℕ} (h : pos < src.length) (n : ℕ) :
    0 < (kernelRead src pos n).length := by
  rw [List.length_pos_iff, ne_eq, kernelRead_eq_nil]
  omega

lemma length_kernelRead_le (src : Content) (pos n : ℕ) :
    (kernelRead src pos n).length ≤ src.length - pos := by
  unfold kernelRead
  rw [List.length_take, List.length_drop]
  omega

lemma length_kernelRead_le_buf (src : Content) (pos n : ℕ) :
    (kernelRead src pos n).length ≤ copyBufSize := by
  unfold kernelRead
  rw [List.length_take]
  have hbuf : 0 < copyBufSize := by decide
  omega

/-- The chunk read at `pos` continues the first `pos` bytes of the source. -/
lemma take_append_kernelRead (pos n : ℕ) :
    src.take pos ++ kernelRead src pos n = src.take (pos + (kernelRead src pos n).length) := by
  unfold kernelRead
  rw [List.take_add, List.length_take, ← List.take_eq_take_min]

/-! ## The results of the calls -/

/-- From iteration `i` and source position `pos` on, every chunk is read and accepted in full
until the end of the source is reached. -/
inductive Complete (io : ℕ → IoStep) (src : Content) : ℕ → ℕ → Prop
  | done {i pos : ℕ} (h : src.length ≤ pos) : Complete io src i pos
  | chunk {i pos n m : ℕ} (h : pos < src.length) (hr : (io i).read = .ok n)
      (hw : (io i).write = .ok m) (hm : (kernelRead src pos n).length ≤ m)
      (rest : Complete io src (i + 1) (pos + (kernelRead src pos n).length)) :
      Complete io src i pos

/-- The condition for the loop from its start. -/
def CompleteAll (io : ℕ → IoStep) (src : Content) : Prop := Complete io src 0 0

/-- One iteration of a loop whose destination position is its end. -/
lemma copyLoop_succ (io : ℕ → IoStep) (src dst : Content) (fuel i pos : ℕ) :
    copyLoop io src (fuel + 1) i pos dst.length dst =
      match (io i).read with
      | .error e => (some e, dst)
      | .ok n =>
        if kernelRead src pos n = [] then (none, dst)
        else
          match (io i).write with
          | .error e => (some e, dst)
          | .ok m =>
            copyLoop io src fuel (i + 1) (pos + (kernelRead src pos n).length)
              (dst ++ (kernelRead src pos n).take m).length
              (dst ++ (kernelRead src pos n).take m) := by
  rw [copyLoop]
  cases (io i).read with
  | error e => rfl
  | ok n =>
    dsimp only
    by_cases hnil : kernelRead src pos n = []
    · rw [if_pos hnil, if_pos hnil]
    · rw [if_neg hnil, if_neg hnil]
      cases (io i).write with
      | error e => rfl
      | ok m =>
        dsimp only
        rw [writeAt_end, List.length_append, List.length_take, ← List.take_eq_take_min]

/-- What an accepted write of at most `m` bytes adds to the destination. -/
lemma length_append_take (dst buf : Content) (m : ℕ) :
    (dst ++ buf.take m).length = dst.length + min m buf.length := by
  rw [List.length_append, List.length_take]

/-- What the loop writes is no longer than what it has left to read. -/
lemma length_copyLoop_le (io : ℕ → IoStep) (src : Content) (fuel i pos : ℕ) (dst : Content) :
    (copyLoop io src fuel i pos dst.length dst).2.length ≤ dst.length + (src.length - pos) := by
  induction fuel generalizing i pos dst with
  | zero => exact Nat.le_add_right _ _
  | succ fuel ih =>
    rw [copyLoop_succ]
    split
    · exact Nat.le_add_right _ _
    · next n hr =>
      split
      · exact Nat.le_add_right _ _
      · split
        · exact Nat.le_add_right _ _
        · next m hw =>
          have hrest := ih (i + 1) (pos + (kernelRead src pos n).length)
            (dst ++ (kernelRead src pos n).take m)
          have hchunk := length_kernelRead_le src pos n
          have hadd := length_append_take dst (kernelRead src pos n) m
          omega

/-- With complete results the destination, so far a copy of the first `pos` bytes, becomes a
copy of the source, and the result is that of the call at the end of the source. -/
lemma copyLoop_of_complete {fuel i pos : ℕ} (hfuel : src.length - pos < fuel)
    (h : Complete io src i pos) :
    (copyLoop io src fuel i pos (src.take pos).length (src.take pos)).2 = src := by
  induction h generalizing fuel with
  | @done i pos hpos =>
    have hall : src.take pos = src := List.take_of_length_le hpos
    cases fuel with
    | zero => exact hall
    | succ fuel =>
      rw [copyLoop_succ]
      split
      · exact hall
      · next n hr => rw [if_pos (kernelRead_eq_nil.2 hpos), hall]
  | @chunk i pos n m hpos hr hw hm rest ih =>
    obtain ⟨fuel, rfl⟩ : ∃ k, fuel = k + 1 := ⟨fuel - 1, by omega⟩
    have hlen := length_kernelRead_pos hpos n
    rw [copyLoop_succ, hr]
    dsimp only
    rw [if_neg (fun he => by rw [he] at hlen; exact absurd hlen (by simp)), hw]
    dsimp only
    rw [List.take_of_length_le hm, take_append_kernelRead]
    exact ih (by omega)

/-- A destination as long as the source, from a loop that had written as much as it had read,
means that nothing was lost. -/
lemma complete_of_copyLoop {fuel i pos : ℕ} {dst : Content} (hfuel : src.length - pos < fuel)
    (hpos : pos ≤ src.length) (hdst : dst.length = pos)
    (h : (copyLoop io src fuel i pos dst.length dst).2.length = src.length) :
    Complete io src i pos := by
  induction fuel generalizing i pos dst with
  | zero => omega
  | succ fuel ih =>
    rw [copyLoop_succ] at h
    by_cases hend : src.length ≤ pos
    · exact .done hend
    have hlt : pos < src.length := by omega
    -- the end of the source is not reached, so a loop that stopped here would be too short
    split at h
    · have : dst.length = src.length := h
      omega
    · next n hr =>
      have hlen := length_kernelRead_pos hlt n
      have hchunk := length_kernelRead_le src pos n
      rw [if_neg (fun he => hend (kernelRead_eq_nil.1 he))] at h
      split at h
      · have : dst.length = src.length := h
        omega
      · next m hw =>
        have hadd := length_append_take dst (kernelRead src pos n) m
        have hle := length_copyLoop_le io src fuel (i + 1) (pos + (kernelRead src pos n).length)
          (dst ++ (kernelRead src pos n).take m)
        rw [h] at hle
        have hm : (kernelRead src pos n).length ≤ m := by omega
        exact .chunk hlt hr hw hm (ih (by omega) (by omega) (by omega) h)

/-! ## The whole copy -/

lemma length_copyAll_le (io : ℕ → IoStep) (src : Content) :
    (copyAll io src).2.length ≤ src.length := by
  have hle := length_copyLoop_le io src (src.length + 1) 0 0 []
  rwa [List.length_nil, Nat.zero_add, Nat.sub_zero] at hle

/-- A copy of full length has lost nothing. -/
lemma completeAll_of_length (h : (copyAll io src).2.length = src.length) : CompleteAll io src :=
  complete_of_copyLoop (Nat.lt_succ_of_le (Nat.sub_le _ _)) (Nat.zero_le _) List.length_nil h

/-- **What a copy delivers.**  The destination equals the source exactly when every chunk is
read and accepted in full. -/
theorem copyAll_eq_iff (io : ℕ → IoStep) (src : Content) :
    (copyAll io src).2 = src ↔ CompleteAll io src := by
  constructor
  · intro h
    exact completeAll_of_length (congrArg List.length h)
  · intro h
    have hcopy := copyLoop_of_complete (Nat.lt_succ_of_le (Nat.sub_le _ _)) h
    rwa [List.take_zero, List.length_nil] at hcopy

/-- A copy of a copy is the content exactly when neither has lost anything. -/
theorem copyAll_twice_iff (io io' : ℕ → IoStep) (src : Content) :
    (copyAll io' (copyAll io src).2).2 = src ↔ CompleteAll io src ∧ CompleteAll io' src := by
  constructor
  · intro h
    have hle := length_copyAll_le io' (copyAll io src).2
    rw [h] at hle
    have hfirst : CompleteAll io src :=
      completeAll_of_length (Nat.le_antisymm (length_copyAll_le io src) hle)
    rw [(copyAll_eq_iff io src).2 hfirst, copyAll_eq_iff] at h
    exact ⟨hfirst, h⟩
  · rintro ⟨h, h'⟩
    rw [(copyAll_eq_iff io src).2 h, (copyAll_eq_iff io' src).2 h']

/-- A call of `kernel_write` that does not fail writes all it is offered. -/
def FullWrites (io : ℕ → IoStep) : Prop := ∀ i m, (io i).write = .ok m → copyBufSize ≤ m

/-- When no write is short, a loop that returns 0 has copied everything. -/
lemma complete_of_fullWrites (hfull : FullWrites io) {fuel i pos : ℕ} {dst dst' : Content}
    (hfuel : src.length - pos < fuel)
    (h : copyLoop io src fuel i pos dst.length dst = (none, dst')) : Complete io src i pos := by
  induction fuel generalizing i pos dst with
  | zero => omega
  | succ fuel ih =>
    rw [copyLoop_succ] at h
    split at h
    · cases h
    · next n hr =>
      split at h
      · next hnil => exact .done (kernelRead_eq_nil.1 hnil)
      · next hne =>
        have hlt : pos < src.length := by
          rw [kernelRead_eq_nil] at hne
          omega
        have hlen := length_kernelRead_pos hlt n
        split at h
        · cases h
        · next m hw =>
          have hbuf := length_kernelRead_le_buf src pos n
          have hm := hfull i m hw
          exact .chunk hlt hr hw (hbuf.trans hm) (ih (by omega) h)

theorem copyAll_of_fullWrites (hfull : FullWrites io) {dst : Content}
    (h : copyAll io src = (none, dst)) : dst = src := by
  have hcomplete : CompleteAll io src :=
    complete_of_fullWrites hfull (Nat.lt_succ_of_le (Nat.sub_le _ _)) h
  have hcopy := (copyAll_eq_iff io src).2 hcomplete
  rwa [h] at hcopy

lemma fullWrites_clean : FullWrites CopyFaults.clean.io := by
  intro i m hm
  cases hm
  exact le_rfl

/-- Without failures and short writes the copy succeeds. -/
theorem copyAll_clean (src : Content) : copyAll CopyFaults.clean.io src = (none, src) := by
  have hloop : ∀ fuel i pos (dst : Content), ∃ c,
      copyLoop CopyFaults.clean.io src fuel i pos dst.length dst = (none, c) := by
    intro fuel
    induction fuel with
    | zero => exact fun _ _ dst => ⟨dst, rfl⟩
    | succ fuel ih =>
      intro i pos dst
      rw [copyLoop_succ]
      dsimp only [CopyFaults.clean]
      split
      · exact ⟨dst, rfl⟩
      · exact ih _ _ _
  obtain ⟨c, hc⟩ := hloop (src.length + 1) 0 0 []
  have hsrc : c = src := copyAll_of_fullWrites fullWrites_clean hc
  unfold copyAll
  rw [← hsrc]
  rw [← hsrc] at hc
  exact hc

lemma completeAll_clean (src : Content) : CompleteAll CopyFaults.clean.io src := by
  apply (copyAll_eq_iff _ src).1
  rw [copyAll_clean]

/-! ## The bytes transferred -/

/-- What the calls transfer from iteration `i` and source position `pos` on, and the error the
loop ends with: it ends at a failing call, or when a read delivers nothing. -/
inductive Transfers (io : ℕ → IoStep) (src : Content) : ℕ → ℕ → Content → Status → Prop
  | readFails {i pos : ℕ} {e : Errno} (hr : (io i).read = .error e) :
      Transfers io src i pos [] (some e)
  | ends {i pos n : ℕ} (hr : (io i).read = .ok n) (h : src.length ≤ pos) :
      Transfers io src i pos [] none
  | writeFails {i pos n : ℕ} {e : Errno} (hr : (io i).read = .ok n) (h : pos < src.length)
      (hw : (io i).write = .error e) : Transfers io src i pos [] (some e)
  | chunk {i pos n m : ℕ} {d : Content} {err : Status} (hr : (io i).read = .ok n)
      (h : pos < src.length) (hw : (io i).write = .ok m)
      (rest : Transfers io src (i + 1) (pos + (kernelRead src pos n).length) d err) :
      Transfers io src i pos ((kernelRead src pos n).take m ++ d) err

lemma exists_transfers (io : ℕ → IoStep) (src : Content) (i pos : ℕ) :
    ∃ d err, Transfers io src i pos d err := by
  -- every chunk brings the source position nearer to the end
  induction hleft : src.length - pos using Nat.strong_induction_on generalizing i pos with
  | _ left ih =>
    rcases hr : (io i).read with e | n
    · exact ⟨[], _, .readFails hr⟩
    by_cases hend : src.length ≤ pos
    · exact ⟨[], _, .ends hr hend⟩
    have hlt : pos < src.length := by omega
    rcases hw : (io i).write with e | m
    · exact ⟨[], _, .writeFails hr hlt hw⟩
    have hlen := length_kernelRead_pos hlt n
    obtain ⟨d, err, hrest⟩ := ih (src.length - (pos + (kernelRead src pos n).length)) (by omega)
      (i + 1) (pos + (kernelRead src pos n).length) rfl
    exact ⟨_, err, .chunk hr hlt hw hrest⟩

lemma copyLoop_of_transfers {fuel i pos : ℕ} {d : Content} {err : Status}
    (hfuel : src.length - pos < fuel) (h : Transfers io src i pos d err) (dst : Content) :
    copyLoop io src fuel i pos dst.length dst = (err, dst ++ d) := by
  induction h generalizing fuel dst with
  | readFails hr =>
    obtain ⟨fuel, rfl⟩ : ∃ k, fuel = k + 1 := ⟨fuel - 1, by omega⟩
    rw [copyLoop_succ, hr, List.append_nil]
  | ends hr hpos =>
    obtain ⟨fuel, rfl⟩ : ∃ k, fuel = k + 1 := ⟨fuel - 1, by omega⟩
    rw [copyLoop_succ, hr, List.append_nil]
    exact if_pos (kernelRead_eq_nil.2 hpos)
  | @writeFails i pos n e hr hpos hw =>
    obtain ⟨fuel, rfl⟩ : ∃ k, fuel = k + 1 := ⟨fuel - 1, by omega⟩
    have hne : kernelRead src pos n ≠ [] := List.length_pos_iff.1 (length_kernelRead_pos hpos n)
    rw [copyLoop_succ, hr, List.append_nil]
    dsimp only
    rw [if_neg hne, hw]
  | @chunk i pos n m d err hr hpos hw rest ih =>
    obtain ⟨fuel, rfl⟩ : ∃ k, fuel = k + 1 := ⟨fuel - 1, by omega⟩
    have hlen := length_kernelRead_pos hpos n
    rw [copyLoop_succ, hr]
    dsimp only
    rw [if_neg (List.length_pos_iff.1 hlen), hw]
    dsimp only
    rw [ih (by omega), List.append_assoc]

/-- The copy is the trace of its calls. -/
theorem copyAll_iff_transfers {d : Content} {err : Status} :
    copyAll io src = (err, d) ↔ Transfers io src 0 0 d err := by
  have hcopy : ∀ {d err}, Transfers io src 0 0 d err → copyAll io src = (err, d) := fun h =>
    copyLoop_of_transfers (Nat.lt_succ_of_le (Nat.sub_le _ _)) h []
  constructor
  · intro h
    obtain ⟨d', err', htrans⟩ := exists_transfers io src 0 0
    cases h.symm.trans (hcopy htrans)
    exact htrans
  · exact hcopy

/-- No call of the loop fails. -/
def Ends (io : ℕ → IoStep) (src : Content) : Prop := ∃ d, Transfers io src 0 0 d none

theorem copyAll_success_iff : (copyAll io src).1 = none ↔ Ends io src := by
  constructor
  · intro h
    exact ⟨(copyAll io src).2, copyAll_iff_transfers.1 (Prod.ext h rfl)⟩
  · rintro ⟨d, hd⟩
    rw [copyAll_iff_transfers.2 hd]

end Cowfs
