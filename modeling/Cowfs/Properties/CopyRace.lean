import Cowfs.Construction.CopyThread
import Cowfs.Properties.CopyLoop

/-!
# What a copy among other writers saves

A copy that nobody disturbs is the loop of the sequential model (`undisturbed`).  Otherwise the
shadow file is put together from the contents the file had at successive moments: byte `i` is byte
`i` of the content of a moment, a later byte never of an earlier moment, and the end is where the
file ended at the last one (`copy_splices`).  Two conditions on the others make one content out of
it: where they change nothing that is still to be read, the copy is the content at its start
(`copy_of_start`), and where they change nothing that has been read, the content at its end
(`copy_of_end`).
-/

namespace Cowfs

open CopyThread

variable {s : CopyThread} {src : Content}

/-! ## Undisturbed -/

lemma iterate_done {r : Status} (h : s.result = some r) (io : IoStep) : s.iterate io = s := by
  unfold CopyThread.iterate
  rw [h]

lemma run_done {r : Status} (h : s.result = some r) (ios : List IoStep) :
    run CopyThread.step s (ios.map .iterate) = s := by
  induction ios with
  | nil => rfl
  | cons io ios ih =>
    rw [List.map_cons, run_cons]
    show run CopyThread.step (s.iterate io) _ = s
    rw [iterate_done h, ih]

lemma run_iterations (io : ℕ → IoStep) (fuel i : ℕ) (s : CopyThread) (hs : s.result = none)
    (hfuel : s.src.length - s.srcPos < fuel) :
    (run CopyThread.step s (((List.range' i fuel).map io).map .iterate)).result =
        some (copyLoop io s.src fuel i s.srcPos s.dstPos s.dst).1 ∧
      (run CopyThread.step s (((List.range' i fuel).map io).map .iterate)).dst =
        (copyLoop io s.src fuel i s.srcPos s.dstPos s.dst).2 := by
  induction fuel generalizing i s with
  | zero => omega
  | succ fuel ih =>
    rw [List.range'_succ, List.map_cons, List.map_cons, run_cons]
    unfold copyLoop
    have hstep : s.step (.iterate (io i)) = s.iterate (io i) := rfl
    rw [hstep]
    unfold CopyThread.iterate
    rw [hs]
    rcases hread : (io i).read with e | n
    · dsimp only
      rw [run_done rfl]
      exact ⟨rfl, rfl⟩
    · dsimp only
      split_ifs with hnil
      · rw [run_done rfl]
        exact ⟨rfl, rfl⟩
      · rcases hwrite : (io i).write with e | m
        · dsimp only
          rw [run_done rfl]
          exact ⟨rfl, rfl⟩
        · have hlt : s.srcPos < s.src.length := by
            by_contra hge
            exact hnil (kernelRead_eq_nil.2 (by omega))
          have hpos := length_kernelRead_pos hlt n
          refine ih (i + 1) _ rfl ?_
          dsimp only
          omega

/-- **Undisturbed**, the thread does what the sequential loop does. -/
theorem undisturbed (io : ℕ → IoStep) (src : Content) :
    (run CopyThread.step (start src)
        (((List.range' 0 (src.length + 1)).map io).map .iterate)).result =
        some (copyAll io src).1 ∧
      (run CopyThread.step (start src)
        (((List.range' 0 (src.length + 1)).map io).map .iterate)).dst = (copyAll io src).2 :=
  run_iterations io (src.length + 1) 0 (start src) rfl (by show src.length - 0 < _; omega)

/-! ## Disturbed -/

/-- A write to the shadow file that does not fail writes all it is offered. -/
def FullIteration : CopyAct → Prop
  | .iterate io => ∀ m, io.write = .ok m → copyBufSize ≤ m
  | _ => True

/-- The content of the file after the first `k` steps. -/
def contentAt (src : Content) (acts : List CopyAct) (k : ℕ) : Content :=
  (run CopyThread.step (start src) (acts.take k)).src

lemma contentAt_concat {past : List CopyAct} {k : ℕ} (h : k ≤ past.length) (a : CopyAct) :
    contentAt src (past ++ [a]) k = contentAt src past k := by
  rw [contentAt, contentAt, List.take_append_of_le_length h]

lemma contentAt_length (src : Content) (past : List CopyAct) :
    contentAt src past past.length = (run CopyThread.step (start src) past).src := by
  rw [contentAt, List.take_length]

/-- What an iteration can do when writes are full. -/
lemma iterate_cases {io : IoStep} (hfull : FullIteration (.iterate io)) (hs : s.result = none)
    (hdst : s.dstPos = s.dst.length) :
    (∃ e pos, s.iterate io = { s with srcPos := pos, result := some (some e) }) ∨
      (s.src.length ≤ s.srcPos ∧ s.iterate io = { s with result := some none }) ∨
      ∃ n, s.iterate io = { s with
        srcPos := s.srcPos + (kernelRead s.src s.srcPos n).length
        dstPos := s.dstPos + (kernelRead s.src s.srcPos n).length
        dst := s.dst ++ kernelRead s.src s.srcPos n } := by
  unfold CopyThread.iterate
  rw [hs]
  rcases io.read with e | n
  · exact .inl ⟨e, s.srcPos, rfl⟩
  · dsimp only
    split_ifs with hnil
    · exact .inr (.inl ⟨kernelRead_eq_nil.1 hnil, rfl⟩)
    · rcases hwrite : io.write with e | m
      · exact .inl ⟨e, _, rfl⟩
      · have hbuf := length_kernelRead_le_buf s.src s.srcPos n
        have hm := hfull m hwrite
        have hmin : min m (kernelRead s.src s.srcPos n).length =
            (kernelRead s.src s.srcPos n).length := by omega
        refine .inr (.inr ⟨n, ?_⟩)
        dsimp only
        rw [hmin, List.take_length, hdst, writeAt_end]

/-- The byte of the file a chunk has at a place behind the position. -/
lemma getElem?_kernelRead {pos i n : ℕ} (hi : i < (kernelRead src pos n).length) :
    (kernelRead src pos n)[i]? = src[pos + i]? := by
  unfold kernelRead at hi ⊢
  rw [List.length_take] at hi
  rw [List.getElem?_take_of_lt (by omega), List.getElem?_drop]

/-- The shadow file so far, put together. -/
structure Spliced (src : Content) (past : List CopyAct) (s : CopyThread) (τ : ℕ → ℕ) : Prop where
  mono : Monotone τ
  le : ∀ i, τ i ≤ past.length
  bytes : ∀ i < s.dst.length, s.dst[i]? = (contentAt src past (τ i))[i]?
  done : s.result = some none → (contentAt src past (τ s.dst.length)).length ≤ s.dst.length
  dstPos : s.dstPos = s.dst.length
  srcPos : s.result = none → s.srcPos = s.dst.length

/-- The moments of the bytes copied so far, and the present one for the others. -/
def later (τ : ℕ → ℕ) (len now : ℕ) (i : ℕ) : ℕ := if i < len then τ i else now

lemma monotone_later {τ : ℕ → ℕ} (hτ : Monotone τ) {len now : ℕ} (hnow : ∀ i, τ i ≤ now) :
    Monotone (later τ len now) := by
  intro i j hij
  unfold later
  split_ifs with hi hj
  · exact hτ hij
  · exact hnow i
  · omega
  · exact le_rfl

lemma later_le {τ : ℕ → ℕ} {len now : ℕ} (hnow : ∀ i, τ i ≤ now) (i : ℕ) :
    later τ len now i ≤ now := by
  unfold later
  split_ifs
  · exact hnow i
  · exact le_rfl

/-- A step that leaves the copy as it is. -/
lemma Spliced.same {past : List CopyAct} {τ : ℕ → ℕ} (h : Spliced src past s τ) (a : CopyAct)
    {s' : CopyThread} (hdst : s'.dst = s.dst) (hresult : s'.result = s.result)
    (hdstPos : s'.dstPos = s.dstPos) (hsrcPos : s'.srcPos = s.srcPos) :
    Spliced src (past ++ [a]) s' τ where
  mono := h.mono
  le i := by
    have hi := h.le i
    rw [List.length_append]
    omega
  bytes i hi := by
    rw [contentAt_concat (h.le i), hdst]
    exact h.bytes i (by rwa [hdst] at hi)
  done hdone := by
    rw [contentAt_concat (h.le _), hdst]
    exact h.done (by rwa [hresult] at hdone)
  dstPos := by rw [hdst, hdstPos, h.dstPos]
  srcPos hnone := by
    rw [hdst, hsrcPos]
    exact h.srcPos (by rwa [hresult] at hnone)

lemma Spliced.iterate {past : List CopyAct} {τ : ℕ → ℕ} (h : Spliced src past s τ)
    (hs : s = run CopyThread.step (start src) past) {io : IoStep}
    (hfull : FullIteration (.iterate io)) :
    ∃ τ', Spliced src (past ++ [.iterate io]) (s.iterate io) τ' := by
  rcases hresult : s.result with _ | r
  swap
  · rw [iterate_done hresult]
    exact ⟨τ, h.same _ rfl rfl rfl rfl⟩
  have hsrc := h.srcPos hresult
  have hnow : contentAt src past past.length = s.src := by rw [contentAt_length, hs]
  have hlen : (past ++ [CopyAct.iterate io]).length = past.length + 1 := by simp
  -- what is copied from now on is of the present moment
  have hold : ∀ i < s.dst.length, s.dst[i]? =
      (contentAt src (past ++ [.iterate io]) (later τ s.dst.length past.length i))[i]? := by
    intro i hi
    rw [later, if_pos hi, contentAt_concat (h.le i), h.bytes i hi]
  have hnew : ∀ i, s.dst.length ≤ i →
      contentAt src (past ++ [.iterate io]) (later τ s.dst.length past.length i) = s.src := by
    intro i hi
    rw [later, if_neg (by omega), contentAt_concat le_rfl, hnow]
  have hle : ∀ i, later τ s.dst.length past.length i ≤ (past ++ [CopyAct.iterate io]).length := by
    intro i
    have hi : later τ s.dst.length past.length i ≤ past.length := later_le h.le i
    omega
  refine ⟨later τ s.dst.length past.length, monotone_later h.mono h.le, hle, ?_, ?_, ?_, ?_⟩ <;>
    rcases iterate_cases hfull hresult h.dstPos with
      ⟨e, pos, hiter⟩ | ⟨hend, hiter⟩ | ⟨n, hiter⟩ <;>
    rw [hiter]
  · exact hold
  · exact hold
  · intro i hi
    dsimp only at hi ⊢
    rw [List.length_append] at hi
    by_cases hlt : i < s.dst.length
    · rw [List.getElem?_append_left hlt]
      exact hold i hlt
    · rw [List.getElem?_append_right (by omega), hnew i (by omega),
        getElem?_kernelRead (by omega), hsrc]
      congr 1
      omega
  · exact fun hdone => absurd hdone (by simp)
  · intro _
    dsimp only
    rw [hnew _ le_rfl]
    omega
  · exact fun hdone => absurd hdone (by simp [hresult])
  · exact h.dstPos
  · exact h.dstPos
  · dsimp only
    rw [List.length_append, h.dstPos]
  · exact fun hnone => absurd hnone (by simp)
  · exact fun hnone => absurd hnone (by simp)
  · intro _
    dsimp only
    rw [List.length_append, hsrc]

lemma spliced_run (src : Content) (acts : List CopyAct) (hfull : ∀ a ∈ acts, FullIteration a) :
    ∃ τ, Spliced src acts (run CopyThread.step (start src) acts) τ := by
  refine prefix_run (I := fun past s => ∃ τ, Spliced src past s τ) ?_ ?_
  · refine ⟨fun _ => 0, monotone_const, fun _ => le_rfl, ?_, ?_, rfl, fun _ => rfl⟩
    · exact fun i hi => absurd hi (by simp [start])
    · exact fun hdone => absurd hdone (by simp [start])
  · rintro past a post rfl ⟨τ, h⟩
    rcases a with io | ⟨pos, bytes⟩ | size
    · exact h.iterate rfl (hfull _ (by simp))
    · exact ⟨τ, h.same _ rfl rfl rfl rfl⟩
    · exact ⟨τ, h.same _ rfl rfl rfl rfl⟩

/-- **What is saved.**  Whatever others do to the file during the copy, when no write to the
shadow file is short and 0 is returned, every byte of the shadow file is the byte the file had
there at some moment, at no earlier moment than the bytes before, and at the last moment the file
was no longer than the copy. -/
theorem copy_splices (src : Content) (acts : List CopyAct) (hfull : ∀ a ∈ acts, FullIteration a)
    (hdone : (run CopyThread.step (start src) acts).result = some none) :
    ∃ τ : ℕ → ℕ, Monotone τ ∧ (∀ i, τ i ≤ acts.length) ∧
      (∀ i < (run CopyThread.step (start src) acts).dst.length,
        (run CopyThread.step (start src) acts).dst[i]? = (contentAt src acts (τ i))[i]?) ∧
      (contentAt src acts (τ (run CopyThread.step (start src) acts).dst.length)).length ≤
        (run CopyThread.step (start src) acts).dst.length := by
  obtain ⟨τ, h⟩ := spliced_run src acts hfull
  exact ⟨τ, h.mono, h.le, h.bytes, h.done hdone⟩

/-- An iteration that reads one byte. -/
def byteIteration : CopyAct := .iterate ⟨.ok 1, .ok copyBufSize⟩

/-- The copy of a file and one write by somebody else after its first byte. -/
def writtenBetween (pos : ℕ) (bytes : Content) : List CopyAct :=
  [byteIteration, .write pos bytes, byteIteration, byteIteration, byteIteration]

lemma fullIteration_writtenBetween (pos : ℕ) (bytes : Content) :
    ∀ a ∈ writtenBetween pos bytes, FullIteration a := by
  have hbyte : FullIteration byteIteration := fun m hm => (Except.ok.inj hm).le
  intro a ha
  simp only [writtenBetween, List.mem_cons, List.not_mem_nil, or_false] at ha
  rcases ha with rfl | rfl | rfl | rfl | rfl
  · exact hbyte
  · trivial
  · exact hbyte
  · exact hbyte
  · exact hbyte

/-- Both bytes are replaced by one write, and what is saved is a content the file never had. -/
theorem copy_splices_torn :
    (run CopyThread.step (start [1, 1]) (writtenBetween 0 [2, 2])).dst = [1, 2] ∧
      (∀ k ≤ 5, contentAt [1, 1] (writtenBetween 0 [2, 2]) k ≠ [1, 2]) ∧
      ∃ τ : ℕ → ℕ, Monotone τ ∧ (∀ i, τ i ≤ 5) ∧
        (∀ i < 2, [1, 2][i]? = (contentAt [1, 1] (writtenBetween 0 [2, 2]) (τ i))[i]?) ∧
        (contentAt [1, 1] (writtenBetween 0 [2, 2]) (τ 2)).length ≤ 2 :=
  ⟨by decide, by decide,
    copy_splices [1, 1] _ (fullIteration_writtenBetween 0 [2, 2]) (by decide)⟩

/-! ## One content -/

/-- While the copy runs, the others change nothing that is still to be read. -/
def LeavesUnread (s : CopyThread) : CopyAct → Prop
  | .iterate _ => True
  | a => s.result = none → (s.step a).src.drop s.srcPos = s.src.drop s.srcPos

/-- While the copy runs, the others change nothing that has been read. -/
def LeavesRead (s : CopyThread) : CopyAct → Prop
  | .iterate _ => True
  | a => s.result = none → (s.step a).src.take s.srcPos = s.src.take s.srcPos

/-- The chunk read at `pos` and what follows it. -/
lemma kernelRead_append_drop (src : Content) (pos n : ℕ) :
    kernelRead src pos n ++ src.drop (pos + (kernelRead src pos n).length) = src.drop pos := by
  have hsplit : src.take pos ++ (kernelRead src pos n ++
      src.drop (pos + (kernelRead src pos n).length)) = src.take pos ++ src.drop pos := by
    rw [← List.append_assoc, take_append_kernelRead, List.take_append_drop,
      List.take_append_drop]
  exact List.append_cancel_left hsplit

/-- What is copied and what is still to be read are the content at the start. -/
structure FromStart (src : Content) (s : CopyThread) : Prop where
  dstPos : s.dstPos = s.dst.length
  running : s.result = none → s.dst ++ s.src.drop s.srcPos = src
  done : s.result = some none → s.dst = src

lemma FromStart.step (h : FromStart src s) {a : CopyAct} (hfull : FullIteration a)
    (ha : LeavesUnread s a) : FromStart src (s.step a) := by
  rcases a with io | ⟨pos, bytes⟩ | size
  · show FromStart src (s.iterate io)
    rcases hresult : s.result with _ | r
    swap
    · rwa [iterate_done hresult]
    have hrunning := h.running hresult
    rcases iterate_cases hfull hresult h.dstPos with
      ⟨e, pos, hiter⟩ | ⟨hend, hiter⟩ | ⟨n, hiter⟩ <;>
      rw [hiter]
    · exact ⟨h.dstPos, fun hnone => absurd hnone (by simp), fun hdone => absurd hdone (by simp)⟩
    · refine ⟨h.dstPos, fun hnone => absurd hnone (by simp), fun _ => ?_⟩
      rwa [List.drop_of_length_le hend, List.append_nil] at hrunning
    · refine ⟨?_, fun _ => ?_, fun hdone => absurd hdone (by simp [hresult])⟩
      · dsimp only
        rw [List.length_append, h.dstPos]
      · dsimp only
        rw [List.append_assoc, kernelRead_append_drop, hrunning]
  · exact ⟨h.dstPos, fun hnone => (congrArg _ (ha hnone)).trans (h.running hnone), h.done⟩
  · exact ⟨h.dstPos, fun hnone => (congrArg _ (ha hnone)).trans (h.running hnone), h.done⟩

/-- **The content at the start** is saved where the others leave alone what is still to be read,
no write to the shadow file is short and 0 is returned. -/
theorem copy_of_start (src : Content) (acts : List CopyAct)
    (hfull : ∀ a ∈ acts, FullIteration a)
    (hothers : Along CopyThread.step LeavesUnread (start src) acts)
    (hdone : (run CopyThread.step (start src) acts).result = some none) :
    (run CopyThread.step (start src) acts).dst = src := by
  have hboth := (along_and CopyThread.step _ _ _ _).2
    ⟨along_of_forall CopyThread.step (fun a ha _ => hfull a ha) (start src), hothers⟩
  have hinit : FromStart src (start src) := ⟨rfl, fun _ => rfl, fun h => absurd h (by simp [start])⟩
  have hrun : FromStart src (run CopyThread.step (start src) acts) :=
    invariant_run (fun t a h ha => h.step ha.1 ha.2) hinit hboth
  exact hrun.done hdone

/-- A write to what has been read. -/
theorem copy_of_start_behind :
    (run CopyThread.step (start [1, 2]) (writtenBetween 0 [9])).dst = [1, 2] :=
  copy_of_start [1, 2] _ (fullIteration_writtenBetween 0 [9])
    ⟨trivial, fun _ => by decide, trivial, trivial, trivial, trivial⟩ (by decide)

/-- What is copied is what the file begins with, up to the end when the copy is done. -/
structure ToEnd (src : Content) (past : List CopyAct) (s : CopyThread) : Prop where
  dstPos : s.dstPos = s.dst.length
  running : s.result = none → s.dst = s.src.take s.srcPos
  done : s.result = some none → Sometime CopyThread.step (fun t a => t.result = none ∧
    (t.step a).result = some none ∧ t.src = s.dst) (start src) past

lemma ToEnd.step {past : List CopyAct} (h : ToEnd src past s)
    (hs : s = run CopyThread.step (start src) past) {a : CopyAct} (hfull : FullIteration a)
    (ha : LeavesRead s a) : ToEnd src (past ++ [a]) (s.step a) := by
  rcases a with io | ⟨pos, bytes⟩ | size
  · rcases hresult : s.result with _ | r
    swap
    · have hstep : s.step (.iterate io) = s := iterate_done hresult io
      rw [hstep]
      exact ⟨h.dstPos, h.running, fun hdone => (h.done hdone).concat _ _⟩
    have hrunning := h.running hresult
    have hstep : s.step (.iterate io) = s.iterate io := rfl
    rcases iterate_cases hfull hresult h.dstPos with ⟨e, pos, hiter⟩ | ⟨hend, hiter⟩ | ⟨n, hiter⟩
    · rw [hstep, hiter]
      exact ⟨h.dstPos, fun hnone => absurd hnone (by simp), fun hdone => absurd hdone (by simp)⟩
    · refine ⟨?_, ?_, fun _ => ?_⟩
      · rw [hstep, hiter]
        exact h.dstPos
      · rw [hstep, hiter]
        exact fun hnone => absurd hnone (by simp)
      · -- the end is reached here
        rw [List.take_of_length_le hend] at hrunning
        refine Sometime.last _ ?_
        rw [← hs]
        refine ⟨hresult, ?_, ?_⟩
        · rw [hstep, hiter]
        · rw [hstep, hiter]
          exact hrunning.symm
    · rw [hstep, hiter]
      refine ⟨?_, fun _ => ?_, fun hdone => absurd hdone (by simp [hresult])⟩
      · dsimp only
        rw [List.length_append, h.dstPos]
      · dsimp only
        rw [hrunning, take_append_kernelRead]
  · exact ⟨h.dstPos, fun hnone => (h.running hnone).trans (ha hnone).symm,
      fun hdone => (h.done hdone).concat _ _⟩
  · exact ⟨h.dstPos, fun hnone => (h.running hnone).trans (ha hnone).symm,
      fun hdone => (h.done hdone).concat _ _⟩

/-- **The content at the end** is saved where the others leave alone what has been read, no write
to the shadow file is short and 0 is returned: it is the content of the file when the last read
finds nothing more. -/
theorem copy_of_end (src : Content) (acts : List CopyAct) (hfull : ∀ a ∈ acts, FullIteration a)
    (hothers : Along CopyThread.step LeavesRead (start src) acts)
    (hdone : (run CopyThread.step (start src) acts).result = some none) :
    Sometime CopyThread.step (fun t a => t.result = none ∧ (t.step a).result = some none ∧
      t.src = (run CopyThread.step (start src) acts).dst) (start src) acts := by
  have hinit : ToEnd src [] (start src) := ⟨rfl, fun _ => rfl, fun h => absurd h (by simp [start])⟩
  refine (prefix_run (I := fun past s => ToEnd src past s) hinit ?_).done hdone
  rintro past a post rfl h
  exact h.step rfl (hfull a (by simp)) hothers.at

/-- A write to what is still to be read. -/
theorem copy_of_end_ahead :
    Sometime CopyThread.step (fun t a => t.result = none ∧ (t.step a).result = some none ∧
      t.src = (run CopyThread.step (start [1, 2]) (writtenBetween 1 [7, 8])).dst) (start [1, 2])
      (writtenBetween 1 [7, 8]) :=
  copy_of_end [1, 2] _ (fullIteration_writtenBetween 1 [7, 8])
    ⟨trivial, fun _ => by decide, trivial, trivial, trivial, trivial⟩ (by decide)

end Cowfs
