import Cowfs.Construction.Readdir
import Cowfs.Framework.Run

/-!
# Directory listings

However the reads of a directory are cut, each goes on where the lower file stands: what was
delivered and what is still to come are together the visible entries from that position
(`reads_spec`).  From the opening of a directory this is the whole listing.  A seek moves the
upper file only, and the next read does not look there, so the listing after a seek is right
exactly when the lower file stands where the seek goes, or nothing visible lies between.
-/

namespace Cowfs

variable {d : DirData}

/-- The names a listing shows. -/
def visible (es : List (ℕ × DirEntry)) : List DirEntry :=
  (es.map Prod.snd).filter fun e => decide (e.name ≠ shadowDir)

/-- The comparison of `cowfs_filldir` is equality. -/
lemma hides_iff (name : CStr) :
    (name.length = shadowDir.length ∧ name.take name.length = shadowDir.take name.length) ↔
      name = shadowDir := by
  constructor
  · rintro ⟨hlen, htake⟩
    rwa [List.take_length, hlen, List.take_length] at htake
  · rintro rfl
    exact ⟨rfl, rfl⟩

/-! ## The order of the entries -/

/-- Reading from the offset of an entry starts with this entry. -/
lemma entriesFrom_of_split {pos : ℕ} {xs ys : List (ℕ × DirEntry)} {e : ℕ × DirEntry}
    (h : d.entriesFrom pos = xs ++ e :: ys) : d.entriesFrom e.1 = e :: ys := by
  have hpos : pos ≤ e.1 := by
    have hmem : e ∈ d.entriesFrom pos := by simp [h]
    simpa using (List.mem_filter.1 hmem).2
  have hfilter : d.entriesFrom e.1 = (d.entriesFrom pos).filter fun e' => decide (e.1 ≤ e'.1) := by
    unfold DirData.entriesFrom
    rw [List.filter_filter]
    apply List.filter_congr
    intro e' _
    rw [← Bool.decide_and, decide_eq_decide]
    omega
  have hsorted : (xs ++ e :: ys).Pairwise fun e e' => e.1 < e'.1 := by
    rw [← h]
    exact d.sorted.sublist List.filter_sublist
  rw [List.pairwise_append, List.pairwise_cons] at hsorted
  obtain ⟨-, ⟨hys, -⟩, hxs⟩ := hsorted
  have hbefore : xs.filter (fun e' => decide (e.1 ≤ e'.1)) = [] := by
    rw [List.filter_eq_nil_iff]
    intro x hx
    have := hxs x hx e List.mem_cons_self
    simpa using this
  have hafter : ys.filter (fun e' => decide (e.1 ≤ e'.1)) = ys := by
    rw [List.filter_eq_self]
    intro y hy
    have := hys y hy
    simpa using this.le
  rw [hfilter, h, List.filter_append, hbefore, List.nil_append, List.filter_cons_of_pos (by simp),
    hafter]

lemma entriesFrom_end {pos : ℕ} (h : d.endPos ≤ pos) : d.entriesFrom pos = [] := by
  unfold DirData.entriesFrom
  rw [List.filter_eq_nil_iff]
  intro e he
  have := d.bounded e he
  simp only [decide_eq_true_eq]
  omega

/-! ## One read -/

section Filldir

variable {room : Room} {pos : ℕ} {acc : Delivered} {e : DirEntry}

lemma cowfsFilldir_hidden (h : e.name = shadowDir) :
    cowfsFilldir room pos acc e = (true, acc) := by
  unfold cowfsFilldir
  rw [if_pos ((hides_iff _).2 h)]

lemma cowfsFilldir_taken (h : e.name ≠ shadowDir) (hroom : room acc e = true) :
    cowfsFilldir room pos acc e = (true, acc ++ [(pos, e)]) := by
  unfold cowfsFilldir dirEmit
  rw [if_neg fun hh => h ((hides_iff _).1 hh), if_pos hroom]

lemma cowfsFilldir_refused (h : e.name ≠ shadowDir) (hroom : ¬ room acc e = true) :
    cowfsFilldir room pos acc e = (false, acc) := by
  unfold cowfsFilldir dirEmit
  rw [if_neg fun hh => h ((hides_iff _).1 hh), if_neg hroom]

end Filldir

/-- What the loop hands over, and where it stops. -/
lemma emitEntries_spec (room : Room) (pos : ℕ) (acc : Delivered) {es xs : List (ℕ × DirEntry)}
    {endPos start : ℕ} (hfrom : d.entriesFrom start = xs ++ es)
    (hend : d.endPos ≤ endPos) :
    (emitEntries (cowfsFilldir room pos) endPos es acc).1.map Prod.snd ++
        visible (d.entriesFrom (emitEntries (cowfsFilldir room pos) endPos es acc).2) =
      acc.map Prod.snd ++ visible es := by
  induction es generalizing acc xs with
  | nil => simp [emitEntries, entriesFrom_end hend, visible]
  | cons e es ih =>
    have hnext : d.entriesFrom start = (xs ++ [e]) ++ es := by simp [hfrom]
    by_cases hhidden : e.2.name = shadowDir
    · -- skipped
      simp only [emitEntries, cowfsFilldir_hidden hhidden]
      rw [ih _ hnext]
      simp [visible, hhidden]
    by_cases hroom : room acc e.2 = true
    · simp only [emitEntries, cowfsFilldir_taken hhidden hroom]
      rw [ih _ hnext]
      simp [visible, hhidden]
    · -- refused, and left for the next call
      simp only [emitEntries, cowfsFilldir_refused hhidden hroom]
      rw [entriesFrom_of_split hfrom]

/-- **One read** delivers visible entries from where the lower file stands, and leaves the rest. -/
theorem read_spec (d : DirData) (f : OpenDir) (room : Room) :
    dirSeen d f (.read room) ++ visible (d.entriesFrom (dirStep d f (.read room)).lowerPos) =
      visible (d.entriesFrom f.lowerPos) := by
  have hfrom : d.entriesFrom f.lowerPos = [] ++ d.entriesFrom f.lowerPos := rfl
  exact emitEntries_spec room f.fPos [] hfrom (le_max_right f.lowerPos d.endPos)

/-! ## Reading on -/

/-- Reads, one after the other. -/
def reads (rooms : List Room) : List DirCall := rooms.map .read

/-- What was delivered and what is to come. -/
theorem reads_spec (d : DirData) (f : OpenDir) (rooms : List Room) :
    observe (dirStep d) (dirSeen d) f (reads rooms) ++
        visible (d.entriesFrom (run (dirStep d) f (reads rooms)).lowerPos) =
      visible (d.entriesFrom f.lowerPos) := by
  induction rooms generalizing f with
  | nil => rfl
  | cons room rooms ih =>
    have hrest := ih (dirStep d f (.read room))
    show (dirSeen d f (.read room) ++ _) ++ _ = _
    rw [List.append_assoc]
    exact (congrArg _ hrest).trans (read_spec d f room)

/-- Reading got to the end: the lower file has no further entry. -/
def AtEnd (d : DirData) (f : OpenDir) : Prop := d.entriesFrom f.lowerPos = []

lemma reads_to_end {f : OpenDir} {rooms : List Room}
    (hend : AtEnd d (run (dirStep d) f (reads rooms))) :
    observe (dirStep d) (dirSeen d) f (reads rooms) = visible (d.entriesFrom f.lowerPos) := by
  have hspec := reads_spec d f rooms
  rw [hend] at hspec
  simpa [visible] using hspec

/-- A buffer in which everything fits gets to the end. -/
lemma atEnd_unbounded (d : DirData) (f : OpenDir) :
    AtEnd d (run (dirStep d) f (reads [fun _ _ => true])) := by
  have hpos : ∀ es acc endPos,
      (emitEntries (cowfsFilldir (fun _ _ => true) f.fPos) endPos es acc).2 = endPos := by
    intro es
    induction es with
    | nil => intro acc endPos; rfl
    | cons e es ih =>
      intro acc endPos
      by_cases hhidden : e.2.name = shadowDir
      · simp only [emitEntries, cowfsFilldir_hidden hhidden]
        exact ih acc endPos
      · have htaken : cowfsFilldir (fun _ _ => true) f.fPos acc e.2 = _ :=
          cowfsFilldir_taken hhidden rfl
        simp only [emitEntries, htaken]
        exact ih _ endPos
  show d.entriesFrom (dirStep d f (.read fun _ _ => true)).lowerPos = []
  apply entriesFrom_end
  simp only [dirStep, dirExec, cowfsIterateShared, iterateDir, hpos]
  exact le_max_right _ _

/-- **Directory listings.**  For every directory: reading from the opening to the end delivers
the visible entries, each once and in order, however the reads are cut; and after any calls and a
seek, reading to the end always delivers the visible entries from the offset sought if and only if
these are the visible entries from where the lower file stands. -/
theorem listing_iff (d : DirData) :
    (∀ rooms, AtEnd d (run (dirStep d) .opened (reads rooms)) →
      observe (dirStep d) (dirSeen d) .opened (reads rooms) = visible d.entries) ∧
    ∀ past offset,
      (∀ rooms, AtEnd d (run (dirStep d) .opened (past ++ .seek offset :: reads rooms)) →
        observe (dirStep d) (dirSeen d) (run (dirStep d) .opened (past ++ [.seek offset]))
          (reads rooms) = visible (d.entriesFrom offset)) ↔
      visible (d.entriesFrom offset) =
        visible (d.entriesFrom (run (dirStep d) .opened past).lowerPos) := by
  constructor
  · intro rooms hend
    rw [reads_to_end hend]
    simp [DirData.entriesFrom, OpenDir.opened]
  · intro past offset
    -- the seek leaves the lower file where it is
    have hlower : (run (dirStep d) .opened (past ++ [.seek offset])).lowerPos =
        (run (dirStep d) .opened past).lowerPos := by
      rw [run_concat]
      rfl
    have hrun : ∀ rooms, run (dirStep d) .opened (past ++ .seek offset :: reads rooms) =
        run (dirStep d) (run (dirStep d) .opened (past ++ [.seek offset])) (reads rooms) := by
      intro rooms
      rw [← run_append, List.append_assoc]
      rfl
    constructor
    · intro h
      have hend := atEnd_unbounded d (run (dirStep d) .opened (past ++ [.seek offset]))
      rw [← h _ (by rw [hrun]; exact hend), reads_to_end hend, hlower]
    · intro h rooms hend
      rw [hrun] at hend
      rw [reads_to_end hend, hlower, h]

/-- A directory with the shadow directory between two files. -/
def sampleDir : DirData where
  entries := [(0, ⟨['a'], 10, 8⟩), (1, ⟨shadowDir, 11, 4⟩), (2, ⟨['b'], 12, 8⟩)]
  sorted := by decide
  endPos := 3
  bounded := by decide

/-- A buffer for one entry, and one for many: the listing comes in two parts. -/
theorem listing_cut :
    observe (dirStep sampleDir) (dirSeen sampleDir) .opened
        (reads [fun delivered _ => delivered.isEmpty, fun _ _ => true]) =
          visible sampleDir.entries ∧
      visible sampleDir.entries = [⟨['a'], 10, 8⟩, ⟨['b'], 12, 8⟩] := by
  refine ⟨(listing_iff sampleDir).1 _ ?_, by decide⟩
  unfold AtEnd
  decide

/-- It is read to the end and read again from the start: nothing comes. -/
theorem listing_rewound :
    AtEnd sampleDir (run (dirStep sampleDir) .opened
        ([.read fun _ _ => true] ++ .seek 0 :: reads [fun _ _ => true])) ∧
      observe (dirStep sampleDir) (dirSeen sampleDir)
        (run (dirStep sampleDir) .opened ([.read fun _ _ => true] ++ [.seek 0]))
        (reads [fun _ _ => true]) = [] ∧
      visible (sampleDir.entriesFrom 0) = [⟨['a'], 10, 8⟩, ⟨['b'], 12, 8⟩] := by
  refine ⟨?_, by decide, by decide⟩
  unfold AtEnd
  decide

end Cowfs
