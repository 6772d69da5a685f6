import Cowfs.Framework.UndoLog
import Cowfs.Properties.Archive
import Cowfs.Properties.FileCalls

/-!
# The history of one file

A run works on one file: sessions are opened on it and written through, its size and attributes
are set, it is renamed within its directory to free names, and the collector may pass.  `Track`
follows the run with what is not in the state: the name the file has come to, the sessions
opened, and the entries recorded.

The entries are an undo log of the file.  Most calls record an entry that undoes them exactly.
A write through a descriptor with `snapshot_taken` set records none; but the flag is set by a
call that recorded the content, so its entry is in the log and absorbs the write.
-/

namespace Cowfs

open KeyedLog

variable {env : Env} {f dir : Fid} {ino : UInt64}

/-! ## What is to be brought back -/

/-- What a user sees of a file, and the names around it. -/
@[ext] structure FileView where
  data : Content
  mode : Umode
  uid : UInt32
  gid : UInt32
  entries : Fid → CStr → Option Fid
  name : CStr

/-- The file `f`, under `name` in a directory at hand. -/
def Lower.view (l : Lower) (f : Fid) (name : CStr) : FileView :=
  ⟨l.content f, (l.getattr f).mode, (l.getattr f).uid, (l.getattr f).gid, l.entries, name⟩

/-- The entries after `f` moves from `n₁` to `n₂` inside `dir`. -/
def movedName (entries : Fid → CStr → Option Fid) (dir : Fid) (n₁ n₂ : CStr) (f : Fid) :
    Fid → CStr → Option Fid :=
  fun d n => if d = dir ∧ n = n₂ then some f else if d = dir ∧ n = n₁ then none else entries d n

/-- Bring back what the version of an entry saved. -/
def undoEntry (f dir : Fid) (e : CowVersion × Content) (F : FileView) : FileView where
  data := if e.1.hasData then e.2 else F.data
  mode := if e.1.opType = .setattr then e.1.savedStat.mode else F.mode
  uid := if e.1.opType = .setattr then e.1.savedStat.uid else F.uid
  gid := if e.1.opType = .setattr then e.1.savedStat.gid else F.gid
  entries :=
    if e.1.opType = .rename then movedName F.entries dir F.name e.1.origName f else F.entries
  name := if e.1.opType = .rename then e.1.origName else F.name

/-- An entry of a file that is there; if it saved a name, then nothing else, and the name is
free. -/
def EntryFits (dir : Fid) (e : CowVersion × Content) (F : FileView) : Prop :=
  e.1.opType ≠ .unlink ∧
    (e.1.opType = .rename → e.1.hasData = false ∧ F.entries dir e.1.origName = none)

/-- The two differ in the content of the file at most. -/
def SameButData (F G : FileView) : Prop := ∃ c, G = { F with data := c }

lemma SameButData.undo (e : CowVersion × Content) {F G : FileView} (h : SameButData F G) :
    SameButData (undoEntry f dir e F) (undoEntry f dir e G) := by
  obtain ⟨c, rfl⟩ := h
  exact ⟨if e.1.hasData then e.2 else c, rfl⟩

lemma SameButData.fits (e : CowVersion × Content) {F G : FileView} (h : SameButData F G)
    (hf : EntryFits dir e F) : EntryFits dir e G := by
  obtain ⟨c, rfl⟩ := h
  exact hf

/-- An entry with data makes up for any difference in content. -/
lemma SameButData.collapse {e : CowVersion × Content} (he : e.1.hasData = true) {F G : FileView}
    (h : SameButData F G) : undoEntry f dir e F = undoEntry f dir e G := by
  obtain ⟨c, rfl⟩ := h
  unfold undoEntry
  rw [he]
  rfl

/-! ## The run -/

structure Track where
  name : CStr
  opened : List Fd
  recorded : List (CowVersion × Content)
  deriving DecidableEq

/-- At the start of a run. -/
def Track.start (name : CStr) : Track := ⟨name, [], []⟩

def Track.next (t : Track) (s : State) (op : Op) : Track where
  name :=
    match op with
    | .rename _ _ _ n₂ _ _ _ _ _ => n₂
    | _ => t.name
  opened :=
    match op with
    | .open fd _ _ _ => fd :: t.opened
    | _ => t.opened
  recorded := recordedBy s op ++ t.recorded

def trackStep (env : Env) (p : State × Track) (op : Op) : State × Track :=
  (step env p.1 op, p.2.next p.1 op)

/-- A call on the file `f`, which is in `dir`, or a pass of the collector that expires none of
the entries. -/
def OnFile (f dir : Fid) (s : State) (t : Track) : Op → Prop
  | .open _ g _ _ => g = f
  | .release _ => True
  | .write fd _ _ _ _ _ => fd ∈ t.opened
  | .setattr g _ _ _ _ => g = f
  | .rename d₁ n₁ d₂ n₂ flags _ _ _ _ =>
    d₁ = dir ∧ n₁ = t.name ∧ d₂ = dir ∧ s.lower.entries dir n₂ = none ∧
      flags.whiteout = false ∧ n₁.length < pathBufSize
  | .gc now windowSeconds _ =>
    ∀ e ∈ t.recorded, expired (gcCutoff now windowSeconds) e.1 = false
  | _ => False

instance (f dir : Fid) (s : State) (t : Track) : ∀ op, Decidable (OnFile f dir s t op)
  | .open _ g _ _ => inferInstanceAs (Decidable (g = f))
  | .release _ => inferInstanceAs (Decidable True)
  | .write fd _ _ _ _ _ => inferInstanceAs (Decidable (fd ∈ t.opened))
  | .setattr g _ _ _ _ => inferInstanceAs (Decidable (g = f))
  | .rename d₁ n₁ d₂ n₂ flags _ _ _ _ => inferInstanceAs (Decidable (d₁ = dir ∧ n₁ = t.name ∧
      d₂ = dir ∧ s.lower.entries dir n₂ = none ∧ flags.whiteout = false ∧
      n₁.length < pathBufSize))
  | .gc now windowSeconds _ => inferInstanceAs (Decidable
      (∀ e ∈ t.recorded, expired (gcCutoff now windowSeconds) e.1 = false))
  | .mount .. => inferInstanceAs (Decidable False)
  | .umount => inferInstanceAs (Decidable False)
  | .make .. => inferInstanceAs (Decidable False)
  | .link .. => inferInstanceAs (Decidable False)
  | .rmdir .. => inferInstanceAs (Decidable False)
  | .unlink .. => inferInstanceAs (Decidable False)
  | .rollback .. => inferInstanceAs (Decidable False)

/-- The call is on the file, it succeeds, and nothing fails in its snapshot. -/
structure FileStep (env : Env) (f dir : Fid) (p : State × Track) (op : Op) : Prop where
  onFile : OnFile f dir p.1 p.2 op
  success : (exec env p.1 op).1 = none
  clean : ∀ x ∈ snapshotOf p.1 op, x.Clean env p.1.store
  stat : ∀ x ∈ snapshotOf p.1 op, x.φ.getattr = false

/-- Without faults the calls of the snapshot do not fail, once the copy finds its place. -/
lemma fileStep_of_clean {p : State × Track} {op : Op} (hon : OnFile f dir p.1 p.2 op)
    (hsuccess : (exec env p.1 op).1 = none) (hφ : ∀ φ, op.faults = some φ → φ = .clean)
    (hcopy : ∀ x ∈ snapshotOf p.1 op, (x.copy env p.1.store).1 = none) :
    FileStep env f dir p op where
  onFile := hon
  success := hsuccess
  clean x hx := Snapshot.clean_of_faults (hφ x.φ (snapshotOf_spec hx).2.2) (hcopy x hx)
  stat x hx := by
    rw [hφ x.φ (snapshotOf_spec hx).2.2]
    rfl

lemma run_trackStep_fst (env : Env) (s : State) (t : Track) (ops : List Op) :
    (run (trackStep env) (s, t) ops).1 = run (step env) s ops := by
  induction ops generalizing s t with
  | nil => rfl
  | cons op ops ih => exact ih _ _

lemma recorded_run_le (env : Env) (s : State) (t : Track) (ops : List Op) :
    t.recorded.length ≤ (run (trackStep env) (s, t) ops).2.recorded.length := by
  induction ops generalizing s t with
  | nil => exact le_rfl
  | cons op ops ih =>
    have hnext : t.recorded.length ≤ (t.next s op).recorded.length := by
      show _ ≤ (recordedBy s op ++ t.recorded).length
      rw [List.length_append]
      omega
    exact hnext.trans (ih _ _)

/-! ## The effects of the calls -/

section Effects

variable {s : State}

lemma cowfsRename_moved {d₁ d₂ : Fid} {n₁ n₂ : CStr} {flags : RenameFlags} {inoW now : UInt64}
    {φ : SnapFaults} {err : Status} (hf : s.lower.entries d₁ n₁ = some f)
    (hfree : s.lower.entries d₂ n₂ = none) (hwhite : flags.whiteout = false)
    (h : (cowfsRename env s d₁ n₁ d₂ n₂ flags inoW now φ err).1 = none) :
    ∃ sbi i, s.lower.inodes f = some i ∧
      snapshotOf s (.rename d₁ n₁ d₂ n₂ flags inoW now φ err) =
        some ⟨.rename n₁, f, i, sbi, now, φ⟩ ∧
      (cowfsRename env s d₁ n₁ d₂ n₂ flags inoW now φ err).2.lower =
        s.lower.moveEntry d₁ n₁ d₂ n₂ f (s.lower.linked _ _ _ hf) ∧
      (cowfsRename env s d₁ n₁ d₂ n₂ flags inoW now φ err).2.fds = s.fds := by
  obtain ⟨i, hi⟩ := Option.isSome_iff_exists.1 (s.lower.linked _ _ _ hf)
  have hat : s.lower.inodeAt d₁ n₁ = some i := by
    rw [Lower.inodeAt, hf]
    exact hi
  cases hm : s.mount with
  | none => simp [cowfsRename, hm] at h
  | some sbi =>
    simp only [cowfsRename, snapshotOf, hm, hat, hf, hi, Option.bind_eq_bind,
      Option.bind_some] at h ⊢
    have hcases := vfsRename_cases s.lower d₁ n₁ d₂ n₂ flags inoW now.toNat err
    rw [h] at hcases
    generalize (vfsRename s.lower d₁ n₁ d₂ n₂ flags inoW now.toNat err).2 = l' at hcases ⊢
    have hno : ∀ g, s.lower.entries d₂ n₂ ≠ some g := by
      intro g hg
      rw [hfree] at hg
      cases hg
    cases hcases with
    | linked _ h₂ => exact absurd h₂ (hno _)
    | exchanged _ h₂ _ _ _ => exact absurd h₂ (hno _)
    | whitened _ _ _ _ hw _ =>
      rw [hwhite] at hw
      cases hw
    | @moved f' h₁ =>
      obtain rfl : f = f' := Option.some.inj (hf.symm.trans h₁)
      exact ⟨sbi, i, rfl, rfl, rfl, trivial⟩

end Effects

/-! ## Entries undo their calls -/

section Views

variable {l : Lower} {name : CStr}

lemma view_setData (h : (l.inodes f).isSome) (c : Content) (now : ℕ) :
    (l.setData f c now).view f name = { l.view f name with data := c } := by
  obtain ⟨hm, hu, hg⟩ := setData_getattr l f c now f
  unfold Lower.view
  rw [Lower.setData_content h, hm, hu, hg]
  rfl

/-- The entry of a write or of a truncation brings the content back. -/
lemma undo_write {sbi : SbInfo} {i : Inode} {now : UInt64} {φ : SnapFaults} {node : ℕ}
    (hi : l.inodes f = some i) (c : Content) (t : ℕ) :
    undoEntry f dir ((⟨.write, f, i, sbi, now, φ⟩ : Snapshot).version node true, i.data)
      ((l.setData f c t).view f name) = l.view f name := by
  have hsome : (l.inodes f).isSome := by
    rw [hi]
    rfl
  have hdata : l.content f = i.data := content_eq hi
  rw [view_setData hsome]
  unfold undoEntry Lower.view
  rw [hdata]
  rfl

lemma undo_setattr {sbi : SbInfo} {i : Inode} {now : UInt64} {φ : SnapFaults} {node : ℕ}
    (hi : l.inodes f = some i) (hφ : φ.getattr = false) (attr : Iattr) (sized : Bool)
    (hsized : attr.iaSize.isSome = sized) (t : ℕ) :
    undoEntry f dir ((⟨.setattr sized, f, i, sbi, now, φ⟩ : Snapshot).version node sized, i.data)
      ((l.modify f (setattrInode attr t)).view f name) = l.view f name := by
  have hstat : snapStat i φ = ⟨i.mode, i.uid, i.gid, i.mtime⟩ := by
    simp [snapStat, hφ]
  have hdata : sized = false →
      (l.modify f (setattrInode attr t)).content f = l.content f := by
    rintro rfl
    exact content_setattr_of_unsized l f f t (by simpa using hsized)
  have hcontent : l.content f = i.data := content_eq hi
  unfold undoEntry Lower.view Snapshot.version
  simp only [SnapKind.op, if_true, hstat, reduceCtorEq, if_false, Lower.modify_entries]
  rw [getattr_eq hi]
  cases sized with
  | true => simp [hcontent]
  | false => simp [hdata rfl]

lemma moveEntry_entries_eq {n₁ n₂ : CStr} (h : (l.inodes f).isSome) :
    (l.moveEntry dir n₁ dir n₂ f h).entries = movedName l.entries dir n₁ n₂ f := rfl

/-- Moving to a free name and back restores the entries. -/
lemma movedName_back {n₁ n₂ : CStr} {entries : Fid → CStr → Option Fid}
    (h₁ : entries dir n₁ = some f) (h₂ : entries dir n₂ = none) :
    movedName (movedName entries dir n₁ n₂ f) dir n₂ n₁ f = entries := by
  funext d n
  unfold movedName
  split
  · next h =>
    rw [h.1, h.2, h₁]
  · split
    · next h =>
      rw [h.1, h.2, h₂]
    · rfl

/-- The entry of a rename brings the name back, which nobody has taken. -/
lemma undo_rename {n₁ n₂ : CStr} (h₁ : l.entries dir n₁ = some f)
    (h₂ : l.entries dir n₂ = none) (hlen : n₁.length < pathBufSize) (h : (l.inodes f).isSome)
    (sbi : SbInfo) (i : Inode) (now : UInt64) (φ : SnapFaults) (node : ℕ) :
    EntryFits dir ((⟨.rename n₁, f, i, sbi, now, φ⟩ : Snapshot).version node false, i.data)
        ((l.moveEntry dir n₁ dir n₂ f h).view f n₂) ∧
      undoEntry f dir ((⟨.rename n₁, f, i, sbi, now, φ⟩ : Snapshot).version node false, i.data)
        ((l.moveEntry dir n₁ dir n₂ f h).view f n₂) = l.view f n₁ := by
  have horig : strscpy pathBufSize n₁ = n₁ := strscpy_of_lt hlen
  have hplace : ¬ (dir = dir ∧ n₁ = n₂) := by
    rintro ⟨-, rfl⟩
    rw [h₂] at h₁
    cases h₁
  simp only [EntryFits, undoEntry, Lower.view, Snapshot.version, SnapKind.op, SnapKind.name,
    horig, reduceCtorEq, ne_eq, not_false_eq_true, forall_const, true_and, if_true, if_false,
    Bool.false_eq_true]
  constructor
  · rw [Lower.moveEntry_entries, if_neg hplace, if_pos ⟨rfl, rfl⟩]
  · rw [moveEntry_entries_eq, movedName_back h₁ h₂]
    rfl

end Views

/-! ## The invariant -/

/-- What holds after every prefix of a run on the file `f` of inode number `ino`, which looked
like `F₀` at its start. -/
structure FileInv (env : Env) (f dir : Fid) (ino : UInt64) (F₀ : FileView) (s₀ : State)
    (hist : List Op) (p : State × Track) : Prop where
  stamps : Stamped env s₀ hist p.1
  entry : p.1.lower.entries dir p.2.name = some f
  number : p.1.lower.inoOf f = ino
  archived : Archived env p.1 ino p.2.recorded
  takesBack : TakesBack (undoEntry f dir) (EntryFits dir) p.2.recorded
    (p.1.lower.view f p.2.name) F₀
  /-- A session flagged during the run has its content in the log. -/
  sessions : ∀ fd ∈ p.2.opened, ∀ fi, p.1.fds fd = some fi →
    fi.lowerFile = f ∧ (fi.snapshotTaken = true → ∃ e ∈ p.2.recorded, e.1.hasData = true)

section Step

variable {F₀ : FileView} {s₀ s : State} {hist : List Op} {t : Track} {op : Op}

lemma FileInv.archived_next (h : FileInv env f dir ino F₀ s₀ hist (s, t)) {x : Snapshot}
    (hst : Stamped env s₀ (hist ++ [op]) (step env s op))
    (hclock : (observe (step env) stampOf s₀ hist ++ stampOf s op).Nodup)
    (hfit : PathFits s op) (hx : snapshotOf s op = some x) (hfile : x.file = f)
    (hclean : x.Clean env s.store) (hnow : x.now ≠ 0)
    (hlen : (t.next s op).recorded.length ≤ maxVersions) :
    (t.next s op).recorded =
        (x.version s.store.nextNode x.kind.copies, x.inode.data) :: t.recorded ∧
      Archived env (step env s op) ino (t.next s op).recorded := by
  have hrec : (t.next s op).recorded =
      (x.version s.store.nextNode x.kind.copies, x.inode.data) :: t.recorded := by
    simp [Track.next, recordedBy, hx]
  have hino : x.inode.ino = ino := by
    rw [← h.number, Lower.inoOf, ← hfile, (snapshotOf_spec hx).2.1]
    rfl
  refine ⟨hrec, ?_⟩
  rw [hrec, List.length_cons] at hlen
  rw [hrec]
  exact h.archived.push h.stamps hclock hfit hst.toTidy hx hclean hino hnow hlen

/-- Flags set by a call that recorded content are accounted for. -/
lemma FileInv.sessions_mark (h : FileInv env f dir ino F₀ s₀ hist (s, t)) (fd : Fd)
    {es : List (CowVersion × Content)} (hes : ∃ e ∈ es, e.1.hasData = true) :
    ∀ fd' ∈ t.opened, ∀ fi, markSnapshot s.fds fd fd' = some fi →
      fi.lowerFile = f ∧ (fi.snapshotTaken = true → ∃ e ∈ es, e.1.hasData = true) := by
  intro fd' hfd' fi hfi
  refine ⟨?_, fun _ => hes⟩
  unfold markSnapshot at hfi
  by_cases hd : fd' = fd
  · subst hd
    rw [Function.update_self] at hfi
    obtain ⟨fi', hfi', rfl⟩ := Option.map_eq_some_iff.1 hfi
    exact (h.sessions _ hfd' fi' hfi').1
  · rw [Function.update_of_ne hd] at hfi
    exact (h.sessions _ hfd' fi hfi).1

/-- More entries do no harm to the sessions. -/
lemma FileInv.sessions_mono (h : FileInv env f dir ino F₀ s₀ hist (s, t))
    {es : List (CowVersion × Content)} (hes : ∀ e ∈ t.recorded, e ∈ es) :
    ∀ fd ∈ t.opened, ∀ fi, s.fds fd = some fi →
      fi.lowerFile = f ∧ (fi.snapshotTaken = true → ∃ e ∈ es, e.1.hasData = true) := by
  intro fd hfd fi hfi
  obtain ⟨hfile, htaken⟩ := h.sessions fd hfd fi hfi
  refine ⟨hfile, fun ht => ?_⟩
  obtain ⟨e, he, hd⟩ := htaken ht
  exact ⟨e, hes e he, hd⟩

/-- A call of the run that can be followed: it is on the file, its stamp is new and not 0, its
path fits, and the log has room for its entry. -/
structure Followed (env : Env) (f dir : Fid) (s₀ : State) (hist : List Op) (p : State × Track)
    (op : Op) : Prop extends FileStep env f dir p op where
  stamps : Stamped env s₀ (hist ++ [op]) (step env p.1 op)
  clock : (observe (step env) stampOf s₀ hist ++ stampOf p.1 op).Nodup
  fits : PathFits p.1 op
  nonzero : ∀ x ∈ snapshotOf p.1 op, x.now ≠ 0
  room : (p.2.next p.1 op).recorded.length ≤ maxVersions

/-- A call that takes no snapshot and leaves store and tree alone. -/
lemma FileInv.quiet (h : FileInv env f dir ino F₀ s₀ hist (s, t))
    (hk : Followed env f dir s₀ hist (s, t) op) (hname : (t.next s op).name = t.name)
    (hrec : (t.next s op).recorded = t.recorded)
    (harch : Archived env (step env s op) ino t.recorded)
    (hlower : (step env s op).lower = s.lower)
    (hsessions : ∀ fd ∈ (t.next s op).opened, ∀ fi, (step env s op).fds fd = some fi →
      fi.lowerFile = f ∧ (fi.snapshotTaken = true → ∃ e ∈ t.recorded, e.1.hasData = true)) :
    FileInv env f dir ino F₀ s₀ (hist ++ [op]) (trackStep env (s, t) op) where
  stamps := hk.stamps
  entry := by
    simp only [trackStep, hname, hlower]
    exact h.entry
  number := by
    simp only [trackStep, hlower]
    exact h.number
  archived := by
    simp only [trackStep, hrec]
    exact harch
  takesBack := by
    simp only [trackStep, hname, hrec, hlower]
    exact h.takesBack
  sessions := by
    simp only [trackStep, hrec]
    exact hsessions

lemma FileInv.open {fd : Fd} {g : Fid} {writable : Bool} {err : Status}
    (h : FileInv env f dir ino F₀ s₀ hist (s, t))
    (hk : Followed env f dir s₀ hist (s, t) (.open fd g writable err)) :
    FileInv env f dir ino F₀ s₀ (hist ++ [.open fd g writable err])
      (trackStep env (s, t) (.open fd g writable err)) := by
  have hg : g = f := hk.onFile
  have hopen : step env s (.open fd g writable err) =
      { s with fds := Function.update s.fds fd (some ⟨g, writable, false⟩) } := by
    have hok : (cowfsOpen s fd g writable err).1 = none := hk.success
    show (cowfsOpen s fd g writable err).2 = _
    unfold cowfsOpen at hok ⊢
    split at hok <;> simp_all
  refine h.quiet hk rfl rfl (h.archived.of_store_eq ?_) ?_ ?_
  · rw [hopen]
  · rw [hopen]
  · rw [hopen]
    intro fd' hfd' fi hfi
    dsimp only at hfi
    by_cases hd : fd' = fd
    · subst hd
      rw [Function.update_self] at hfi
      obtain rfl := Option.some.inj hfi
      exact ⟨hg, fun ht => by cases ht⟩
    · rw [Function.update_of_ne hd] at hfi
      exact h.sessions fd' ((List.mem_cons.1 hfd').resolve_left hd) fi hfi

lemma FileInv.release {fd : Fd} (h : FileInv env f dir ino F₀ s₀ hist (s, t))
    (hk : Followed env f dir s₀ hist (s, t) (.release fd)) :
    FileInv env f dir ino F₀ s₀ (hist ++ [.release fd])
      (trackStep env (s, t) (.release fd)) := by
  refine h.quiet hk rfl rfl (h.archived.of_store_eq rfl) rfl ?_
  intro fd' hfd' fi hfi
  have hfds : (step env s (.release fd)).fds = Function.update s.fds fd none := rfl
  rw [hfds] at hfi
  by_cases hd : fd' = fd
  · subst hd
    rw [Function.update_self] at hfi
    cases hfi
  · rw [Function.update_of_ne hd] at hfi
    exact h.sessions fd' hfd' fi hfi

lemma FileInv.gc {now windowSeconds : UInt64} {fail : ℕ → Bool}
    (h : FileInv env f dir ino F₀ s₀ hist (s, t))
    (hk : Followed env f dir s₀ hist (s, t) (.gc now windowSeconds fail)) :
    FileInv env f dir ino F₀ s₀ (hist ++ [.gc now windowSeconds fail])
      (trackStep env (s, t) (.gc now windowSeconds fail)) := by
  refine h.quiet hk rfl rfl (h.archived.gc fail hk.onFile) ?_ ?_
  · rw [step_gc]
  · rw [step_gc]
    exact h.sessions

lemma FileInv.write {fd : Fd} {pos : ℕ} {bytes : Content} {now : UInt64} {φ : SnapFaults}
    {err : Status} (h : FileInv env f dir ino F₀ s₀ hist (s, t))
    (hk : Followed env f dir s₀ hist (s, t) (.write fd pos bytes now φ err)) :
    FileInv env f dir ino F₀ s₀ (hist ++ [.write fd pos bytes now φ err])
      (trackStep env (s, t) (.write fd pos bytes now φ err)) := by
  have hopen : fd ∈ t.opened := hk.onFile
  obtain ⟨sbi, fi, i, -, hfd, hi, hlower, hcase⟩ := cowfsWrite_success hk.success
  obtain ⟨hfile, htaken⟩ := h.sessions fd hopen fi hfd
  rw [hfile] at hi hlower
  generalize writeAt (s.lower.content f) pos bytes = c at hlower
  have hlower' : (step env s (.write fd pos bytes now φ err)).lower =
      s.lower.setData f c now.toNat := hlower
  have hsome : (s.lower.inodes f).isSome := s.lower.linked _ _ _ h.entry
  have hentry : (step env s (.write fd pos bytes now φ err)).lower.entries dir t.name = some f := by
    rw [hlower']
    exact h.entry
  have hnumber : (step env s (.write fd pos bytes now φ err)).lower.inoOf f = ino := by
    rw [hlower', ← h.number]
    exact inoOf_modify (g := fun i => { i with data := c, mtime := now.toNat }) (fun _ => rfl) f f
  rcases hcase with ⟨hflag, hnone, hfds⟩ | ⟨hx, hfds⟩
  · -- through a flagged session: the content of before is in the log already
    have hrec : (t.next s (.write fd pos bytes now φ err)).recorded = t.recorded := by
      simp [Track.next, recordedBy, hnone]
    have hstore : (step env s (.write fd pos bytes now φ err)).store = s.store := by
      have := cowfsWrite_store env s fd pos bytes now φ err
      rw [hnone] at this
      exact this
    obtain ⟨e, he, hd⟩ := htaken hflag
    refine ⟨hk.stamps, hentry, hnumber, ?_, ?_, ?_⟩
    · simp only [trackStep, hrec]
      exact h.archived.of_store_eq hstore
    · simp only [trackStep, hrec, hlower']
      have hdiff : SameButData (s.lower.view f t.name)
          ((s.lower.setData f c now.toNat).view f t.name) :=
        ⟨c, view_setData hsome c now.toNat⟩
      exact h.takesBack.absorb hdiff (fun e _ _ hR => hR.undo e) (fun e _ _ hR => hR.fits e)
        ⟨e, he, fun _ _ hR => hR.collapse hd⟩
    · simp only [trackStep, hrec]
      have hfds' : (step env s (.write fd pos bytes now φ err)).fds = s.fds := hfds
      rw [hfds']
      exact h.sessions
  · obtain ⟨hrec, harch⟩ := h.archived_next hk.stamps hk.clock hk.fits hx hfile
      (hk.clean _ hx) (hk.nonzero _ hx) hk.room
    rw [hfile] at hrec
    have hundo : undoEntry f dir ((⟨.write, f, i, sbi, now, φ⟩ : Snapshot).version
        s.store.nextNode true, i.data) ((s.lower.setData f c now.toNat).view f t.name) =
        s.lower.view f t.name := undo_write hi c now.toNat
    refine ⟨hk.stamps, hentry, hnumber, harch, ?_, ?_⟩
    · simp only [trackStep, hrec, hlower']
      exact h.takesBack.push ⟨by simp [Snapshot.version, SnapKind.op],
        by simp [Snapshot.version, SnapKind.op]⟩ hundo
    · simp only [trackStep, hrec]
      have hfds' : (step env s (.write fd pos bytes now φ err)).fds = markSnapshot s.fds fd := hfds
      rw [hfds']
      exact h.sessions_mark fd ⟨_, List.mem_cons_self, rfl⟩

lemma FileInv.setattr {g : Fid} {attr : Iattr} {now : UInt64} {φ : SnapFaults} {err : Status}
    (h : FileInv env f dir ino F₀ s₀ hist (s, t))
    (hk : Followed env f dir s₀ hist (s, t) (.setattr g attr now φ err)) :
    FileInv env f dir ino F₀ s₀ (hist ++ [.setattr g attr now φ err])
      (trackStep env (s, t) (.setattr g attr now φ err)) := by
  obtain rfl : g = f := hk.onFile
  obtain ⟨sbi, i, -, hi, hx, hlower, hfds⟩ := cowfsSetattr_success hk.success
  generalize hattr : { attr with iaFile := none, attrOpen := false } = lowerAttr at hlower
  have hsized : lowerAttr.iaSize.isSome = attr.iaSize.isSome := by rw [← hattr]
  have hlower' : (step env s (.setattr g attr now φ err)).lower =
      s.lower.modify g (setattrInode lowerAttr now.toNat) := hlower
  obtain ⟨hrec, harch⟩ := h.archived_next hk.stamps hk.clock hk.fits hx rfl (hk.clean _ hx)
    (hk.nonzero _ hx) hk.room
  have hundo : undoEntry g dir ((⟨.setattr attr.iaSize.isSome, g, i, sbi, now, φ⟩ :
      Snapshot).version s.store.nextNode attr.iaSize.isSome, i.data)
      ((s.lower.modify g (setattrInode lowerAttr now.toNat)).view g t.name) =
      s.lower.view g t.name := undo_setattr hi (hk.stat _ hx) lowerAttr _ hsized now.toNat
  refine ⟨hk.stamps, ?_, ?_, harch, ?_, ?_⟩
  · simp only [trackStep, hlower']
    exact h.entry
  · simp only [trackStep, hlower']
    rw [← h.number]
    exact inoOf_setattr _ g _ _ g
  · simp only [trackStep, hrec, hlower']
    exact h.takesBack.push ⟨by simp [Snapshot.version, SnapKind.op],
      by simp [Snapshot.version, SnapKind.op]⟩ hundo
  · simp only [trackStep, hrec]
    rcases hfds with hfds | ⟨hsize, fd, hfds⟩
    · have hfds' : (step env s (.setattr g attr now φ err)).fds = s.fds := hfds
      rw [hfds']
      exact h.sessions_mono fun e he => List.mem_cons_of_mem _ he
    · have hfds' : (step env s (.setattr g attr now φ err)).fds = markSnapshot s.fds fd := hfds
      rw [hfds']
      exact h.sessions_mark fd ⟨_, List.mem_cons_self, hsize⟩

lemma FileInv.rename {d₁ d₂ : Fid} {n₁ n₂ : CStr} {flags : RenameFlags} {inoW now : UInt64}
    {φ : SnapFaults} {err : Status} (h : FileInv env f dir ino F₀ s₀ hist (s, t))
    (hk : Followed env f dir s₀ hist (s, t) (.rename d₁ n₁ d₂ n₂ flags inoW now φ err)) :
    FileInv env f dir ino F₀ s₀ (hist ++ [.rename d₁ n₁ d₂ n₂ flags inoW now φ err])
      (trackStep env (s, t) (.rename d₁ n₁ d₂ n₂ flags inoW now φ err)) := by
  obtain ⟨rfl, rfl, rfl, hfree, hwhite, hlen⟩ := hk.onFile
  obtain ⟨sbi, i, hi, hx, hlower, hfds⟩ := cowfsRename_moved h.entry hfree hwhite hk.success
  obtain ⟨hrec, harch⟩ := h.archived_next hk.stamps hk.clock hk.fits hx rfl (hk.clean _ hx)
    (hk.nonzero _ hx) hk.room
  have hlower' : (step env s (.rename d₂ t.name d₂ n₂ flags inoW now φ err)).lower =
      s.lower.moveEntry d₂ t.name d₂ n₂ f (s.lower.linked _ _ _ h.entry) := hlower
  refine ⟨hk.stamps, ?_, ?_, harch, ?_, ?_⟩
  · simp only [trackStep, hlower']
    rw [Lower.moveEntry_entries, if_pos ⟨rfl, rfl⟩]
  · simp only [trackStep, hlower']
    exact h.number
  · simp only [trackStep, hrec, hlower']
    obtain ⟨hfits, hundo⟩ := undo_rename h.entry hfree hlen (s.lower.linked _ _ _ h.entry) sbi i
      now φ s.store.nextNode
    exact h.takesBack.push hfits hundo
  · simp only [trackStep, hrec]
    have hfds' : (step env s (.rename d₂ t.name d₂ n₂ flags inoW now φ err)).fds = s.fds := hfds
    rw [hfds']
    exact h.sessions_mono fun e he => List.mem_cons_of_mem _ he

/-- **One call of the run.** -/
theorem FileInv.step (h : FileInv env f dir ino F₀ s₀ hist (s, t))
    (hk : Followed env f dir s₀ hist (s, t) op) :
    FileInv env f dir ino F₀ s₀ (hist ++ [op]) (trackStep env (s, t) op) := by
  cases op with
  | «open» => exact h.open hk
  | release => exact h.release hk
  | write => exact h.write hk
  | setattr => exact h.setattr hk
  | rename => exact h.rename hk
  | gc => exact h.gc hk
  | _ => exact absurd hk.onFile not_false

end Step

end Cowfs
