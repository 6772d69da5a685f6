import Cowfs.Properties.FaithfulCopy
import Cowfs.Properties.Sessions

/-!
# The log of write sessions

When nothing fails, what a run of sessions inserts into the version table can be told from its
calls: a change of size inserts the content before it, a write does so when nothing has been
changed through its descriptor yet, and everything else inserts no content.  The bit in the
`struct cowfs_file_info` and the sessions then say the same of every open descriptor, whichever
of the two functions has set it.
-/

namespace Cowfs

variable {env : Env} {s : State} {p : State × Sessions} {op : Op} {ino : UInt64}

/-- What the calls of sessions have to insert under `ino`: the kind and the content just before
the call. -/
def expectedData (ino : UInt64) (p : State × Sessions) : Op → List (CowOp × Option Content)
  | .write fd _ _ _ _ _ =>
    match p.1.fds fd with
    | none => []
    | some fi =>
      if p.2 fd = none ∧ p.1.lower.inoOf fi.lowerFile = ino then
        [(.write, some (p.1.lower.content fi.lowerFile))]
      else []
  | .setattr f attr _ _ _ =>
    if attr.iaSize.isSome ∧ p.1.lower.inoOf f = ino then
      [(.setattr, some (p.1.lower.content f))]
    else []
  | _ => []

/-- A call of a session no step of which fails. -/
structure Unfailing (env : Env) (s : State) (op : Op) : Prop where
  call : SessionCall s op
  success : (exec env s op).1 = none
  clean : ∀ x, snapshotOf s op = some x → x.Clean env s.store

/-- The flag of an open descriptor is set when its session has changed something. -/
def Flagged (p : State × Sessions) : Prop :=
  ∀ fd fi, p.1.fds fd = some fi → (fi.snapshotTaken = true ↔ p.2 fd ≠ none)

/-! ## The flags -/

/-- A call that changes one descriptor and its session. -/
lemma Flagged.update (h : Flagged p) {q : State × Sessions} (fd : Fd)
    (hfds : ∀ fd', fd' ≠ fd → q.1.fds fd' = p.1.fds fd')
    (hb : ∀ fd', fd' ≠ fd → q.2 fd' = p.2 fd')
    (hself : ∀ fi, q.1.fds fd = some fi → (fi.snapshotTaken = true ↔ q.2 fd ≠ none)) :
    Flagged q := by
  intro fd' fi hfd
  by_cases he : fd' = fd
  · subst he
    exact hself fi hfd
  · rw [hfds fd' he] at hfd
    rw [hb fd' he]
    exact h fd' fi hfd

/-- An open descriptor whose session is new. -/
lemma Flagged.opened (h : Flagged p) {q : State × Sessions} {fd : Fd} {fi : CowfsFileInfo}
    (hfi : fi.snapshotTaken = false) (hfds : q.1.fds = Function.update p.1.fds fd (some fi))
    (hb : q.2 = Function.update p.2 fd none) : Flagged q := by
  refine h.update fd (fun fd' he => ?_) (fun fd' he => ?_) fun fi' hfd => ?_
  · rw [hfds, Function.update_of_ne he]
  · rw [hb, Function.update_of_ne he]
  · rw [hfds, Function.update_self] at hfd
    rw [← Option.some.inj hfd, hfi, hb, Function.update_self]
    simp

/-- A closed descriptor. -/
lemma Flagged.closed (h : Flagged p) {q : State × Sessions} {fd : Fd}
    (hfds : q.1.fds = Function.update p.1.fds fd none) (hb : q.2 = p.2) : Flagged q := by
  refine h.update fd (fun fd' he => ?_) (fun fd' _ => by rw [hb]) fun fi hfd => ?_
  · rw [hfds, Function.update_of_ne he]
  · rw [hfds, Function.update_self] at hfd
    cases hfd

/-- A descriptor through which a file was changed. -/
lemma Flagged.changed (h : Flagged p) {q : State × Sessions} {fd : Fd} {f : Fid}
    (hfds : q.1.fds = markSnapshot p.1.fds fd) (hb : q.2 = p.2.change p.1 fd f) : Flagged q := by
  refine h.update fd (fun fd' he => ?_) (fun fd' he => ?_) fun fi hfd => ?_
  · rw [hfds, markSnapshot_of_ne he]
  · rw [hb, Sessions.change_of_ne _ _ he]
  · rw [hfds] at hfd
    obtain ⟨fi₀, -, rfl⟩ := markSnapshot_eq_some hfd
    rw [hb, Sessions.change_self]
    simp

lemma Flagged.same (h : Flagged p) {q : State × Sessions} (hfds : q.1.fds = p.1.fds)
    (hb : q.2 = p.2) : Flagged q := by
  intro fd fi hfd
  rw [hb]
  exact h fd fi (hfds ▸ hfd)

/-! ## One call -/

/-- A call answered with 0 also moves the sessions on. -/
lemma sessionStep_of_success (h : (exec env p.1 op).1 = none) :
    sessionStep env p op = (step env p.1 op, p.2.next p.1 op) := by
  rw [sessionStep, if_pos h]

lemma Unfailing.write {fd : Fd} {pos : ℕ} {bytes : Content} {now : UInt64} {φ : SnapFaults}
    {err : Status} (hk : Unfailing env p.1 (.write fd pos bytes now φ err))
    (hs : StoreInv env p.1.store) (h : Flagged p) :
    insertedData env ino p.1 (.write fd pos bytes now φ err) =
        expectedData ino p (.write fd pos bytes now φ err) ∧
      Flagged (sessionStep env p (.write fd pos bytes now φ err)) := by
  rcases cowfsWrite_cases env p.1 fd pos bytes now φ err with ⟨-, herr⟩ | ⟨sbi, fi, i, w⟩
  · exact absurd hk.success herr
  rw [sessionStep_of_success hk.success]
  have hflag := h fd fi w.opened
  have hx := w.snapshot
  refine ⟨?_, h.changed (f := fi.lowerFile) w.fds (by simp [Sessions.next, w.opened])⟩
  cases ht : fi.snapshotTaken with
  | true =>
    have hchanged : p.2 fd ≠ none := hflag.1 ht
    rw [ht, if_pos rfl] at hx
    rw [insertedData_eq_nil hs (by simp [hx])]
    simp [expectedData, w.opened, hchanged]
  | false =>
    have hfirst : p.2 fd = none := by
      by_contra hne
      rw [hflag.2 hne] at ht
      cases ht
    rw [ht, if_neg Bool.false_ne_true] at hx
    rw [insertedData_of_saves hs hx ((hk.clean _ hx).saves rfl)]
    simp [expectedData, w.opened, hfirst, inoOf_eq w.exists_, content_eq w.exists_, SnapKind.op]

lemma Unfailing.setattr {f : Fid} {attr : Iattr} {now : UInt64} {φ : SnapFaults} {err : Status}
    (hk : Unfailing env p.1 (.setattr f attr now φ err)) (hs : StoreInv env p.1.store)
    (h : Flagged p) :
    insertedData env ino p.1 (.setattr f attr now φ err) =
        expectedData ino p (.setattr f attr now φ err) ∧
      Flagged (sessionStep env p (.setattr f attr now φ err)) := by
  rcases cowfsSetattr_cases env p.1 f attr now φ err with ⟨-, herr⟩ | ⟨sbi, i, w⟩
  · exact absurd hk.success herr
  have hx := w.snapshot
  refine ⟨?_, ?_⟩
  · by_cases hsize : attr.iaSize.isSome
    · rw [insertedData_of_saves hs hx ((hk.clean _ hx).saves hsize)]
      simp [expectedData, hsize, inoOf_eq w.exists_, content_eq w.exists_, SnapKind.op]
    · have hnil : ∀ x, snapshotOf p.1 (.setattr f attr now φ err) = some x →
          x.kind.copies = false := by
        intro x hx'
        obtain rfl := Option.some.inj (hx.symm.trans hx')
        simpa [SnapKind.copies] using hsize
      rw [insertedData_eq_nil hs hnil]
      simp [expectedData, hsize]
  · have herr : err = none := w.status.symm.trans hk.success
    have hfds := w.fds
    rw [if_pos herr] at hfds
    rw [sessionStep_of_success hk.success]
    cases hvia : attr.sizedFile with
    | none =>
      rw [hvia] at hfds
      exact h.same hfds (by simp [Sessions.next, hvia])
    | some fd =>
      rw [hvia] at hfds
      exact h.changed (f := f) hfds (by simp only [Sessions.next, hvia])

/-- A call of a session inserts what it has to, and flags and sessions keep saying the same. -/
lemma Unfailing.step (hk : Unfailing env p.1 op) (hs : StoreInv env p.1.store) (h : Flagged p) :
    insertedData env ino p.1 op = expectedData ino p op ∧ Flagged (sessionStep env p op) := by
  cases op with
  | write => exact hk.write hs h
  | setattr => exact hk.setattr hs h
  | «open» fd f writable err =>
    refine ⟨insertedData_eq_nil hs fun x hx => ?_, ?_⟩
    · cases hx
    · rcases cowfsOpen_cases p.1 fd f writable err with ⟨herr, -⟩ | hopen
      · exact absurd hk.success herr
      · have hexec : exec env p.1 (.open fd f writable err) = _ := hopen
        rw [sessionStep_of_success hk.success, step, hexec]
        exact h.opened rfl rfl rfl
  | release fd =>
    refine ⟨insertedData_eq_nil hs fun x hx => ?_, ?_⟩
    · cases hx
    · rw [sessionStep_of_success hk.success]
      exact h.closed rfl rfl
  | _ => exact hk.call.elim

/-- Nothing fails, so the flags tell the truth. -/
lemma Unfailing.tells (hk : Unfailing env p.1 op) (h : Flagged p) : Tells env p op where
  call := hk.call
  saves _ _ hsets _ _ x hx := (hk.clean x hx).saves (copies_of_setsFlag hsets hx)
  settled fd fi _ hfd ht := (h fd fi hfd).1 ht

/-! ## Runs -/

/-- What a run of sessions inserts, from any state on. -/
lemma dataLog_eq_expected (ino : UInt64) {ops : List Op} (hs : StoreInv env p.1.store)
    (h : Flagged p) (hok : Along (Cowfs.step env) (Unfailing env) p.1 ops) :
    dataLog env p.1 ops ino = observe (sessionStep env) (expectedData ino) p ops ∧
      Along (sessionStep env) (Tells env) p ops ∧ Flagged (run (sessionStep env) p ops) := by
  induction ops generalizing p with
  | nil => exact ⟨rfl, trivial, h⟩
  | cons op ops ih =>
    obtain ⟨hk, hrest⟩ := hok
    have hone : insertedData env ino p.1 op = expectedData ino p op ∧
        Flagged (sessionStep env p op) := hk.step hs h
    obtain ⟨hdata, hflags⟩ := hone
    obtain ⟨hlog, htells, hlast⟩ := ih (p := sessionStep env p op) (hs.step op) hflags hrest
    refine ⟨?_, ⟨hk.tells h, htells⟩, hlast⟩
    rw [observe, ← hdata, ← hlog]
    rfl

/-- The file is opened twice, the second time with `O_TRUNC`; both descriptors write, the first
one again after that, and the file is truncated by its path. -/
def twoSessions : List Op :=
  [.open 0 4 true none, .open 1 4 true none,
    .setattr 4 { Iattr.zero with iaSize := some 0, iaFile := some 1, attrOpen := true } 1000
      SnapFaults.clean none,
    .write 0 0 [1] 1001 SnapFaults.clean none, .write 1 0 [2] 1002 SnapFaults.clean none,
    .write 0 1 [3] 1003 SnapFaults.clean none,
    .setattr 4 { Iattr.zero with iaSize := some 1 } 1004 SnapFaults.clean none, .release 1]

end Cowfs
