import Cowfs.Properties.Archive
import Cowfs.Properties.CleanSnapshot
import Cowfs.Properties.FileCalls
import Cowfs.Properties.SnapshotOutcome

/-!
# Write sessions

Which descriptors have changed their file, and which contents were saved on the way.  `dataLog`
reads off a run what it inserts into the version table: of every version with data the kind and
what its shadow file holds when it is inserted.  `Sessions` follows the run from the calls alone:
for every descriptor the content of its file just before the first call through it that changed
the file.

The code knows of all this one bit per descriptor, `snapshot_taken`.  Two results rest on the
lemmas here: when nothing fails, the log is the one the sessions ask for; and when something may
fail, under which condition the bit tells the truth.
-/

namespace Cowfs

open KeyedLog

variable {env : Env} {s : State} {op : Op} {ino : UInt64}

/-! ## What a call inserts -/

/-- The store at the moment the version of a call is inserted: after the copy, before the
eviction. -/
def State.atInsertion (env : Env) (s : State) (op : Op) : Store :=
  match snapshotOf s op with
  | none => s.store
  | some x => (x.copy env s.store).2

/-- A version with data whose record is not yet handed out in state `s`. -/
def State.newData (s : State) (v : CowVersion) : Bool :=
  v.hasData && decide (s.store.nextNode ≤ v.node)

/-- The versions with data that a call inserts under `ino`: the kind of each and what its shadow
file holds. -/
def insertedData (env : Env) (ino : UInt64) (s : State) (op : Op) :
    List (CowOp × Option Content) :=
  (((step env s op).versions env ino).filter s.newData).map
    fun v => (v.opType, (s.atInsertion env op).shadowAt env v.shadowPath)

/-- What a run inserts under `ino`. -/
def dataLog (env : Env) (s : State) (ops : List Op) (ino : UInt64) :
    List (CowOp × Option Content) :=
  observe (step env) (insertedData env ino) s ops

/-- The snapshot saves the content of the file, in full, in a version that enters the table. -/
structure Snapshot.Saves (env : Env) (x : Snapshot) (st : Store) : Prop where
  copies : x.kind.copies = true
  enters : x.Enters env st
  copied : (x.copy env st).1 = none
  full : CompleteAll x.φ.copy.io x.inode.data

lemma Snapshot.Clean.saves {x : Snapshot} {st : Store} (h : x.Clean env st)
    (hc : x.kind.copies = true) : x.Saves env st :=
  ⟨hc, ⟨h.alloc, .inl h.copy, .inl h.info⟩, h.copy, h.io hc⟩

/-- The copy of a snapshot that saves the content. -/
lemma Snapshot.Saves.shadowAt {x : Snapshot} {st : Store} (h : x.Saves env st) :
    (x.copy env st).2.shadowAt env x.path = some x.inode.data := by
  rw [Snapshot.shadowAt_copied h.copies h.copied, (copyAll_eq_iff _ _).2 h.full]

/-- The versions of a state are not new. -/
lemma StoreInv.not_newData (hs : StoreInv env s.store) {v : CowVersion}
    (hv : v ∈ s.versions env ino) : ¬ s.newData v = true := by
  have hbelow := hs.below v ⟨ino, hv⟩
  rw [State.newData, Bool.and_eq_true, decide_eq_true_iff]
  omega

lemma filter_newData_eq_nil (hs : StoreInv env s.store) {vs : List CowVersion}
    (h : ∀ v ∈ vs, v ∈ s.versions env ino) : vs.filter s.newData = [] :=
  List.filter_eq_nil_iff.2 fun v hv => hs.not_newData (h v hv)

/-- A call that saves the content of its file inserts that content, and nothing else. -/
lemma insertedData_of_saves (hs : StoreInv env s.store) {x : Snapshot}
    (hx : snapshotOf s op = some x) (h : x.Saves env s.store) :
    insertedData env ino s op =
      if x.inode.ino = ino then [(x.kind.op, some x.inode.data)] else [] := by
  have hcopied : x.enteredCopied env s.store = true := by
    rw [Snapshot.enteredCopied, h.copies, h.copied]
    rfl
  unfold insertedData
  rw [versions_of_enters hs.table hx h.enters, hcopied]
  by_cases hino : x.inode.ino = ino
  · subst hino
    have hold : ∀ v ∈ (s.versions env x.inode.ino).take 63,
        v ∈ s.versions env x.inode.ino := fun v hv => List.mem_of_mem_take hv
    have hnew : s.newData (x.version s.store.nextNode true) = true := by
      simp [State.newData, Snapshot.version]
    have hstore : s.atInsertion env op = (x.copy env s.store).2 := by
      rw [State.atInsertion, hx]
    rw [if_pos rfl, push_self, maxVersions, List.take_succ_cons, List.filter_cons_of_pos hnew,
      filter_newData_eq_nil hs hold, List.map_singleton, x.version_shadowPath, hstore, h.shadowAt]
    rfl
  · rw [if_neg hino, push_of_ne (Ne.symm hino), filter_newData_eq_nil hs fun _ hv => hv]
    rfl

/-- A call that takes no snapshot of a content inserts none. -/
lemma insertedData_eq_nil (hs : StoreInv env s.store)
    (h : ∀ x, snapshotOf s op = some x → x.kind.copies = false) :
    insertedData env ino s op = [] := by
  have hstep := step_versions hs.table op
  unfold insertedData
  generalize (step env s op).versions env = m at hstep ⊢
  rw [List.map_eq_nil_iff]
  cases hstep with
  | same => exact filter_newData_eq_nil hs fun _ hv => hv
  | @pushed x copied hx _ hcopies =>
    rw [List.filter_eq_nil_iff]
    intro v hv
    rcases mem_push hv with ⟨-, rfl⟩ | hold
    · have hno : copied = false := by
        by_contra hc
        have hyes := hcopies (by simpa using hc)
        rw [h x hx] at hyes
        cases hyes
      simp [State.newData, Snapshot.version, hno]
    · exact hs.not_newData hold
  | pruned p => exact filter_newData_eq_nil hs fun v hv => List.mem_of_mem_filter hv

/-! ## Sessions -/

/-- For every descriptor the content of its file just before the first call through it that
changed the file; `none` as long as there is no such call. -/
abbrev Sessions := Fd → Option Content

/-- A change of `f` through `fd`; the first one counts. -/
def Sessions.change (b : Sessions) (s : State) (fd : Fd) (f : Fid) : Sessions :=
  Function.update b fd (some ((b fd).getD (s.lower.content f)))

/-- The sessions after a call that is answered with 0: an open starts a session, a write and a
change of size through a descriptor change its file. -/
def Sessions.next (b : Sessions) (s : State) : Op → Sessions
  | .open fd _ _ _ => Function.update b fd none
  | .write fd _ _ _ _ _ =>
    match s.fds fd with
    | none => b
    | some fi => b.change s fd fi.lowerFile
  | .setattr f attr _ _ _ =>
    match attr.sizedFile with
    | none => b
    | some fd => b.change s fd f
  | _ => b

/-- The system with its sessions. -/
def sessionStep (env : Env) (p : State × Sessions) (op : Op) : State × Sessions :=
  (step env p.1 op, if (exec env p.1 op).1 = none then p.2.next p.1 op else p.2)

/-- No session has changed anything. -/
def Sessions.start : Sessions := fun _ => none

lemma run_sessionStep_fst (env : Env) (s : State) (b : Sessions) (ops : List Op) :
    (run (sessionStep env) (s, b) ops).1 = run (step env) s ops := by
  induction ops generalizing s b with
  | nil => rfl
  | cons op ops ih => exact ih _ _

@[simp] lemma Sessions.change_self (b : Sessions) (s : State) (fd : Fd) (f : Fid) :
    b.change s fd f fd = some ((b fd).getD (s.lower.content f)) := by
  simp [Sessions.change]

lemma Sessions.change_of_ne (b : Sessions) (s : State) {fd fd' : Fd} (h : fd' ≠ fd) (f : Fid) :
    b.change s fd f fd' = b fd' := by
  simp [Sessions.change, h]

/-! ## What the flag promises -/

/-- The calls sessions are made of; a change through a descriptor is one of its own file. -/
def SessionCall (s : State) : Op → Prop
  | .open _ _ _ _ => True
  | .release _ => True
  | .write _ _ _ _ _ _ => True
  | .setattr f attr _ _ _ =>
    ∀ fd fi, attr.iaFile = some fd → s.fds fd = some fi → fi.lowerFile = f
  | _ => False

/-- The call goes through `fd` and sets its flag: a write does so in any case, a change of size
when the lower file system carries it out. -/
def SetsFlag (fd : Fd) : Op → Prop
  | .write fd' _ _ _ _ _ => fd' = fd
  | .setattr _ attr _ _ err => attr.sizedFile = some fd ∧ err = none
  | _ => False

/-- Its snapshot, if it takes one, is one of the content. -/
lemma copies_of_setsFlag {fd : Fd} (h : SetsFlag fd op) {x : Snapshot}
    (hx : snapshotOf s op = some x) : x.kind.copies = true := by
  cases op with
  | write fd' pos bytes now φ err =>
    simp only [snapshotOf, Option.bind_eq_bind, Option.bind_eq_some_iff] at hx
    obtain ⟨sbi, -, fi, -, i, -, hx⟩ := hx
    split at hx
    · cases hx
      rfl
    · cases hx
  | setattr f attr now φ err =>
    simp only [snapshotOf, Option.bind_eq_bind, Option.bind_eq_some_iff] at hx
    obtain ⟨sbi, -, i, -, hx⟩ := hx
    obtain ⟨hsized, -⟩ := h
    cases hx
    unfold Iattr.sizedFile at hsized
    split at hsized
    · next hsize => exact hsize
    · cases hsized
  | _ => exact h.elim

/-- The call goes through another descriptor than `fd`, or through none, and changes `f`. -/
def ChangesAside (s : State) (fd : Fd) (f : Fid) : Op → Prop
  | .write fd' _ _ _ _ err =>
    fd' ≠ fd ∧ (∃ fi, s.fds fd' = some fi ∧ fi.writable = true ∧ fi.lowerFile = f) ∧ err = none
  | .setattr g attr _ _ err =>
    attr.sizedFile ≠ some fd ∧ g = f ∧ attr.iaSize.isSome ∧ err = none
  | _ => False

/-- The content a version has to hold for the flag of `fd` to tell the truth: that of its file
before the first change through `fd`, or the present one when there was none. -/
def preImage (p : State × Sessions) (fd : Fd) (fi : CowfsFileInfo) : Content :=
  (p.2 fd).getD (p.1.lower.content fi.lowerFile)

/-- What is known along a run in which the flags tell the truth. -/
structure Told (env : Env) (s₀ : State) (past : List Op) (p : State × Sessions) : Prop where
  store : StoreInv env p.1.store
  unset : ∀ fd fi, p.1.fds fd = some fi → fi.snapshotTaken = false → p.2 fd = none
  saved : ∀ fd fi, p.1.fds fd = some fi → fi.snapshotTaken = true →
    ∃ k, (k, some (preImage p fd fi)) ∈ dataLog env s₀ past (p.1.lower.inoOf fi.lowerFile)

/-- A call of a session that sets a flag only together with a snapshot that enters in full, and
changes no file while a descriptor of it has its flag set without having changed it. -/
structure Tells (env : Env) (p : State × Sessions) (op : Op) : Prop where
  call : SessionCall p.1 op
  saves : ∀ fd fi, SetsFlag fd op → p.1.fds fd = some fi → fi.snapshotTaken = false →
    ∀ x, snapshotOf p.1 op = some x → x.Saves env p.1.store
  settled : ∀ fd fi, ChangesAside p.1 fd fi.lowerFile op → p.1.fds fd = some fi →
    fi.snapshotTaken = true → p.2 fd ≠ none

lemma dataLog_concat (env : Env) (s₀ : State) (past : List Op) (op : Op) (ino : UInt64) :
    dataLog env s₀ (past ++ [op]) ino =
      dataLog env s₀ past ino ++ insertedData env ino (run (step env) s₀ past) op :=
  observe_concat _ _ _ _ _

section Step

variable {s₀ : State} {past : List Op} {p : State × Sessions}

/-- A descriptor whose flag was set before the call and whose file and pre-image the call leaves
alone. -/
lemma Told.saved_concat (h : Told env s₀ past p) (op : Op) {p' : State × Sessions} {fd : Fd}
    {fi : CowfsFileInfo} (hfd : p.1.fds fd = some fi) (ht : fi.snapshotTaken = true)
    (hino : p'.1.lower.inoOf fi.lowerFile = p.1.lower.inoOf fi.lowerFile)
    (hpre : preImage p' fd fi = preImage p fd fi) :
    ∃ k, (k, some (preImage p' fd fi)) ∈
      dataLog env s₀ (past ++ [op]) (p'.1.lower.inoOf fi.lowerFile) := by
  obtain ⟨k, hk⟩ := h.saved fd fi hfd ht
  rw [hino, hpre, dataLog_concat]
  exact ⟨k, List.mem_append_left _ hk⟩

/-- A descriptor whose flag the call sets together with a snapshot of its file. -/
lemma saved_of_saves (hs : StoreInv env p.1.store) (hp : p.1 = run (step env) s₀ past) {op : Op}
    {x : Snapshot} (hx : snapshotOf p.1 op = some x) (hsaves : x.Saves env p.1.store) :
    ∃ k, (k, some x.inode.data) ∈ dataLog env s₀ (past ++ [op]) x.inode.ino := by
  refine ⟨x.kind.op, ?_⟩
  rw [dataLog_concat, ← hp, insertedData_of_saves hs hx hsaves, if_pos rfl]
  exact List.mem_append_right _ (List.mem_singleton_self _)

/-- A call that fails and does nothing. -/
lemma Told.failed (h : Told env s₀ past p) (hsame : (exec env p.1 op).2 = p.1)
    (herr : (exec env p.1 op).1 ≠ none) :
    Told env s₀ (past ++ [op]) (sessionStep env p op) := by
  have hstep : sessionStep env p op = p := by
    rw [sessionStep, step, hsame, if_neg herr]
  rw [hstep]
  exact ⟨h.store, h.unset, fun fd fi hfd ht => h.saved_concat op hfd ht rfl rfl⟩

/-- A call that opens or closes one descriptor. -/
lemma Told.renewed (h : Told env s₀ past p) (op : Op) (fd : Fd)
    (hlower : (sessionStep env p op).1.lower = p.1.lower)
    (hfds : ∀ fd', fd' ≠ fd → (sessionStep env p op).1.fds fd' = p.1.fds fd')
    (hb : ∀ fd', fd' ≠ fd → (sessionStep env p op).2 fd' = p.2 fd')
    (hself : ∀ fi, (sessionStep env p op).1.fds fd = some fi →
      fi.snapshotTaken = false ∧ (sessionStep env p op).2 fd = none) :
    Told env s₀ (past ++ [op]) (sessionStep env p op) := by
  refine ⟨h.store.step op, fun fd' fi hfd ht => ?_, fun fd' fi hfd ht => ?_⟩
  · by_cases he : fd' = fd
    · subst he
      exact (hself fi hfd).2
    · rw [hfds fd' he] at hfd
      rw [hb fd' he]
      exact h.unset fd' fi hfd ht
  · have hne : fd' ≠ fd := by
      rintro rfl
      rw [(hself fi hfd).1] at ht
      cases ht
    rw [hfds fd' hne] at hfd
    refine h.saved_concat op hfd ht (by rw [hlower]) ?_
    rw [preImage, preImage, hlower, hb fd' hne]

lemma Told.step_open (h : Told env s₀ past p) (fd : Fd) (f : Fid) (writable : Bool)
    (err : Status) : Told env s₀ (past ++ [.open fd f writable err])
      (sessionStep env p (.open fd f writable err)) := by
  have hexec : exec env p.1 (.open fd f writable err) = cowfsOpen p.1 fd f writable err := rfl
  rcases cowfsOpen_cases p.1 fd f writable err with ⟨herr, hsame⟩ | hopen
  · exact h.failed hsame herr
  · have hstep : sessionStep env p (.open fd f writable err) =
        ({ p.1 with fds := Function.update p.1.fds fd (some ⟨f, writable, false⟩) },
          Function.update p.2 fd none) := by
      rw [sessionStep, step, hexec, hopen, if_pos rfl]
      rfl
    refine h.renewed _ fd (by rw [hstep]) (fun fd' he => ?_) (fun fd' he => ?_) fun fi hfd => ?_
    · rw [hstep]
      exact Function.update_of_ne he _ _
    · rw [hstep]
      exact Function.update_of_ne he _ _
    · rw [hstep] at hfd ⊢
      simp only [Function.update_self, Option.some.injEq] at hfd
      rw [← hfd]
      exact ⟨rfl, Function.update_self ..⟩

lemma Told.step_release (h : Told env s₀ past p) (fd : Fd) :
    Told env s₀ (past ++ [.release fd]) (sessionStep env p (.release fd)) := by
  have hstep : sessionStep env p (.release fd) =
      ({ p.1 with fds := Function.update p.1.fds fd none }, p.2) := rfl
  refine h.renewed _ fd rfl (fun fd' he => ?_) (fun _ _ => rfl) fun fi hfd => ?_
  · rw [hstep]
    exact Function.update_of_ne he _ _
  · rw [hstep] at hfd
    simp at hfd

/-- A descriptor the call does not go through, when the call leaves its content alone or a change
through it came before. -/
lemma Told.saved_aside (h : Told env s₀ past p) {op : Op} {fd : Fd} {fi : CowfsFileInfo}
    (hopen : p.1.fds fd = some fi) (ht : fi.snapshotTaken = true)
    (hb : (sessionStep env p op).2 fd = p.2 fd)
    (hino : (sessionStep env p op).1.lower.inoOf fi.lowerFile = p.1.lower.inoOf fi.lowerFile)
    (hcontent : p.2 fd = none →
      (sessionStep env p op).1.lower.content fi.lowerFile = p.1.lower.content fi.lowerFile) :
    ∃ k, (k, some (preImage (sessionStep env p op) fd fi)) ∈ dataLog env s₀ (past ++ [op])
      ((sessionStep env p op).1.lower.inoOf fi.lowerFile) := by
  refine h.saved_concat op hopen ht hino ?_
  unfold preImage
  rw [hb]
  cases hbefore : p.2 fd with
  | none => rw [Option.getD_none, Option.getD_none, hcontent hbefore]
  | some c => rfl

/-- The descriptor the call goes through, when the pre-image stays and the call saves it where
the flag was not set before. -/
lemma Told.saved_via (h : Told env s₀ past p) {op : Op} {fd : Fd} {fi : CowfsFileInfo}
    (hopen : p.1.fds fd = some fi)
    (hino : (sessionStep env p op).1.lower.inoOf fi.lowerFile = p.1.lower.inoOf fi.lowerFile)
    (hpre : preImage (sessionStep env p op) fd fi = preImage p fd fi)
    (hsaves : fi.snapshotTaken = false → ∃ k, (k, some (p.1.lower.content fi.lowerFile)) ∈
      dataLog env s₀ (past ++ [op]) (p.1.lower.inoOf fi.lowerFile)) :
    ∃ k, (k, some (preImage (sessionStep env p op) fd fi)) ∈ dataLog env s₀ (past ++ [op])
      ((sessionStep env p op).1.lower.inoOf fi.lowerFile) := by
  cases ht : fi.snapshotTaken with
  | true => exact h.saved_concat op hopen ht hino hpre
  | false =>
    have hcontent : preImage p fd fi = p.1.lower.content fi.lowerFile := by
      rw [preImage, h.unset fd fi hopen ht, Option.getD_none]
    rw [hpre, hino, hcontent]
    exact hsaves ht

/-- A call that sets the flag of `via`, and when it is `done` may have changed `f` through it. -/
lemma Told.step_change (h : Told env s₀ past p) {op : Op} {f : Fid} (via : Option Fd)
    (done : Bool) (hfds : (sessionStep env p op).1.fds = via.elim p.1.fds (markSnapshot p.1.fds))
    (hb : (sessionStep env p op).2 =
      if done then via.elim p.2 (fun fd => p.2.change p.1 fd f) else p.2)
    (hino : ∀ g, (sessionStep env p op).1.lower.inoOf g = p.1.lower.inoOf g)
    (hundone : done = false → (sessionStep env p op).1.lower = p.1.lower)
    (haside : ∀ fd fi, via ≠ some fd → p.1.fds fd = some fi → fi.snapshotTaken = true →
      p.2 fd = none →
        (sessionStep env p op).1.lower.content fi.lowerFile = p.1.lower.content fi.lowerFile)
    (hfile : ∀ fd fi, via = some fd → p.1.fds fd = some fi → fi.lowerFile = f)
    (hsaves : ∀ fd fi, via = some fd → p.1.fds fd = some fi → fi.snapshotTaken = false →
      ∃ k, (k, some (p.1.lower.content f)) ∈
        dataLog env s₀ (past ++ [op]) (p.1.lower.inoOf f)) :
    Told env s₀ (past ++ [op]) (sessionStep env p op) := by
  have hfds_ne : ∀ fd, via ≠ some fd → (sessionStep env p op).1.fds fd = p.1.fds fd := by
    intro fd hne
    rw [hfds]
    cases via with
    | none => rfl
    | some fd' => exact markSnapshot_of_ne fun he => hne (by rw [he])
  have hb_ne : ∀ fd, via ≠ some fd → (sessionStep env p op).2 fd = p.2 fd := by
    intro fd hne
    rw [hb]
    split
    · cases via with
      | none => rfl
      | some fd' => exact Sessions.change_of_ne _ _ (fun he => hne (by rw [he])) _
    · rfl
  have hfds_self : ∀ fd fi, via = some fd → (sessionStep env p op).1.fds fd = some fi →
      ∃ fi₀, p.1.fds fd = some fi₀ ∧ fi = { fi₀ with snapshotTaken := true } := by
    rintro fd fi rfl hfd
    rw [hfds] at hfd
    exact markSnapshot_eq_some hfd
  refine ⟨h.store.step op, fun fd fi hfd ht => ?_, fun fd fi hfd ht => ?_⟩
  · by_cases hvia : via = some fd
    · obtain ⟨fi₀, -, rfl⟩ := hfds_self fd fi hvia hfd
      cases ht
    · rw [hb_ne fd hvia]
      rw [hfds_ne fd hvia] at hfd
      exact h.unset fd fi hfd ht
  · by_cases hvia : via = some fd
    · obtain ⟨fi₀, hopen, rfl⟩ := hfds_self fd fi hvia hfd
      obtain rfl : fi₀.lowerFile = f := hfile fd fi₀ hvia hopen
      have hpre : preImage (sessionStep env p op) fd fi₀ = preImage p fd fi₀ := by
        unfold preImage
        rw [hb]
        cases done with
        | true =>
          subst hvia
          rw [if_pos rfl, Option.elim_some, Sessions.change_self, Option.getD_some]
        | false => rw [hundone rfl, if_neg Bool.false_ne_true]
      have hsaved := h.saved_via hopen (hino _) hpre (hsaves fd fi₀ hvia hopen)
      exact hsaved
    · rw [hfds_ne fd hvia] at hfd
      exact h.saved_aside hfd ht (hb_ne fd hvia) (hino _) (haside fd fi hvia hfd ht)

lemma Told.step_write (h : Told env s₀ past p) (hp : p.1 = run (step env) s₀ past) {fd : Fd}
    {pos : ℕ} {bytes : Content} {now : UInt64} {φ : SnapFaults} {err : Status}
    (hk : Tells env p (.write fd pos bytes now φ err)) :
    Told env s₀ (past ++ [.write fd pos bytes now φ err])
      (sessionStep env p (.write fd pos bytes now φ err)) := by
  have hexec : exec env p.1 (.write fd pos bytes now φ err) =
      cowfsWrite env p.1 fd pos bytes now φ err := rfl
  rcases cowfsWrite_cases env p.1 fd pos bytes now φ err with ⟨hsame, herr⟩ | ⟨sbi, fi, i, w⟩
  · exact h.failed hsame herr
  have hlower : (sessionStep env p (.write fd pos bytes now φ err)).1.lower =
      if err = none then p.1.lower.setData fi.lowerFile
        (writeAt (p.1.lower.content fi.lowerFile) pos bytes) now.toNat
      else p.1.lower := w.lower
  refine h.step_change (f := fi.lowerFile) (some fd) err.isNone w.fds ?_ ?_ ?_ ?_ ?_ ?_
  · rw [sessionStep, hexec, w.status]
    cases err with
    | none => simp [Sessions.next, w.opened]
    | some e => simp
  · intro g
    rw [hlower]
    split
    · exact inoOf_setData _ _ _ _ g
    · rfl
  · intro hundone
    rw [hlower, if_neg]
    rintro rfl
    cases hundone
  · intro fd' fi' hne hfd' ht hbefore
    rw [hlower]
    split
    · next herr =>
      have hfile : fi'.lowerFile ≠ fi.lowerFile := by
        intro he
        refine hk.settled fd' fi' ⟨fun h => hne (by rw [h]), ⟨fi, w.opened, w.writable, he.symm⟩,
          herr⟩ hfd' ht hbefore
      exact content_setData_of_ne hfile _ _
    · rfl
  · rintro fd' fi' he hfd'
    obtain rfl := Option.some.inj he
    rw [Option.some.inj (hfd'.symm.trans w.opened)]
  · rintro fd' fi' he hfd' ht
    obtain rfl := Option.some.inj he
    obtain rfl := Option.some.inj (hfd'.symm.trans w.opened)
    have hx := w.snapshot
    rw [ht, if_neg Bool.false_ne_true] at hx
    have hsaved := saved_of_saves h.store hp hx (hk.saves fd fi' rfl hfd' ht _ hx)
    rw [content_eq w.exists_, inoOf_eq w.exists_]
    exact hsaved

lemma Told.step_setattr (h : Told env s₀ past p) (hp : p.1 = run (step env) s₀ past) {f : Fid}
    {attr : Iattr} {now : UInt64} {φ : SnapFaults} {err : Status}
    (hk : Tells env p (.setattr f attr now φ err)) :
    Told env s₀ (past ++ [.setattr f attr now φ err])
      (sessionStep env p (.setattr f attr now φ err)) := by
  have hexec : exec env p.1 (.setattr f attr now φ err) =
      cowfsSetattr env p.1 f attr now φ err := rfl
  rcases cowfsSetattr_cases env p.1 f attr now φ err with ⟨hsame, herr⟩ | ⟨sbi, i, w⟩
  · exact h.failed hsame herr
  have hlower : (sessionStep env p (.setattr f attr now φ err)).1.lower = _ := w.lower_eq
  have hvia : ∀ {fd}, (if err = none then attr.sizedFile else none) = some fd →
      attr.sizedFile = some fd ∧ err = none := by
    intro fd h
    split at h
    · next herr => exact ⟨h, herr⟩
    · cases h
  have hiaFile : ∀ {fd}, attr.sizedFile = some fd → attr.iaFile = some fd := by
    intro fd h
    unfold Iattr.sizedFile at h
    split at h
    · exact h
    · cases h
  refine h.step_change (f := f) (if err = none then attr.sizedFile else none) true ?_ ?_ ?_ ?_ ?_
    ?_ ?_
  · have hfds : (sessionStep env p (.setattr f attr now φ err)).1.fds = _ := w.fds
    rw [hfds]
    split <;> rfl
  · rw [sessionStep, hexec, w.status, if_pos rfl]
    split
    · cases hsized : attr.sizedFile <;> simp [Sessions.next, hsized]
    · rfl
  · intro g
    rw [hlower]
    split
    · exact inoOf_setattr _ _ _ _ g
    · rfl
  · intro hno
    cases hno
  · intro fd fi hne hfd ht hbefore
    rw [hlower]
    split
    · next herr =>
      rw [if_pos herr] at hne
      by_cases hsize : attr.iaSize.isSome
      · have hfile : fi.lowerFile ≠ f := fun he =>
          hk.settled fd fi ⟨hne, he.symm, hsize, herr⟩ hfd ht hbefore
        exact content_modify_of_ne hfile _
      · exact content_setattr_of_unsized _ _ _ _ (Option.not_isSome_iff_eq_none.1 hsize)
    · rfl
  · intro fd fi he hfd
    exact hk.call fd fi (hiaFile (hvia he).1) hfd
  · intro fd fi he hfd ht
    have hsaved := saved_of_saves h.store hp w.snapshot
      (hk.saves fd fi (hvia he) hfd ht _ w.snapshot)
    rw [content_eq w.exists_, inoOf_eq w.exists_]
    exact hsaved

/-- One call. -/
lemma Told.step (h : Told env s₀ past p) (hp : p.1 = run (step env) s₀ past) (hk : Tells env p op) :
    Told env s₀ (past ++ [op]) (sessionStep env p op) := by
  cases op with
  | «open» fd f writable err => exact h.step_open fd f writable err
  | release fd => exact h.step_release fd
  | write => exact h.step_write hp hk
  | setattr => exact h.step_setattr hp hk
  | _ => exact hk.call.elim

/-- **What the flags tell.**  In a run whose calls meet `Tells`, from a state in which no file is
open, every flag that is set vouches for a version that was inserted. -/
theorem told_run (hs : StoreInv env s₀.store) (hclosed : ∀ fd, s₀.fds fd = none) {ops : List Op}
    (hok : Along (sessionStep env) (Tells env) (s₀, Sessions.start) ops) :
    Told env s₀ ops (run (sessionStep env) (s₀, Sessions.start) ops) := by
  have hnone : ∀ fd fi, s₀.fds fd ≠ some fi := fun fd fi h => by
    rw [hclosed fd] at h
    cases h
  refine prefix_run ⟨hs, fun fd fi h => absurd h (hnone fd fi),
    fun fd fi h => absurd h (hnone fd fi)⟩ fun past op post hops htold => ?_
  rw [hops] at hok
  exact htold.step (run_sessionStep_fst env s₀ Sessions.start past) hok.at

end Step

end Cowfs
