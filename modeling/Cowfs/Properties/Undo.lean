import Cowfs.Construction.Paths
import Cowfs.Properties.CleanRollback
import Cowfs.Properties.FileHistory

/-!
# Undoing a run

After a run on one file every version it recorded is rolled back, the newest first, each on the
path the file then has; the collector may pass in between, as long as it expires none of the
versions still to come.  `undo_run` shows that this brings the file back as it was: content,
mode, owners, name, and with the name all directory entries.

Besides distinct stamps the result needs what the code does not see to: the path of a shadow file
has to fit the 256 bytes of its buffer, whereas `shadow_root` may have up to 511.  Cut paths
collide, and a later snapshot overwrites the file of an earlier one (`undo_run_truncated`).
-/

namespace Cowfs

variable {env : Env} {f dir : Fid} {ino : UInt64} {s s' : State}

/-! ## The run -/

/-- The stamp of a snapshot is not 0, which in a request means the latest version. -/
def NonzeroStamp (s : State) (op : Op) : Prop := ∀ x ∈ snapshotOf s op, x.now ≠ 0

instance (s : State) (op : Op) : Decidable (NonzeroStamp s op) :=
  inferInstanceAs (Decidable (∀ x ∈ snapshotOf s op, _))

section Run

variable {l : Lower} {shadow : Fid → Option ShadowFiles} {past ops : List Op} {name : CStr}

lemma fileInv_start (hs : Stamped env (State.init l shadow) past s)
    (hname : s.lower.entries dir name = some f) :
    FileInv env f dir (s.lower.inoOf f) (s.lower.view f name) (State.init l shadow) past
      (s, .start name) where
  stamps := hs
  entry := hname
  number := rfl
  archived := by
    refine ⟨⟨hs.toTidy, ?_, ?_, ?_⟩, s.versions env _, rfl⟩ <;>
    · intro e he
      cases he
  takesBack := .nil _
  sessions fd hfd := by cases hfd

/-- The log of a run on a file takes it back to its start. -/
theorem fileInv_run (hs : s = run (step env) (State.init l shadow) past)
    (hname : s.lower.entries dir name = some f)
    (hclock : (observe (step env) stampOf (State.init l shadow) (past ++ ops)).Nodup)
    (hfits : Along (step env) PathFits (State.init l shadow) (past ++ ops))
    (hnonzero : Along (step env) NonzeroStamp s ops)
    (hops : Along (trackStep env) (FileStep env f dir) (s, .start name) ops)
    (hroom : (run (trackStep env) (s, .start name) ops).2.recorded.length ≤ maxVersions) :
    FileInv env f dir (s.lower.inoOf f) (s.lower.view f name) (State.init l shadow)
      (past ++ ops) (run (trackStep env) (s, .start name) ops) := by
  have hstart : Stamped env (State.init l shadow) past s := by
    rw [hs]
    rw [observe_append, List.nodup_append] at hclock
    rw [along_append] at hfits
    exact stamped_run hclock.1 hfits.1
  refine prefix_run (I := fun pre p => FileInv env f dir (s.lower.inoOf f)
    (s.lower.view f name) (State.init l shadow) (past ++ pre) p) ?_ ?_
  · rw [List.append_nil]
    exact fileInv_start hstart hname
  · rintro pre op post rfl h
    generalize hp : run (trackStep env) (s, .start name) pre = p at h ⊢
    obtain ⟨s₁, t⟩ := p
    have hs₁ : s₁ = run (step env) s pre := by
      rw [← run_trackStep_fst env s (.start name) pre, hp]
    have hhist : s₁ = run (step env) (State.init l shadow) (past ++ pre) := by
      rw [run_append, ← hs]
      exact hs₁
    have hsplit : past ++ (pre ++ op :: post) = (past ++ pre) ++ op :: post := by
      rw [List.append_assoc]
    rw [hsplit] at hclock hfits
    have hclock' := nodup_stamps_at hclock
    have hfits' := hfits.at
    have hnonzero' := hnonzero.at
    have hstep := hops.at
    rw [← hhist] at hclock' hfits'
    rw [← hs₁] at hnonzero'
    rw [hp] at hstep
    have hroom' : (t.next s₁ op).recorded.length ≤ maxVersions := by
      refine le_trans ?_ hroom
      rw [run_append, hp, run_cons]
      exact recorded_run_le env _ _ post
    rw [← List.append_assoc]
    exact h.step ⟨hstep, h.stamps.concat hhist hfits' hclock', hclock', hfits', hnonzero', hroom'⟩

end Run

/-! ## The rollbacks -/

/-- The name of the file after its version is rolled back. -/
def nameAfter (v : CowVersion) (name : CStr) : CStr :=
  if v.opType = .rename then v.origName else name

/-- From `s`, where the file is called `name`, each entry is rolled back once by its timestamp,
in order and on the path the file then has, nothing failing; the collector may pass without
expiring an entry still to come. -/
inductive Rollbacks (env : Env) (f dir : Fid) :
    State → CStr → List (CowVersion × Content) → State → Prop
  | done {s : State} {name : CStr} : Rollbacks env f dir s name [] s
  | undo {s s' : State} {name path : CStr} {e : CowVersion × Content}
      {es : List (CowVersion × Content)} {φ : RollbackFaults}
      (hpath : cowfsPath env s path none = .ok ⟨dir, name, f⟩) (hφ : φ.Fine)
      (rest : Rollbacks env f dir (step env s (.rollback path e.1.timestamp φ))
        (nameAfter e.1 name) es s') : Rollbacks env f dir s name (e :: es) s'
  | collect {s s' : State} {name : CStr} {es : List (CowVersion × Content)}
      {now windowSeconds : UInt64} {fail : ℕ → Bool}
      (hkeep : ∀ e ∈ es, expired (gcCutoff now windowSeconds) e.1 = false)
      (rest : Rollbacks env f dir (step env s (.gc now windowSeconds fail)) name es s') :
      Rollbacks env f dir s name es s'

lemma view_savedAttr {l : Lower} (h : (l.inodes f).isSome) (v : CowVersion) (now : ℕ)
    (name : CStr) :
    (l.modify f (setattrInode (savedAttr v) now)).view f name =
      { l.view f name with
        mode := v.savedStat.mode
        uid := v.savedStat.uid
        gid := v.savedStat.gid } := by
  obtain ⟨i, hi⟩ := Option.isSome_iff_exists.1 h
  simp [Lower.view, Lower.content, Lower.getattr, hi, setattrInode, savedAttr, notifyMode,
    Iattr.zero]

/-- The tree a rollback leaves shows what the entry undone shows. -/
lemma view_restoredTree {l : Lower} {name : CStr} {e : CowVersion × Content}
    (h : (l.inodes f).isSome) (hfits : EntryFits dir e (l.view f name)) (now : ℕ) :
    (if e.1.opType = .setattr then
        (restoredTree l ⟨dir, name, f⟩ e.1 e.2 now h).modify f (setattrInode (savedAttr e.1) now)
      else restoredTree l ⟨dir, name, f⟩ e.1 e.2 now h).view f (nameAfter e.1 name) =
      undoEntry f dir e (l.view f name) := by
  unfold restoredTree nameAfter undoEntry
  cases hop : e.1.opType with
  | unlink => exact absurd hop hfits.1
  | write =>
    simp only [reduceCtorEq, if_false]
    split
    · rw [view_setData h]
    · rfl
  | rename =>
    obtain ⟨hd, -⟩ := hfits.2 hop
    simp only [reduceCtorEq, if_false, if_true, hd, Bool.false_eq_true]
    rfl
  | setattr =>
    simp only [reduceCtorEq, if_false, if_true]
    split
    · rw [view_savedAttr (by simpa [Lower.setData] using h), view_setData h]
    · rw [view_savedAttr h]

lemma inoOf_restoredTree {l : Lower} {p : Place} {v : CowVersion} {c : Content} {now : ℕ}
    (h : (l.inodes p.file).isSome) :
    (if v.opType = .setattr then
        (restoredTree l p v c now h).modify p.file (setattrInode (savedAttr v) now)
      else restoredTree l p v c now h).inoOf p.file = l.inoOf p.file := by
  have hrestored : (restoredTree l p v c now h).inoOf p.file = l.inoOf p.file := by
    unfold restoredTree
    split
    · exact inoOf_setData _ _ _ _ _
    · split <;> rfl
  split
  · rw [← hrestored]
    exact inoOf_setattr _ _ _ _ _
  · exact hrestored

lemma rollback_entry {name path : CStr} {e : CowVersion × Content}
    {es : List (CowVersion × Content)} {φ : RollbackFaults}
    (h : Available env s ino (e :: es)) (hentry : s.lower.entries dir name = some f)
    (hnumber : s.lower.inoOf f = ino) (hfits : EntryFits dir e (s.lower.view f name))
    (hpath : cowfsPath env s path none = .ok ⟨dir, name, f⟩) (hφ : φ.Fine) :
    (step env s (.rollback path e.1.timestamp φ)).store = s.store ∧
      (step env s (.rollback path e.1.timestamp φ)).lower.view f (nameAfter e.1 name) =
        undoEntry f dir e (s.lower.view f name) ∧
      (step env s (.rollback path e.1.timestamp φ)).lower.inoOf f = ino := by
  have hfind : versionFind env.hash s.store.table (s.lower.inoOf f) e.1.timestamp = some e.1 := by
    rw [hnumber]
    exact versionFind_of_mem (h.tidy.clock ino) (h.mem e List.mem_cons_self)
      (h.nonzero e List.mem_cons_self)
  have hfound := rollback_found hφ hpath hfind
  have hfree : e.1.opType = .rename → s.lower.entries dir e.1.origName = none :=
    fun hop => (hfits.2 hop).2
  have hfine := rollback_of_fine (p := ⟨dir, name, f⟩) hφ hentry hfits.1
    (h.filed e List.mem_cons_self) hfree
  have hstep : step env s (.rollback path e.1.timestamp φ) = _ :=
    congrArg Prod.snd (hfound.trans hfine)
  rw [hstep]
  refine ⟨rfl, view_restoredTree (s.lower.linked _ _ _ hentry) hfits φ.now, ?_⟩
  rw [← hnumber]
  exact inoOf_restoredTree (p := ⟨dir, name, f⟩) (s.lower.linked _ _ _ hentry)

/-- The file is found under the name an undone entry gives it. -/
lemma entry_undone {l l' : Lower} {name : CStr} {e : CowVersion × Content}
    (hentry : l.entries dir name = some f)
    (hview : l'.view f (nameAfter e.1 name) = undoEntry f dir e (l.view f name)) :
    l'.entries dir (nameAfter e.1 name) = some f := by
  have hentries : l'.entries = (undoEntry f dir e (l.view f name)).entries :=
    congrArg FileView.entries hview
  rw [hentries]
  unfold undoEntry nameAfter
  dsimp only
  split
  · unfold movedName
    rw [if_pos ⟨rfl, rfl⟩]
  · exact hentry

/-- **Rolling the entries back brings the file back.** -/
theorem rollbacks_takeBack {name : CStr} {es : List (CowVersion × Content)} {F₀ : FileView}
    (hrs : Rollbacks env f dir s name es s') (h : Available env s ino es)
    (hentry : s.lower.entries dir name = some f) (hnumber : s.lower.inoOf f = ino)
    (hback : TakesBack (undoEntry f dir) (EntryFits dir) es (s.lower.view f name) F₀) :
    ∃ name', s'.lower.view f name' = F₀ := by
  induction hrs with
  | done => exact ⟨_, hback.back⟩
  | @undo s s' name path e es φ hpath hφ rest ih =>
    obtain ⟨hfits, hback'⟩ := takesBack_cons.1 hback
    obtain ⟨hstore, hview, hnumber'⟩ := rollback_entry h hentry hnumber hfits hpath hφ
    exact ih (h.tail.of_store_eq hstore) (entry_undone hentry hview) hnumber' (hview ▸ hback')
  | @collect s s' name es now windowSeconds fail hkeep rest ih =>
    have hlower : (step env s (.gc now windowSeconds fail)).lower = s.lower := by
      rw [step_gc]
    rw [← hlower] at hentry hnumber hback
    exact ih (h.gc fail hkeep) hentry hnumber hback

/-- **Undoing a run.**  From any state some run leads to, a run of calls on one file that succeed
and whose snapshots do not fail, with at most 64 versions recorded: rolling these back, from the
newest to the oldest, gives the file its content, its mode, its owners and its name again, in
every run in which each snapshot has a stamp of its own, not 0, and a path that fits. -/
theorem undo_run (env : Env) (l : Lower) (shadow : Fid → Option ShadowFiles)
    (past ops : List Op) (f dir : Fid) (name : CStr) {s s₁ s₂ : State} {t : Track}
    (hs : s = run (step env) (State.init l shadow) past)
    (hname : s.lower.entries dir name = some f)
    (hclock : (observe (step env) stampOf (State.init l shadow) (past ++ ops)).Nodup)
    (hfits : Along (step env) PathFits (State.init l shadow) (past ++ ops))
    (hnonzero : Along (step env) NonzeroStamp s ops)
    (hops : Along (trackStep env) (FileStep env f dir) (s, .start name) ops)
    (hrun : run (trackStep env) (s, .start name) ops = (s₁, t))
    (hroom : t.recorded.length ≤ maxVersions)
    (hback : Rollbacks env f dir s₁ t.name t.recorded s₂) :
    s₂.lower.content f = s.lower.content f ∧
      (s₂.lower.getattr f).mode = (s.lower.getattr f).mode ∧
      (s₂.lower.getattr f).uid = (s.lower.getattr f).uid ∧
      (s₂.lower.getattr f).gid = (s.lower.getattr f).gid ∧
      s₂.lower.entries = s.lower.entries := by
  have h := fileInv_run hs hname hclock hfits hnonzero hops (by rw [hrun]; exact hroom)
  rw [hrun] at h
  obtain ⟨name', hview⟩ := rollbacks_takeBack hback h.archived.toAvailable h.entry h.number
    h.takesBack
  exact ⟨congrArg FileView.data hview, congrArg FileView.mode hview, congrArg FileView.uid hview,
    congrArg FileView.gid hview, congrArg FileView.entries hview⟩

/-! ## A run undone -/

/-- The file `x` was made. -/
def madeState : State :=
  run (step smallEnv) (State.init smallTree fun _ => none)
    [.mount ['/', 'l'] none none, .make sIFREG 1 ['x'] 0x1A4#16 ⟨0, 0, 0⟩ 10 1 none]

/-- It is written, made read-only and renamed to `y`. -/
def editOps : List Op :=
  [.open 0 4 true none, .write 0 0 [1, 2] 1000 .clean none,
    .setattr 4 { Iattr.zero with iaMode := some (sIFREG ||| 0x124#16) } 2000 .clean none,
    .rename 1 ['x'] 1 ['y'] .zero 0 3000 .clean none]

def editEntries : List (CowVersion × Content) :=
  [(⟨3000, .rename, [], ['x'], ⟨sIFREG ||| 0x124#16, 0, 0, 1000⟩, false, 2⟩, [1, 2]),
    (⟨2000, .setattr, [], [], ⟨sIFREG ||| 0x1A4#16, 0, 0, 1000⟩, false, 1⟩, [1, 2]),
    (⟨1000, .write, ['/', 'l', '/'] ++ shadowDir ++ '/' :: decimalPair 10 1000, [],
      ⟨sIFREG ||| 0x1A4#16, 0, 0, 1⟩, true, 0⟩, [])]

def editedState : State := (run (trackStep smallEnv) (madeState, .start ['x']) editOps).1

/-- After the rollbacks of the three versions. -/
def undoneState : State :=
  run (step smallEnv) editedState
    [.rollback ['/', 'm', '/', 'y'] 3000 (.clean ⟨0, 0, 0⟩ 11 4000),
      .rollback ['/', 'm', '/', 'x'] 2000 (.clean ⟨0, 0, 0⟩ 11 5000),
      .rollback ['/', 'm', '/', 'x'] 1000 (.clean ⟨0, 0, 0⟩ 11 6000)]

lemma editOps_onFile :
    Along (trackStep smallEnv) (FileStep smallEnv 4 1) (madeState, .start ['x']) editOps := by
  refine ⟨fileStep_of_clean ?_ ?_ ?_ ?_, fileStep_of_clean ?_ ?_ ?_ ?_,
    fileStep_of_clean ?_ ?_ ?_ ?_, fileStep_of_clean ?_ ?_ ?_ ?_, trivial⟩
  all_goals first
    | decide +kernel
    | (intro φ hφ; cases hφ <;> rfl)

lemma editedState_rollbacks :
    Rollbacks smallEnv 4 1 editedState ['y'] editEntries undoneState := by
  have hy : cowfsPath smallEnv editedState ['/', 'm', '/', 'y'] none = .ok ⟨1, ['y'], 4⟩ := by
    decide +kernel
  refine .undo hy (RollbackFaults.clean_fine ⟨0, 0, 0⟩ 11 4000) ?_
  refine .undo (show cowfsPath smallEnv _ ['/', 'm', '/', 'x'] none = _ from ?_)
    (RollbackFaults.clean_fine ⟨0, 0, 0⟩ 11 5000) ?_
  · decide +kernel
  refine .undo (show cowfsPath smallEnv _ ['/', 'm', '/', 'x'] none = _ from ?_)
    (RollbackFaults.clean_fine ⟨0, 0, 0⟩ 11 6000) .done
  decide +kernel

/-- The file is writable, empty and called `x` again. -/
theorem undo_run_edited :
    undoneState.lower.content 4 = madeState.lower.content 4 ∧
      (undoneState.lower.getattr 4).mode = (madeState.lower.getattr 4).mode ∧
      (undoneState.lower.getattr 4).uid = (madeState.lower.getattr 4).uid ∧
      (undoneState.lower.getattr 4).gid = (madeState.lower.getattr 4).gid ∧
      undoneState.lower.entries = madeState.lower.entries := by
  have hrun : run (trackStep smallEnv) (madeState, .start ['x']) editOps =
      (editedState, ⟨['y'], [0], editEntries⟩) := by
    refine Prod.ext rfl ?_
    decide +kernel
  exact undo_run smallEnv smallTree (fun _ => none) _ editOps 4 1 ['x'] rfl (by decide +kernel)
    (by decide +kernel) (by decide +kernel) (by decide +kernel) editOps_onFile hrun
    (by decide +kernel) editedState_rollbacks

/-! ## Paths that do not fit -/

/-- A lower directory whose name has 229 characters. -/
def longName : CStr := List.replicate 229 'l'

def longTree : Lower := (Lower.empty.alloc (dirInode 1)).addNode 0 longName (dirInode 2)

def longEnv : Env := treeEnv smallEnv.hash [⟨'/' :: longName, 0, longName, 1⟩] [['m']]

/-- The file `x` was made. -/
def longPast : List Op :=
  [.mount ('/' :: longName) none none, .make sIFREG 1 ['x'] 0x1A4#16 ⟨0, 0, 0⟩ 10 1 none]

def longState : State := run (step longEnv) (State.init longTree fun _ => none) longPast

/-- It is written in two sessions, a nanosecond apart. -/
def longOps : List Op :=
  [.open 0 2 true none, .write 0 0 [1] 1700000000000000001 .clean none, .release 0,
    .open 0 2 true none, .write 0 0 [2] 1700000000000000002 .clean none]

def longWritten : State × Track := run (trackStep longEnv) (longState, .start ['x']) longOps

/-- The one path of both shadow files. -/
def cutPath : CStr :=
  snprintf pathBufSize (('/' :: longName) ++ '/' :: shadowDir ++ ['/', '1', '0', '_', '1', '7', '0',
    '0', '0', '0', '0'])

def longEntries : List (CowVersion × Content) :=
  [(⟨1700000000000000002, .write, cutPath, [],
      ⟨sIFREG ||| 0x1A4#16, 0, 0, 1700000000000000001⟩, true, 1⟩, [1]),
    (⟨1700000000000000001, .write, cutPath, [], ⟨sIFREG ||| 0x1A4#16, 0, 0, 1⟩, true, 0⟩, [])]

/-- After the rollbacks of the two versions. -/
def longUndone : State :=
  run (step longEnv) longWritten.1
    [.rollback ['/', 'm', '/', 'x'] 1700000000000000002 (.clean ⟨0, 0, 0⟩ 11 2),
      .rollback ['/', 'm', '/', 'x'] 1700000000000000001 (.clean ⟨0, 0, 0⟩ 11 3)]

/-- Both snapshots went to one file, whose path was cut: the file does not become empty again. -/
theorem undo_run_truncated :
    longState = run (step longEnv) (State.init longTree fun _ => none) longPast ∧
      longState.lower.entries 1 ['x'] = some 2 ∧
      (observe (step longEnv) stampOf (State.init longTree fun _ => none)
        (longPast ++ longOps)).Nodup ∧
      Along (step longEnv) NonzeroStamp longState longOps ∧
      Along (trackStep longEnv) (FileStep longEnv 2 1) (longState, .start ['x']) longOps ∧
      longWritten.2.recorded.length = 2 ∧
      Rollbacks longEnv 2 1 longWritten.1 longWritten.2.name longWritten.2.recorded
        longUndone ∧
      longState.lower.content 2 = [] ∧ longUndone.lower.content 2 = [1] := by
  have hsteps : Along (trackStep longEnv) (FileStep longEnv 2 1) (longState, .start ['x'])
      longOps := by
    refine ⟨fileStep_of_clean ?_ ?_ ?_ ?_, fileStep_of_clean ?_ ?_ ?_ ?_,
      fileStep_of_clean ?_ ?_ ?_ ?_, fileStep_of_clean ?_ ?_ ?_ ?_,
      fileStep_of_clean ?_ ?_ ?_ ?_, trivial⟩
    all_goals first
      | decide +kernel
      | (intro φ hφ; cases hφ <;> rfl)
  have htrack : longWritten.2 = ⟨['x'], [0, 0], longEntries⟩ := by decide +kernel
  have hback : Rollbacks longEnv 2 1 longWritten.1 longWritten.2.name
      longWritten.2.recorded longUndone := by
    rw [htrack]
    refine .undo (show cowfsPath longEnv _ ['/', 'm', '/', 'x'] none = _ from ?_)
      (RollbackFaults.clean_fine ⟨0, 0, 0⟩ 11 2) ?_
    · decide +kernel
    refine .undo (show cowfsPath longEnv _ ['/', 'm', '/', 'x'] none = _ from ?_)
      (RollbackFaults.clean_fine ⟨0, 0, 0⟩ 11 3) .done
    decide +kernel
  exact ⟨rfl, by decide +kernel, by decide +kernel, by decide +kernel, hsteps, by decide +kernel,
    hback, by decide +kernel, by decide +kernel⟩

end Cowfs
