import Cowfs.Construction.Paths
import Cowfs.Properties.LowerTree
import Cowfs.Properties.Snapshots

/-!
# What a rollback restores

A `COWFS_IOC_ROLLBACK` request first selects a version and a place: `chosen` collects every
way in which it fails before it acts, and `ioctlRollback_eq` splits a request into the choice
and the action.  A choice is in effect (`InEffect`) when the lower tree shows what the version
recorded.

The action drops results on its way: the copy of a recreated file, an error of the lookup in
the `COW_OP_UNLINK` branch, and the change of attributes are not reported, and a short write is
not noticed.  `rollback_success_iff` says for every request answered with 0 under which results
of the kernel's calls the version really is in effect.
-/

namespace Cowfs

variable {env : Env} {s : State} {l : Lower} {st : Store}

/-! ## Restoring a content -/

/-- Every call of `cowfs_shadow_restore_file` does its part for the content `c`. -/
structure Restores (φ : CopyFaults) (c : Content) : Prop where
  cred : φ.cred = false
  openSrc : φ.openSrc = none
  openDst : φ.openDst = none
  truncate : φ.truncate = none
  kmalloc : φ.kmalloc = false
  io : CompleteAll φ.io c

/-- What restoring can do to the lower tree. -/
inductive Restored (env : Env) (st : Store) (l : Lower) (path : CStr) (f : Fid) (now : ℕ)
    (φ : CopyFaults) : Status → Lower → Prop
  /-- It fails before the file is truncated. -/
  | untouched (e : Errno) (h : ∀ c, ¬ Restores φ c ∨ st.shadowAt env path = none) :
      Restored env st l path f now φ (some e) l
  /-- It fails with the file truncated. -/
  | emptied (e : Errno) {src : Content} (hsrc : st.shadowAt env path = some src)
      (h : ∀ c, ¬ Restores φ c) : Restored env st l path f now φ (some e) (l.setData f [] now)
  /-- The loop ran. -/
  | copied {src : Content} (hsrc : st.shadowAt env path = some src)
      (h : ∀ c, Restores φ c ↔ CompleteAll φ.io c) :
      Restored env st l path f now φ (copyAll φ.io src).1
        (l.setData f (copyAll φ.io src).2 now)

lemma restore_cases (env : Env) (st : Store) (l : Lower) (path : CStr) (f : Fid) (now : ℕ)
    (φ : CopyFaults) :
    Restored env st l path f now φ (shadowRestoreFile env st l path f now φ).1
      (shadowRestoreFile env st l path f now φ).2 := by
  unfold shadowRestoreFile
  by_cases hcred : φ.cred
  · rw [if_pos hcred]
    refine .untouched _ fun c => .inl fun h => ?_
    have := h.cred
    simp [hcred] at this
  rw [if_neg hcred]
  split
  · next e hopen =>
    refine .untouched _ fun c => .inl fun h => ?_
    have := h.openSrc
    simp [hopen] at this
  · next hsrc => exact .untouched _ fun c => .inr hsrc
  · next src hopenSrc hsrc =>
    split
    · next e hopen =>
      refine .untouched _ fun c => .inl fun h => ?_
      have := h.openDst
      simp [hopen] at this
    · next hopenDst =>
      split
      · next e htrunc =>
        refine .untouched _ fun c => .inl fun h => ?_
        have := h.truncate
        simp [htrunc] at this
      · next htrunc =>
        split
        · next hk =>
          refine .emptied _ hsrc fun c h => ?_
          have := h.kmalloc
          simp [hk] at this
        · next hk =>
          refine .copied hsrc fun c => ⟨fun h => h.io, fun h => ?_⟩
          exact ⟨by simpa using hcred, hopenSrc, hopenDst, htrunc, by simpa using hk, h⟩

/-- Restoring changes no entry and no other file. -/
lemma restore_frame (env : Env) (st : Store) (l : Lower) (path : CStr) (f : Fid) (now : ℕ)
    (φ : CopyFaults) :
    (shadowRestoreFile env st l path f now φ).2 = l ∨
      ∃ data, (shadowRestoreFile env st l path f now φ).2 = l.setData f data now := by
  have h := restore_cases env st l path f now φ
  generalize (shadowRestoreFile env st l path f now φ).1 = err at h
  generalize (shadowRestoreFile env st l path f now φ).2 = l' at h ⊢
  cases h with
  | untouched => exact .inl rfl
  | emptied => exact .inr ⟨[], rfl⟩
  | copied => exact .inr ⟨_, rfl⟩

lemma completeAll_nil (io : ℕ → IoStep) : CompleteAll io [] := .done (Nat.le_refl 0)

/-- An empty file gets the content of the shadow file when nothing fails, or when there is
nothing to copy. -/
lemma restore_content_empty {path : CStr} {f : Fid} {c : Content} (hf : (l.inodes f).isSome)
    (hempty : l.content f = []) (hc : st.shadowAt env path = some c) (now : ℕ)
    (φ : CopyFaults) :
    (shadowRestoreFile env st l path f now φ).2.content f = c ↔ c = [] ∨ Restores φ c := by
  have h := restore_cases env st l path f now φ
  generalize (shadowRestoreFile env st l path f now φ).1 = err at h
  generalize (shadowRestoreFile env st l path f now φ).2 = l' at h ⊢
  cases h with
  | untouched e h =>
    have hno : ¬ Restores φ c := by
      rcases h c with h | h
      · exact h
      · rw [hc] at h
        cases h
    simp [hempty, hno, eq_comm]
  | emptied e hsrc h =>
    rw [Lower.setData_content hf]
    simp [h c, eq_comm]
  | @copied src hsrc h =>
    obtain rfl : c = src := Option.some.inj (hc.symm.trans hsrc)
    rw [Lower.setData_content hf, copyAll_eq_iff, h]
    constructor
    · exact Or.inr
    · rintro (rfl | h)
      · exact completeAll_nil φ.io
      · exact h

/-- A restoration that reports success found the shadow file; the content is its content when
nothing was cut short. -/
lemma restore_content_of_success {path : CStr} {f : Fid} {now : ℕ} {φ : CopyFaults}
    (hf : (l.inodes f).isSome) (h : (shadowRestoreFile env st l path f now φ).1 = none) :
    ∃ c, st.shadowAt env path = some c ∧
      ((shadowRestoreFile env st l path f now φ).2.content f = c ↔ CompleteAll φ.io c) := by
  have hr := restore_cases env st l path f now φ
  generalize (shadowRestoreFile env st l path f now φ).1 = err at hr h
  generalize (shadowRestoreFile env st l path f now φ).2 = l' at hr ⊢
  cases hr with
  | untouched => cases h
  | emptied => cases h
  | @copied src hsrc hres =>
    refine ⟨src, hsrc, ?_⟩
    rw [Lower.setData_content hf, copyAll_eq_iff]

/-! ## The choice and the action -/

/-- What a request acts on: a deleted name `base` of the directory `dir`, or the file at a
place, and a version. -/
inductive Choice
  | deleted (dir : Fid) (base : CStr) (v : CowVersion)
  | found (p : Place) (v : CowVersion)
  deriving DecidableEq

/-- The choice of `rollback_deleted`. -/
def chosenDeleted (env : Env) (s : State) (path : CStr) (timestamp : UInt64)
    (φ : RollbackFaults) : Except Errno Choice :=
  match strrchr '/' (strscpy reqPathSize path) with
  | none => .error .einval
  | some (dir, _) =>
    if path.drop (dir.length + 1) = [] then .error .einval
    else
      match versionFindDeleted s.store.table (path.drop (dir.length + 1)) timestamp with
      | none => .error .enoent
      | some v =>
        match cowfsPath env s (if dir = [] then ['/'] else dir) φ.parent with
        | .error e => .error e
        | .ok parent =>
          if !s.lower.isDir parent.file then .error .enotdir
          else .ok (.deleted parent.file (path.drop (dir.length + 1)) v)

/-- The version and the place a request acts on. -/
def chosen (env : Env) (s : State) (path : CStr) (timestamp : UInt64) (φ : RollbackFaults) :
    Except Errno Choice :=
  if φ.copyIn then .error .efault
  else
    match pathToLowerIno env s path φ.path with
    | .error .enoent => chosenDeleted env s path timestamp φ
    | .error e => .error e
    | .ok ino =>
      match versionFind env.hash s.store.table ino timestamp with
      | none => .error .enoent
      | some v =>
        match cowfsPath env s path φ.path₂ with
        | .error e => .error e
        | .ok p => .ok (.found p v)

/-- Create `name` in `dir` and fill it from the shadow file of `v`; the result of the copy is
dropped. -/
def recreate (env : Env) (s : State) (dir : Fid) (name : CStr) (v : CowVersion)
    (φ : RollbackFaults) : Status × Lower :=
  match vfsCreate s.lower dir name v.savedStat.mode φ.cred φ.ino φ.now φ.create with
  | (some e, _) => (some e, s.lower)
  | (none, l) =>
    (none,
      if v.hasData then
        (shadowRestoreFile env s.store l v.shadowPath s.lower.next φ.now φ.restore).2
      else l)

/-- The action on a choice. -/
def act (env : Env) (s : State) (φ : RollbackFaults) : Choice → Status × State
  | .deleted dir base v =>
    match φ.lookup with
    | some e => (some e, s)
    | none => ((recreate env s dir base v φ).1, { s with lower := (recreate env s dir base v φ).2 })
  | .found p v => rollbackVersion env s p v φ

lemma rollbackDeleted_eq (env : Env) (s : State) (path : CStr) (timestamp : UInt64)
    (φ : RollbackFaults) :
    rollbackDeleted env s path timestamp φ =
      match chosenDeleted env s path timestamp φ with
      | .error e => (some e, s)
      | .ok c => act env s φ c := by
  unfold rollbackDeleted recreateDeleted chosenDeleted
  cases strrchr '/' (strscpy reqPathSize path) with
  | none => rfl
  | some p =>
    obtain ⟨dir, b⟩ := p
    dsimp only
    generalize path.drop (dir.length + 1) = base
    generalize (if dir = [] then ['/'] else dir) = dirbuf
    by_cases hbase : base = []
    · rw [if_pos hbase, if_pos hbase]
    rw [if_neg hbase, if_neg hbase]
    cases versionFindDeleted s.store.table base timestamp with
    | none => rfl
    | some v =>
      dsimp only
      cases cowfsPath env s dirbuf φ.parent with
      | error e => rfl
      | ok parent =>
        dsimp only
        cases s.lower.isDir parent.file with
        | false => rfl
        | true =>
          simp only [Bool.not_true, Bool.false_eq_true, if_false, act, recreate]
          cases φ.lookup with
          | some e => rfl
          | none =>
            dsimp only
            rcases vfsCreate s.lower parent.file base v.savedStat.mode φ.cred φ.ino φ.now
              φ.create with ⟨_ | e, l⟩
            · cases v.hasData <;> rfl
            · rfl

/-- **A request is a choice and an action.** -/
theorem ioctlRollback_eq (env : Env) (s : State) (path : CStr) (timestamp : UInt64)
    (φ : RollbackFaults) :
    ioctlRollback env s path timestamp φ =
      match chosen env s path timestamp φ with
      | .error e => (some e, s)
      | .ok c => act env s φ c := by
  unfold ioctlRollback chosen
  cases φ.copyIn with
  | true => rfl
  | false =>
    simp only [Bool.false_eq_true, if_false]
    cases pathToLowerIno env s path φ.path with
    | error e =>
      cases e with
      | enoent => exact rollbackDeleted_eq env s path timestamp φ
      | _ => rfl
    | ok ino =>
      dsimp only
      cases versionFind env.hash s.store.table ino timestamp with
      | none => rfl
      | some v =>
        dsimp only
        cases cowfsPath env s path φ.path₂ <;> rfl

lemma rollbackUnlink_eq (env : Env) (s : State) (p : Place) (v : CowVersion)
    (φ : RollbackFaults) :
    rollbackUnlink env s p v φ =
      match φ.lookup with
      | some _ => (none, s.lower)
      | none => recreate env s p.dir v.origName v φ := by
  unfold rollbackUnlink recreate
  cases φ.lookup with
  | some e => rfl
  | none =>
    dsimp only
    rcases vfsCreate s.lower p.dir v.origName v.savedStat.mode φ.cred φ.ino φ.now φ.create with
      ⟨_ | e, l⟩
    · cases v.hasData <;> rfl
    · rfl

lemma cowfsPath_entry {path : CStr} {err : Status} {p : Place}
    (h : cowfsPath env s path err = .ok p) : s.lower.entries p.dir p.name = some p.file := by
  unfold cowfsPath kernPath at h
  split at h
  · cases h
  · cases h
  · next d n f hk =>
    cases h
    split at hk
    · cases hk
    · exact env.kernPath_entry _ _ _ _ _ _ hk

/-- The place of a choice is a name of the tree. -/
lemma chosen_entry {path : CStr} {timestamp : UInt64} {φ : RollbackFaults} {p : Place}
    {v : CowVersion} (h : chosen env s path timestamp φ = .ok (.found p v)) :
    s.lower.entries p.dir p.name = some p.file := by
  unfold chosen at h
  split at h
  · cases h
  split at h
  · unfold chosenDeleted at h
    repeat' (first | cases h | split at h)
  · cases h
  split at h
  · cases h
  split at h
  · cases h
  next p' hp =>
    cases h
    exact cowfsPath_entry hp

lemma cowfsPath_unique {path : CStr} {err err' : Status} {p p' : Place}
    (h : cowfsPath env s path err = .ok p) (h' : cowfsPath env s path err' = .ok p') : p' = p := by
  cases err with
  | some e => cases h
  | none =>
    cases err' with
    | some e => cases h'
    | none => exact Except.ok.inj (h'.symm.trans h)

/-- A place is found when nothing keeps the path from being resolved. -/
lemma cowfsPath_none {path : CStr} {err : Status} {p : Place}
    (h : cowfsPath env s path err = .ok p) : err = none := by
  cases err with
  | some e => cases h
  | none => rfl

/-- The inode number of a path is that of the file it leads to. -/
lemma pathToLowerIno_of_place {path : CStr} {err : Status} {p : Place}
    (h : cowfsPath env s path err = .ok p) :
    pathToLowerIno env s path err = .ok (s.lower.inoOf p.file) := by
  rw [pathToLowerIno, h]
  rfl

lemma place_of_pathToLowerIno {path : CStr} {err : Status} {ino : UInt64}
    (h : pathToLowerIno env s path err = .ok ino) :
    ∃ p, cowfsPath env s path err = .ok p ∧ ino = s.lower.inoOf p.file := by
  unfold pathToLowerIno at h
  cases hp : cowfsPath env s path err with
  | error e =>
    rw [hp] at h
    cases h
  | ok p =>
    rw [hp] at h
    exact ⟨p, rfl, (Except.ok.inj h).symm⟩

/-- The version of a choice is that of the number at its place. -/
lemma chosen_version {path : CStr} {timestamp : UInt64} {φ : RollbackFaults} {p : Place}
    {v : CowVersion} (h : chosen env s path timestamp φ = .ok (.found p v)) :
    cowfsPath env s path φ.path₂ = .ok p ∧
      versionFind env.hash s.store.table (s.lower.inoOf p.file) timestamp = some v := by
  unfold chosen at h
  split at h
  · cases h
  split at h
  · unfold chosenDeleted at h
    repeat' (first | cases h | split at h)
  · cases h
  next ino hino =>
  obtain ⟨q, hq, rfl⟩ := place_of_pathToLowerIno hino
  split at h
  · cases h
  next w hw =>
  split at h
  · cases h
  next p' hp' =>
  obtain rfl := cowfsPath_unique hq hp'
  cases h
  exact ⟨hp', hw⟩

lemma rollbackVersion_fst (env : Env) (s : State) (p : Place) (v : CowVersion)
    (φ : RollbackFaults) :
    (rollbackVersion env s p v φ).1 = (rollbackDispatch env s p v φ).1 := rfl

/-- The attributes are asked for only when the dispatch succeeded. -/
lemma rollbackVersion_lower (env : Env) (s : State) (p : Place) (v : CowVersion)
    (φ : RollbackFaults) :
    (rollbackVersion env s p v φ).2.lower =
      if (rollbackDispatch env s p v φ).1 = none ∧ v.opType = .setattr then
        (notifyChange (rollbackDispatch env s p v φ).2 p.file (savedAttr v) φ.now φ.notify).2
      else (rollbackDispatch env s p v φ).2 := rfl

/-! The branches. -/

lemma rollbackDispatch_unlink (env : Env) (s : State) (p : Place) {v : CowVersion}
    (φ : RollbackFaults) (hv : v.opType = .unlink) :
    rollbackDispatch env s p v φ = rollbackUnlink env s p v φ := by
  rw [rollbackDispatch, if_pos hv]

lemma rollbackDispatch_data (env : Env) (s : State) (p : Place) {v : CowVersion}
    (φ : RollbackFaults) (hu : v.opType ≠ .unlink) (hd : v.hasData = true) :
    rollbackDispatch env s p v φ =
      shadowRestoreFile env s.store s.lower v.shadowPath p.file φ.now φ.restore := by
  rw [rollbackDispatch, if_neg hu, if_pos hd]

lemma rollbackDispatch_nodata (env : Env) (s : State) (p : Place) {v : CowVersion}
    (φ : RollbackFaults) (hu : v.opType ≠ .unlink) (hd : v.hasData = false) :
    rollbackDispatch env s p v φ =
      if v.opType = .rename then rollbackRename s p v φ else (none, s.lower) := by
  rw [rollbackDispatch, if_neg hu, if_neg (by simp [hd])]

/-! ## Versions in effect -/

/-- `f` has the content of the shadow file of `v`, where `v` has data. -/
def DataRestored (env : Env) (st : Store) (l : Lower) (v : CowVersion) (f : Fid) : Prop :=
  v.hasData = true → ∃ c, st.shadowAt env v.shadowPath = some c ∧ l.content f = c

/-- The file `v` recorded exists again as `name` in `dir`. -/
def Undeleted (env : Env) (st : Store) (l : Lower) (dir : Fid) (name : CStr)
    (v : CowVersion) : Prop :=
  ∃ f, l.entries dir name = some f ∧ DataRestored env st l v f

/-- `f` has the mode and the owners `v` saved. -/
def SameAttrs (l : Lower) (f : Fid) (v : CowVersion) : Prop :=
  (l.getattr f).mode = v.savedStat.mode ∧ (l.getattr f).uid = v.savedStat.uid ∧
    (l.getattr f).gid = v.savedStat.gid

/-- The chosen version is in effect in the tree `l`. -/
def InEffect (env : Env) (st : Store) (l : Lower) : Choice → Prop
  | .deleted dir base v => Undeleted env st l dir base v
  | .found p v =>
    match v.opType with
    | .unlink => Undeleted env st l p.dir v.origName v
    | .write => DataRestored env st l v p.file
    | .rename => l.entries p.dir v.origName = some p.file
    | .setattr => DataRestored env st l v p.file ∧ SameAttrs l p.file v

/-- The shadow file is there and every call of the copy into a new file does its part, or there
is nothing to copy. -/
def Filled (env : Env) (st : Store) (v : CowVersion) (φ : CopyFaults) : Prop :=
  v.hasData = true →
    ∃ c, st.shadowAt env v.shadowPath = some c ∧ (c = [] ∨ Restores φ c)

/-- No read or write of the copy is cut short. -/
def Uncut (env : Env) (st : Store) (v : CowVersion) (φ : CopyFaults) : Prop :=
  v.hasData = true → ∀ c, st.shadowAt env v.shadowPath = some c → CompleteAll φ.io c

/-- None of the failures that go unreported happens, or what they would spoil is already as it
should be. -/
def NothingDropped (env : Env) (s : State) (φ : RollbackFaults) : Choice → Prop
  | .deleted _ _ v => Filled env s.store v φ.restore
  | .found p v =>
    match v.opType with
    | .unlink =>
      match φ.lookup with
      | none => Filled env s.store v φ.restore
      | some _ => Undeleted env s.store s.lower p.dir v.origName v
    | .write => Uncut env s.store v φ.restore
    | .rename => v.hasData = false ∨ s.lower.entries p.dir v.origName = some p.file
    | .setattr =>
      Uncut env s.store v φ.restore ∧ (φ.notify = none ∨ SameAttrs s.lower p.file v)

/-! ## The branches -/

/-- The tree with the file `recreate` makes, before it is filled. -/
def withNewFile (l : Lower) (dir : Fid) (name : CStr) (v : CowVersion) (φ : RollbackFaults) :
    Lower :=
  l.addNode dir name (newInode l dir sIFREG v.savedStat.mode φ.cred φ.ino φ.now)

lemma recreate_success {dir : Fid} {name : CStr} {v : CowVersion} {φ : RollbackFaults}
    (h : (recreate env s dir name v φ).1 = none) :
    s.lower.entries dir name = none ∧ φ.create = none ∧
      (recreate env s dir name v φ).2 =
        if v.hasData then
          (shadowRestoreFile env s.store (withNewFile s.lower dir name v φ) v.shadowPath
            s.lower.next φ.now φ.restore).2
        else withNewFile s.lower dir name v φ := by
  unfold recreate at h ⊢
  rcases hcreate : vfsCreate s.lower dir name v.savedStat.mode φ.cred φ.ino φ.now φ.create with
    ⟨_ | e, l⟩
  · obtain ⟨hent, herr, rfl⟩ := vfsMake_success hcreate
    exact ⟨hent, herr, rfl⟩
  · rw [hcreate] at h
    cases h

lemma recreate_failure {dir : Fid} {name : CStr} {v : CowVersion} {φ : RollbackFaults}
    (h : (recreate env s dir name v φ).1 ≠ none) : (recreate env s dir name v φ).2 = s.lower := by
  unfold recreate at h ⊢
  rcases hcreate : vfsCreate s.lower dir name v.savedStat.mode φ.cred φ.ino φ.now φ.create with
    ⟨_ | e, l⟩
  · rw [hcreate] at h
    exact absurd rfl h
  · rfl

lemma restore_entries (env : Env) (st : Store) (l : Lower) (path : CStr) (f : Fid) (now : ℕ)
    (φ : CopyFaults) :
    (shadowRestoreFile env st l path f now φ).2.entries = l.entries := by
  rcases restore_frame env st l path f now φ with h | ⟨data, h⟩
  · rw [h]
  · rw [h]
    rfl

/-- A recreated file is what `v` recorded exactly when its copy is. -/
lemma undeleted_recreate {dir : Fid} {name : CStr} {v : CowVersion} {φ : RollbackFaults}
    (h : (recreate env s dir name v φ).1 = none) :
    Undeleted env s.store (recreate env s dir name v φ).2 dir name v ↔
      Filled env s.store v φ.restore := by
  obtain ⟨-, -, htree⟩ := recreate_success h
  have hentry : (withNewFile s.lower dir name v φ).entries dir name = some s.lower.next := by
    rw [withNewFile, Lower.addNode_entries, if_pos ⟨rfl, rfl⟩]
  have hinode : (withNewFile s.lower dir name v φ).inodes s.lower.next =
      some (newInode s.lower dir sIFREG v.savedStat.mode φ.cred φ.ino φ.now) :=
    Lower.addNode_inodes_next _ _ _ _
  have hempty : (withNewFile s.lower dir name v φ).content s.lower.next = [] := by
    rw [Lower.content, hinode]
    rfl
  rw [htree]
  cases hd : v.hasData with
  | false =>
    refine iff_of_true ⟨s.lower.next, hentry, ?_⟩ ?_
    · intro hd'
      simp [hd] at hd'
    · intro hd'
      simp [hd] at hd'
  | true =>
    have hsome : ((withNewFile s.lower dir name v φ).inodes s.lower.next).isSome := by
      rw [hinode]
      rfl
    rw [if_pos rfl]
    unfold Undeleted DataRestored Filled
    rw [restore_entries, hentry]
    simp only [hd, forall_const, Option.some.injEq, exists_eq_left']
    refine exists_congr fun c => and_congr_right fun hc => ?_
    exact restore_content_empty hsome hempty hc φ.now φ.restore

/-- Restoring the content of an existing file, when it is answered with 0. -/
lemma dataRestored_iff {p : Place} {v : CowVersion} {φ : RollbackFaults}
    (hp : (s.lower.inodes p.file).isSome) (hd : v.hasData = true)
    (h : (shadowRestoreFile env s.store s.lower v.shadowPath p.file φ.now φ.restore).1 = none) :
    DataRestored env s.store
        (shadowRestoreFile env s.store s.lower v.shadowPath p.file φ.now φ.restore).2 v p.file ↔
      Uncut env s.store v φ.restore := by
  obtain ⟨c, hc, hiff⟩ := restore_content_of_success hp h
  unfold DataRestored Uncut
  simp only [hd, forall_const, hc, Option.some.injEq, exists_eq_left', forall_eq']
  exact hiff

/-- The change of attributes a `COW_OP_SETATTR` rollback asks for: it takes place, or its error
goes unreported. -/
lemma sameAttrs_notify {f : Fid} {v : CowVersion} {now : ℕ} {err : Status}
    (hf : (l.inodes f).isSome) :
    SameAttrs (notifyChange l f (savedAttr v) now err).2 f v ↔
      err = none ∨ SameAttrs l f v := by
  obtain ⟨i, hi⟩ := Option.isSome_iff_exists.1 hf
  cases err with
  | some e =>
    have hne : (some e : Status) ≠ none := by simp
    simp [notifyChange]
  | none =>
    refine iff_of_true ?_ (.inl rfl)
    unfold SameAttrs
    simp [notifyChange, Lower.getattr, hi, setattrInode, savedAttr, notifyMode, Iattr.zero]

lemma content_notify (f : Fid) (v : CowVersion) (now : ℕ) (err : Status) :
    (notifyChange l f (savedAttr v) now err).2.content f = l.content f := by
  cases err with
  | some e => rfl
  | none => exact content_setattr_of_unsized l f f now rfl

/-! ## Success -/

/-- The branch of a `COW_OP_UNLINK` version. -/
lemma found_unlink_iff {p : Place} {v : CowVersion} {φ : RollbackFaults}
    (hv : v.opType = .unlink) (h : (rollbackVersion env s p v φ).1 = none) :
    InEffect env s.store (rollbackVersion env s p v φ).2.lower (.found p v) ↔
      NothingDropped env s φ (.found p v) := by
  have hdispatch := rollbackDispatch_unlink env s p φ hv
  rw [rollbackVersion_fst, hdispatch, rollbackUnlink_eq] at h
  rw [rollbackVersion_lower, hdispatch, rollbackUnlink_eq]
  simp only [InEffect, NothingDropped, hv, reduceCtorEq, and_false, if_false]
  cases hlookup : φ.lookup with
  | some e => exact Iff.rfl
  | none =>
    rw [hlookup] at h
    exact undeleted_recreate h

/-- The branch of a version with data that is not an unlink. -/
lemma found_data_iff {p : Place} {v : CowVersion} {φ : RollbackFaults}
    (hp : (s.lower.inodes p.file).isSome) (hu : v.opType ≠ .unlink) (hd : v.hasData = true)
    (h : (rollbackVersion env s p v φ).1 = none) :
    InEffect env s.store (rollbackVersion env s p v φ).2.lower (.found p v) ↔
      NothingDropped env s φ (.found p v) := by
  have hdispatch := rollbackDispatch_data env s p φ hu hd
  rw [rollbackVersion_fst, hdispatch] at h
  have hdata := dataRestored_iff hp hd h
  rw [rollbackVersion_lower, hdispatch]
  generalize hl : (shadowRestoreFile env s.store s.lower v.shadowPath p.file φ.now
    φ.restore).2 = l at hdata
  cases hop : v.opType with
  | unlink => exact absurd hop hu
  | write =>
    simp only [InEffect, NothingDropped, hop, reduceCtorEq, and_false, if_false]
    exact hdata
  | rename =>
    have hent : l.entries = s.lower.entries := by
      rw [← hl, restore_entries]
    simp only [InEffect, NothingDropped, hop, reduceCtorEq, and_false, if_false, hent, hd,
      false_or]
  | setattr =>
    have hframe := restore_frame env s.store s.lower v.shadowPath p.file φ.now φ.restore
    rw [hl] at hframe
    have hsome : (l.inodes p.file).isSome := by
      rcases hframe with rfl | ⟨data, rfl⟩
      · exact hp
      · simpa [Lower.setData] using hp
    have hattrs : SameAttrs l p.file v ↔ SameAttrs s.lower p.file v := by
      unfold SameAttrs
      rcases hframe with rfl | ⟨data, rfl⟩
      · rfl
      · obtain ⟨hm, hu, hg⟩ := setData_getattr s.lower p.file data φ.now p.file
        rw [hm, hu, hg]
    simp only [InEffect, NothingDropped, hop, h, and_self, if_true]
    refine and_congr ?_ ?_
    · unfold DataRestored
      rw [content_notify]
      exact hdata
    · rw [sameAttrs_notify hsome, hattrs]

/-- The branch of a version without data that is not an unlink. -/
lemma found_nodata_iff {p : Place} {v : CowVersion} {φ : RollbackFaults}
    (hp : s.lower.entries p.dir p.name = some p.file) (hu : v.opType ≠ .unlink)
    (hd : v.hasData = false) (h : (rollbackVersion env s p v φ).1 = none) :
    InEffect env s.store (rollbackVersion env s p v φ).2.lower (.found p v) ↔
      NothingDropped env s φ (.found p v) := by
  have hdispatch := rollbackDispatch_nodata env s p φ hu hd
  rw [rollbackVersion_fst, hdispatch] at h
  rw [rollbackVersion_lower, hdispatch]
  have hnodata : ∀ l, DataRestored env s.store l v p.file := by
    intro l hd'
    simp [hd] at hd'
  have huncut : Uncut env s.store v φ.restore := by
    intro hd'
    simp [hd] at hd'
  cases hop : v.opType with
  | unlink => exact absurd hop hu
  | write =>
    simp only [InEffect, NothingDropped, hop]
    exact iff_of_true (hnodata _) huncut
  | rename =>
    rw [hop, if_pos rfl] at h
    simp only [InEffect, NothingDropped, hop, reduceCtorEq, and_false, if_false, if_true]
    refine iff_of_true ?_ (.inl hd)
    unfold rollbackRename at h ⊢
    cases hlookup : φ.lookup with
    | some e =>
      rw [hlookup] at h
      cases h
    | none =>
      rw [hlookup] at h
      exact (vfsRename_plain hp h).1
  | setattr =>
    simp only [InEffect, NothingDropped, hop, reduceCtorEq, if_false, and_self, if_true]
    refine and_congr (iff_of_true (hnodata _) huncut) ?_
    exact sameAttrs_notify (s.lower.linked _ _ _ hp)

/-- **When success means restored.**  A request that is answered with 0 chose a version, and
the version is in effect exactly when none of the failures that go unreported happened. -/
theorem rollback_success_iff (env : Env) (s : State) (path : CStr) (timestamp : UInt64)
    (φ : RollbackFaults) (h : (ioctlRollback env s path timestamp φ).1 = none) :
    ∃ choice, chosen env s path timestamp φ = .ok choice ∧
      (InEffect env s.store (ioctlRollback env s path timestamp φ).2.lower choice ↔
        NothingDropped env s φ choice) := by
  rw [ioctlRollback_eq] at h ⊢
  cases hchosen : chosen env s path timestamp φ with
  | error e =>
    rw [hchosen] at h
    cases h
  | ok choice =>
    rw [hchosen] at h
    refine ⟨choice, rfl, ?_⟩
    cases choice with
    | deleted dir base v =>
      simp only [act] at h ⊢
      cases hlookup : φ.lookup with
      | some e =>
        rw [hlookup] at h
        cases h
      | none =>
        rw [hlookup] at h
        exact undeleted_recreate h
    | found p v =>
      have hp := chosen_entry hchosen
      by_cases hu : v.opType = .unlink
      · exact found_unlink_iff hu h
      · cases hd : v.hasData with
        | true => exact found_data_iff (s.lower.linked _ _ _ hp) hu hd h
        | false => exact found_nodata_iff hp hu hd h

/-! ## A copy that fails unseen -/

/-- The file `x` was made, written and removed. -/
def unlinkedState : State :=
  run (step smallEnv) (State.init smallTree fun _ => none)
    [.mount ['/', 'l'] none none, .make sIFREG 1 ['x'] 0x1A4#16 ⟨0, 0, 0⟩ 10 1 none,
      .open 0 4 true none, .write 0 0 [1, 2] 1000 .clean none,
      .unlink 1 ['x'] 2000 .clean none]

/-- The version of the removal. -/
def unlinkedVersion : CowVersion where
  timestamp := 2000
  opType := .unlink
  shadowPath := ['/', 'l', '/'] ++ shadowDir ++ '/' :: decimalPair 10 2000
  origName := ['x']
  savedStat := ⟨sIFREG ||| 0x1A4#16, 0, 0, 1000⟩
  hasData := true
  node := 1

/-- No call fails but the opening of the new file for the copy. -/
def unopenedTarget : RollbackFaults :=
  { RollbackFaults.clean ⟨0, 0, 0⟩ 11 3000 with
    restore := { CopyFaults.clean with openDst := some (.other 5) } }

/-- The request is answered with 0; the file is there again, and empty. -/
theorem rollback_success_unrestored :
    (ioctlRollback smallEnv unlinkedState ['/', 'm', '/', 'x'] 0 unopenedTarget).1 = none ∧
      chosen smallEnv unlinkedState ['/', 'm', '/', 'x'] 0 unopenedTarget =
        .ok (.deleted 1 ['x'] unlinkedVersion) ∧
      ¬ InEffect smallEnv unlinkedState.store
        (ioctlRollback smallEnv unlinkedState ['/', 'm', '/', 'x'] 0 unopenedTarget).2.lower
        (.deleted 1 ['x'] unlinkedVersion) := by
  refine ⟨by decide +kernel, by decide +kernel, ?_⟩
  rintro ⟨f, hf, hdata⟩
  obtain ⟨c, hc, hcontent⟩ := hdata rfl
  have hentry : (ioctlRollback smallEnv unlinkedState ['/', 'm', '/', 'x'] 0
      unopenedTarget).2.lower.entries 1 ['x'] = some 5 := by decide +kernel
  have hshadow : unlinkedState.store.shadowAt smallEnv unlinkedVersion.shadowPath =
      some [1, 2] := by decide +kernel
  have hempty : (ioctlRollback smallEnv unlinkedState ['/', 'm', '/', 'x'] 0
      unopenedTarget).2.lower.content 5 = [] := by decide +kernel
  obtain rfl := Option.some.inj (hentry.symm.trans hf)
  obtain rfl := Option.some.inj (hshadow.symm.trans hc)
  rw [hempty] at hcontent
  cases hcontent

/-- The same request without the failure. -/
theorem rollback_success_restored :
    ∃ choice, chosen smallEnv unlinkedState ['/', 'm', '/', 'x'] 0
        (.clean ⟨0, 0, 0⟩ 11 3000) = .ok choice ∧
      (InEffect smallEnv unlinkedState.store
          (ioctlRollback smallEnv unlinkedState ['/', 'm', '/', 'x'] 0
            (.clean ⟨0, 0, 0⟩ 11 3000)).2.lower choice ↔
        NothingDropped smallEnv unlinkedState (.clean ⟨0, 0, 0⟩ 11 3000) choice) :=
  rollback_success_iff smallEnv unlinkedState ['/', 'm', '/', 'x'] 0
    (.clean ⟨0, 0, 0⟩ 11 3000) (by decide +kernel)

end Cowfs
