import Cowfs.Construction.System
import Cowfs.Properties.CopyLoop
import Cowfs.Properties.VersionTable

/-!
# What a step does to the store

Four operations record versions, each with code of its own.  `Snapshot` is one such recording
with everything that decides it, and `Snapshot.take_cases` says once what it can do: nothing,
a shadow file without a version, or a version at the head of its list with the overflow
released.  `StoreStep` lists what a step of the system can do to the store.  Invariants of the
store are derived from these two, and no later module unfolds the operations again.

The shadow directories are looked at through `Store.fileAt`, one file at a time: copying sets
one file, releasing a version removes at most the file of its base name.
-/

namespace Cowfs

open KeyedLog

variable {env : Env} {st : Store}

/-! ## Shadow files one at a time -/

/-- The file `base` in the shadow directory of `r`. -/
def Store.fileAt (st : Store) (r : Fid) (base : CStr) : Option Content :=
  (st.shadow r).bind fun files => files base

lemma shadowPlace_of_locate {path : CStr} {r : Fid} {base : CStr}
    (h : locate env path = some (r, base)) : shadowPlace env path = .inside r base := by
  unfold shadowPlace
  rw [h]

lemma shadowPlace_eq_inside {path : CStr} {r : Fid} {base : CStr} :
    shadowPlace env path = .inside r base ↔ locate env path = some (r, base) := by
  unfold shadowPlace
  rcases locate env path with _ | ⟨r', base'⟩ <;> simp

lemma shadowAt_of_locate {path : CStr} {r : Fid} {base : CStr}
    (h : locate env path = some (r, base)) : st.shadowAt env path = st.fileAt r base := by
  unfold Store.shadowAt
  rw [shadowPlace_of_locate h]
  rfl

lemma shadowBase_of_locate {path : CStr} {r : Fid} {base : CStr}
    (h : locate env path = some (r, base)) : shadowBase path = base := by
  unfold locate at h
  unfold shadowBase
  cases hsplit : strrchr '/' path with
  | none => simp [hsplit] at h
  | some p =>
    obtain ⟨dir, b⟩ := p
    simp only [hsplit] at h
    split at h
    · cases h
    · obtain ⟨r', -, hr⟩ := Option.map_eq_some_iff.1 h
      exact (Prod.mk.inj hr).2

/-- Paths that lead to one place end in one name. -/
lemma shadowBase_of_place {path path' : CStr} (h : shadowPlace env path = shadowPlace env path') :
    shadowBase path = shadowBase path' := by
  rcases hloc : locate env path with _ | ⟨r, base⟩
  · have hplace : shadowPlace env path = .outside path := by
      unfold shadowPlace
      rw [hloc]
    rcases hloc' : locate env path' with _ | ⟨r', base'⟩
    · unfold shadowPlace at h
      rw [hloc, hloc'] at h
      exact congrArg shadowBase (ShadowPlace.outside.inj h)
    · rw [hplace, shadowPlace_of_locate hloc'] at h
      cases h
  · rw [shadowPlace_of_locate hloc, eq_comm, shadowPlace_eq_inside] at h
    rw [shadowBase_of_locate hloc, shadowBase_of_locate h]

lemma fileAt_setShadow_self {r : Fid} {base : CStr} {c : Option Content}
    (h : (st.shadow r).isSome) : (st.setShadow r base c).fileAt r base = c := by
  obtain ⟨files, hfiles⟩ := Option.isSome_iff_exists.1 h
  simp [Store.fileAt, Store.setShadow, hfiles]

lemma fileAt_setShadow_none (r : Fid) (base : CStr) :
    (st.setShadow r base none).fileAt r base = none := by
  unfold Store.fileAt Store.setShadow
  cases st.shadow r <;> simp

lemma fileAt_setShadow_of_ne {r r' : Fid} {base base' : CStr} {c : Option Content}
    (h : (r', base') ≠ (r, base)) :
    (st.setShadow r base c).fileAt r' base' = st.fileAt r' base' := by
  by_cases hr : r' = r
  · subst hr
    have hb : base' ≠ base := fun he => h (by rw [he])
    unfold Store.fileAt Store.setShadow
    cases st.shadow r' <;> simp [hb]
  · simp [Store.fileAt, Store.setShadow, hr]

lemma isSome_shadow_setShadow (st : Store) (r r' : Fid) (base : CStr) (c : Option Content) :
    ((st.setShadow r base c).shadow r').isSome = (st.shadow r').isSome := by
  by_cases hr : r' = r
  · subst hr
    simp [Store.setShadow]
  · simp [Store.setShadow, hr]

@[simp] lemma setShadow_table (st : Store) (r : Fid) (base : CStr) (c : Option Content) :
    (st.setShadow r base c).table = st.table := rfl

@[simp] lemma setShadow_dirpath (st : Store) (r : Fid) (base : CStr) (c : Option Content) :
    (st.setShadow r base c).dirpath = st.dirpath := rfl

@[simp] lemma setShadow_nextNode (st : Store) (r : Fid) (base : CStr) (c : Option Content) :
    (st.setShadow r base c).nextNode = st.nextNode := rfl

/-! ## Files anywhere -/

lemma fileIn_put_self {p : ShadowPlace} {c : Content}
    (h : ∀ r base, p = .inside r base → (st.shadow r).isSome) : (st.put c p).fileIn p = some c := by
  cases p with
  | inside r base => exact fileAt_setShadow_self (h r base rfl)
  | outside path => simp [Store.fileIn, Store.put]

lemma fileIn_put_of_ne {p p' : ShadowPlace} {c : Content} (h : p' ≠ p) :
    (st.put c p).fileIn p' = st.fileIn p' := by
  cases p with
  | inside r base =>
    cases p' with
    | inside r' base' =>
      exact fileAt_setShadow_of_ne fun he => h (by rw [(Prod.mk.inj he).1, (Prod.mk.inj he).2])
    | outside path => rfl
  | outside path =>
    cases p' with
    | inside r' base' => rfl
    | outside path' =>
      have hne : path' ≠ path := fun he => h (by rw [he])
      simp [Store.fileIn, Store.put, hne]

/-- What keeps the files of one name, inside and outside, keeps the file of a path with it. -/
lemma shadowAt_congr {st' : Store} {path : CStr} (hout : st'.outside = st.outside)
    (hin : ∀ r, st'.fileAt r (shadowBase path) = st.fileAt r (shadowBase path)) :
    st'.shadowAt env path = st.shadowAt env path := by
  rcases hloc : locate env path with _ | ⟨r, base⟩
  · unfold Store.shadowAt shadowPlace
    rw [hloc]
    exact congrFun hout path
  · rw [shadowAt_of_locate hloc, shadowAt_of_locate hloc, ← shadowBase_of_locate hloc, hin r]

lemma shadowAt_put_of_ne {path path' : CStr} {c : Content}
    (h : shadowBase path ≠ shadowBase path') :
    (st.put c (shadowPlace env path')).shadowAt env path = st.shadowAt env path :=
  fileIn_put_of_ne fun he => h (shadowBase_of_place he)

/-- A file of a shadow directory after a write. -/
lemma fileAt_put_of_ne {p : ShadowPlace} {c : Content} {r : Fid} {base : CStr}
    (h : p ≠ .inside r base) : (st.put c p).fileAt r base = st.fileAt r base := by
  have hne : ShadowPlace.inside r base ≠ p := Ne.symm h
  exact fileIn_put_of_ne hne

lemma isSome_shadow_put (st : Store) (c : Content) (p : ShadowPlace) (r : Fid) :
    ((st.put c p).shadow r).isSome = (st.shadow r).isSome := by
  cases p with
  | inside r' base => exact isSome_shadow_setShadow st r' r base (some c)
  | outside path => rfl

@[simp] lemma put_table (st : Store) (c : Content) (p : ShadowPlace) :
    (st.put c p).table = st.table := by
  cases p <;> rfl

@[simp] lemma put_dirpath (st : Store) (c : Content) (p : ShadowPlace) :
    (st.put c p).dirpath = st.dirpath := by
  cases p <;> rfl

@[simp] lemma put_nextNode (st : Store) (c : Content) (p : ShadowPlace) :
    (st.put c p).nextNode = st.nextNode := by
  cases p <;> rfl

/-- The file is opened: its shadow directory is there, or it lies outside of them all. -/
lemma openCreate_eq_none {path : CStr} :
    st.openCreate env path = none ↔
      (∃ r base, locate env path = some (r, base) ∧ (st.shadow r).isSome) ∨
        (locate env path = none ∧ path.getLast? ≠ some '/' ∧
          ((shadowHome env path).bind st.shadow) = none ∧ env.create path = none) := by
  unfold Store.openCreate
  rcases hloc : locate env path with _ | ⟨r, base⟩
  · by_cases hslash : path.getLast? = some '/'
    · simp [hslash]
    · rcases hhome : (shadowHome env path).bind st.shadow with _ | files <;> simp [hslash]
  · rcases hdir : st.shadow r with _ | files <;> simp [hdir]

lemma isSome_of_openCreate {path : CStr} (h : st.openCreate env path = none) {r : Fid}
    {base : CStr} (hplace : shadowPlace env path = .inside r base) : (st.shadow r).isSome := by
  rw [shadowPlace_eq_inside] at hplace
  rcases openCreate_eq_none.1 h with ⟨r', base', hloc, hdir⟩ | ⟨hloc, -⟩
  · rw [hplace] at hloc
    cases hloc
    exact hdir
  · rw [hplace] at hloc
    cases hloc

@[simp] lemma shadowInit_table (st : Store) (root : Fid) (err : Status) :
    (shadowInit st root err).table = st.table := by
  unfold shadowInit
  split <;> rfl

@[simp] lemma outside_shadowInit (st : Store) (root : Fid) (err : Status) :
    (shadowInit st root err).outside = st.outside := by
  unfold shadowInit
  split <;> rfl

/-- A directory that is there is not made anew, and a new one is empty. -/
lemma fileAt_shadowInit (st : Store) (root r : Fid) (err : Status) (base : CStr) :
    (shadowInit st root err).fileAt r base = st.fileAt r base := by
  unfold shadowInit
  split
  · rfl
  by_cases hr : r = root
  · subst hr
    unfold Store.fileAt
    cases st.shadow r <;> simp
  · simp [Store.fileAt, hr]

/-! ## Releasing versions -/

/-- The shadow file `cowfs_version_free` goes for: none for a version without data. -/
def Store.victim (st : Store) (v : CowVersion) : Option (Fid × CStr) :=
  if v.hasData then st.dirpath.map fun r => (r, shadowBase v.shadowPath) else none

lemma versionFree_eq (st : Store) (v : CowVersion) (fail : Bool) :
    versionFree st v fail =
      match st.victim v with
      | none => st
      | some (r, base) => if fail then st else st.setShadow r base none := by
  unfold versionFree shadowRemove Store.victim
  cases v.hasData <;> cases st.dirpath <;> rfl

/-- Only shadow files change, and no shadow directory comes or goes. -/
structure SameBut (st st' : Store) : Prop where
  table : st'.table = st.table
  dirpath : st'.dirpath = st.dirpath
  nextNode : st'.nextNode = st.nextNode
  dirs : ∀ r, (st'.shadow r).isSome = (st.shadow r).isSome

lemma SameBut.refl (st : Store) : SameBut st st := ⟨rfl, rfl, rfl, fun _ => rfl⟩

lemma SameBut.trans {st₁ st₂ st₃ : Store} (h : SameBut st₁ st₂) (h' : SameBut st₂ st₃) :
    SameBut st₁ st₃ :=
  ⟨h'.table.trans h.table, h'.dirpath.trans h.dirpath, h'.nextNode.trans h.nextNode,
    fun r => (h'.dirs r).trans (h.dirs r)⟩

lemma SameBut.setShadow (st : Store) (r : Fid) (base : CStr) (c : Option Content) :
    SameBut st (st.setShadow r base c) :=
  ⟨rfl, rfl, rfl, fun r' => isSome_shadow_setShadow st r r' base c⟩

lemma SameBut.put (st : Store) (c : Content) (p : ShadowPlace) : SameBut st (st.put c p) :=
  ⟨put_table st c p, put_dirpath st c p, put_nextNode st c p, isSome_shadow_put st c p⟩

lemma SameBut.victim {st' : Store} (h : SameBut st st') (v : CowVersion) :
    st'.victim v = st.victim v := by
  unfold Store.victim
  rw [h.dirpath]

lemma versionFree_same (st : Store) (v : CowVersion) (fail : Bool) :
    SameBut st (versionFree st v fail) := by
  rw [versionFree_eq]
  split
  · exact .refl st
  · split
    · exact .refl st
    · exact .setShadow st _ _ _

lemma versionsFree_same (st : Store) (freed : List CowVersion) (fail : ℕ → Bool) :
    SameBut st (versionsFree st freed fail) := by
  induction freed generalizing st with
  | nil => exact .refl st
  | cons v freed ih => exact (versionFree_same st v (fail v.node)).trans (ih _)

lemma fileAt_versionFree {v : CowVersion} {fail : Bool} {r : Fid} {base : CStr}
    (h : st.victim v ≠ some (r, base)) :
    (versionFree st v fail).fileAt r base = st.fileAt r base := by
  rw [versionFree_eq]
  cases hv : st.victim v with
  | none => rfl
  | some p =>
    dsimp only
    split
    · rfl
    · rw [hv] at h
      exact fileAt_setShadow_of_ne fun he => h (congrArg some he.symm)

/-- The files after the release of one version. -/
lemma fileAt_versionFree_eq (v : CowVersion) (fail : Bool) (r : Fid) (base : CStr) :
    (versionFree st v fail).fileAt r base =
      if (if fail then none else st.victim v) = some (r, base) then none
      else st.fileAt r base := by
  by_cases hv : st.victim v = some (r, base)
  · rw [versionFree_eq, hv]
    cases fail
    · simp [fileAt_setShadow_none]
    · simp
  · rw [fileAt_versionFree hv]
    cases fail <;> simp [hv]

@[simp] lemma outside_versionFree (st : Store) (v : CowVersion) (fail : Bool) :
    (versionFree st v fail).outside = st.outside := by
  rw [versionFree_eq]
  split
  · rfl
  · split <;> rfl

@[simp] lemma outside_versionsFree (st : Store) (freed : List CowVersion) (fail : ℕ → Bool) :
    (versionsFree st freed fail).outside = st.outside := by
  induction freed generalizing st with
  | nil => rfl
  | cons v freed ih => exact (ih _).trans (outside_versionFree st v (fail v.node))

/-- A file that is not the one of a released version is left alone. -/
lemma fileAt_versionsFree {freed : List CowVersion} {fail : ℕ → Bool} {r : Fid} {base : CStr}
    (h : ∀ v ∈ freed, st.victim v ≠ some (r, base)) :
    (versionsFree st freed fail).fileAt r base = st.fileAt r base := by
  induction freed generalizing st with
  | nil => rfl
  | cons v freed ih =>
    have hsame := versionFree_same st v (fail v.node)
    have hrest : ∀ w ∈ freed, (versionFree st v (fail v.node)).victim w ≠ some (r, base) := by
      intro w hw
      rw [hsame.victim]
      exact h w (List.mem_cons_of_mem v hw)
    exact (ih hrest).trans (fileAt_versionFree (h v List.mem_cons_self))

/-- What a release leaves was there before. -/
lemma fileAt_of_versionsFree {freed : List CowVersion} {fail : ℕ → Bool} {r : Fid} {base : CStr}
    {c : Content} (h : (versionsFree st freed fail).fileAt r base = some c) :
    st.fileAt r base = some c := by
  induction freed generalizing st with
  | nil => exact h
  | cons v freed ih =>
    have hone : (versionFree st v (fail v.node)).fileAt r base = some c := ih h
    rw [fileAt_versionFree_eq, Option.ite_none_left_eq_some] at hone
    exact hone.2

lemma shadowAt_of_versionsFree {freed : List CowVersion} {fail : ℕ → Bool} {path : CStr}
    {c : Content} (h : (versionsFree st freed fail).shadowAt env path = some c) :
    st.shadowAt env path = some c := by
  unfold Store.shadowAt at h ⊢
  generalize shadowPlace env path = p at h ⊢
  cases p with
  | inside r base => exact fileAt_of_versionsFree h
  | outside out => exact (congrFun (outside_versionsFree st freed fail) out).symm.trans h

/-! ## Snapshots -/

/-- The operation a snapshot is taken for, with the data its code looks at. -/
inductive SnapKind
  | write
  | unlink (name : CStr)
  | rename (name : CStr)
  | setattr (sized : Bool)
  deriving DecidableEq

def SnapKind.op : SnapKind → CowOp
  | .write => .write
  | .unlink _ => .unlink
  | .rename _ => .rename
  | .setattr _ => .setattr

/-- What is copied into `orig_name`. -/
def SnapKind.name : SnapKind → CStr
  | .unlink name => name
  | .rename name => name
  | _ => []

/-- The content of the file is saved. -/
def SnapKind.copies : SnapKind → Bool
  | .write => true
  | .unlink _ => true
  | .rename _ => false
  | .setattr sized => sized

/-- A version whose content could not be saved is dropped. -/
def SnapKind.needsCopy : SnapKind → Bool
  | .write => true
  | .unlink _ => true
  | _ => false

/-- One recording of a version of `file`, whose inode is `inode`. -/
structure Snapshot where
  kind : SnapKind
  file : Fid
  inode : Inode
  sbi : SbInfo
  now : UInt64
  φ : SnapFaults

namespace Snapshot

def take (env : Env) (x : Snapshot) (st : Store) : Store :=
  match x.kind with
  | .write => writeSnapshot env x.sbi x.inode x.now x.φ st
  | .unlink name => unlinkSnapshot env x.sbi name x.inode x.now x.φ st
  | .rename name => renameSnapshot env name x.inode x.now x.φ st
  | .setattr sized => setattrSnapshot env x.sbi sized x.inode x.now x.φ st

/-- The path of the shadow file. -/
def path (x : Snapshot) : CStr := shadowMakePath x.sbi x.inode.ino x.now pathBufSize

/-- The version recorded, at address `node`. -/
def version (x : Snapshot) (node : ℕ) (copied : Bool) : CowVersion where
  timestamp := x.now
  opType := x.kind.op
  shadowPath := if copied then strscpy pathBufSize x.path else []
  origName := strscpy pathBufSize x.kind.name
  savedStat := snapStat x.inode x.φ
  hasData := copied
  node := node

/-- The path is cut to the buffer once and fits it the second time. -/
lemma version_shadowPath (x : Snapshot) (node : ℕ) : (x.version node true).shadowPath = x.path := by
  show strscpy pathBufSize x.path = x.path
  simp [strscpy, path, shadowMakePath, snprintf]

/-- The copy, where one is made. -/
def copy (env : Env) (x : Snapshot) (st : Store) : Status × Store :=
  if x.kind.copies then shadowCopyFile env st.takeNode x.inode.data x.path x.φ.copy
  else (none, st.takeNode)

/-- The four recordings are one: allocate, copy if the kind asks for it, insert. -/
theorem take_eq (env : Env) (x : Snapshot) (st : Store) :
    x.take env st =
      if x.φ.alloc then st
      else
        match x.copy env st with
        | (none, st₁) =>
          (st₁.versionAdd env x.inode.ino (x.version st.nextNode x.kind.copies) x.φ).2
        | (some _, st₁) =>
          if x.kind.needsCopy then st₁
          else (st₁.versionAdd env x.inode.ino (x.version st.nextNode false) x.φ).2 := by
  obtain ⟨kind, file, inode, sbi, now, φ⟩ := x
  cases ha : φ.alloc with
  | true =>
    cases kind <;>
      simp [take, writeSnapshot, unlinkSnapshot, renameSnapshot, setattrSnapshot, ha]
  | false =>
    cases kind with
    | write =>
      simp only [take, writeSnapshot, ha, copy, SnapKind.copies, path, Bool.false_eq_true,
        if_false, if_true, versionAlloc]
      rcases shadowCopyFile env st.takeNode inode.data
        (shadowMakePath sbi inode.ino now pathBufSize) φ.copy with ⟨_ | e, st₁⟩ <;> rfl
    | unlink name =>
      simp only [take, unlinkSnapshot, ha, copy, SnapKind.copies, path, Bool.false_eq_true,
        if_false, if_true, versionAlloc]
      rcases shadowCopyFile env st.takeNode inode.data
        (shadowMakePath sbi inode.ino now pathBufSize) φ.copy with ⟨_ | e, st₁⟩ <;> rfl
    | rename name =>
      simp only [take, renameSnapshot, ha, copy, SnapKind.copies, Bool.false_eq_true,
        if_false, versionAlloc]
      rfl
    | setattr sized =>
      cases sized with
      | false =>
        simp only [take, setattrSnapshot, ha, copy, SnapKind.copies, Bool.false_eq_true,
          if_false, versionAlloc]
        rfl
      | true =>
        simp only [take, setattrSnapshot, ha, copy, SnapKind.copies, path, Bool.false_eq_true,
          if_false, if_true, versionAlloc]
        rcases shadowCopyFile env st.takeNode inode.data
          (shadowMakePath sbi inode.ino now pathBufSize) φ.copy with ⟨_ | e, st₁⟩ <;> rfl

/-- What the copy phase leaves: the record taken from the cache and at most one file written,
in full when the copy is reported to have succeeded. -/
inductive Copied (env : Env) (x : Snapshot) (st : Store) (copied : Bool) : Store → Prop
  | nothing (h : copied = false) : Copied env x st copied st.takeNode
  | file {c : Content} (hcopies : x.kind.copies = true)
      (hopen : st.openCreate env x.path = none)
      (hall : copied = true → copyAll x.φ.copy.io x.inode.data = (none, c)) :
      Copied env x st copied (st.takeNode.put c (shadowPlace env x.path))

end Snapshot

lemma shadowCopyFile_cases {src : Content} {path : CStr} {φ : CopyFaults} {err : Status}
    {st' : Store} (h : shadowCopyFile env st src path φ = (err, st')) :
    (st' = st ∧ err ≠ none) ∨
      ∃ c, st.openCreate env path = none ∧ st' = st.put c (shadowPlace env path) ∧
        (err = none → copyAll φ.io src = (none, c)) := by
  unfold shadowCopyFile at h
  split at h
  · cases h
    exact .inl ⟨rfl, by simp⟩
  split at h
  · cases h
    exact .inl ⟨rfl, by simp⟩
  split at h
  · cases h
    exact .inl ⟨rfl, by simp⟩
  · cases h
    exact .inl ⟨rfl, by simp⟩
  next hdst hopen =>
    split at h
    · cases h
      exact .inr ⟨[], hopen, rfl, by simp⟩
    · cases h
      refine .inr ⟨(copyAll φ.io src).2, hopen, rfl, fun herr => ?_⟩
      exact Prod.ext herr rfl

namespace Snapshot

lemma copy_cases {x : Snapshot} {err : Status} {st₁ : Store} (h : x.copy env st = (err, st₁)) :
    x.Copied env st (x.kind.copies && err.isNone) st₁ := by
  unfold copy at h
  split at h
  · next hcopies =>
    rcases shadowCopyFile_cases h with ⟨rfl, herr⟩ | ⟨c, hopen, rfl, hall⟩
    · refine .nothing ?_
      cases err with
      | none => exact absurd rfl herr
      | some e => simp
    · refine .file hcopies hopen fun hc => hall ?_
      cases err with
      | none => rfl
      | some e => simp at hc
  · next hcopies =>
    cases h
    exact .nothing (by simpa using hcopies)

lemma Copied.same {x : Snapshot} {copied : Bool} {st₁ : Store}
    (h : x.Copied env st copied st₁) : SameBut st.takeNode st₁ := by
  cases h with
  | nothing => exact .refl _
  | file => exact .put _ _ _

lemma Copied.copies {x : Snapshot} {copied : Bool} {st₁ : Store}
    (h : x.Copied env st copied st₁) : copied = true → x.kind.copies = true := by
  cases h with
  | nothing h =>
    intro hc
    rw [h] at hc
    cases hc
  | file hcopies => exact fun _ => hcopies

/-- A copy that failed is as good as none for the file's readers. -/
lemma Copied.to_false {x : Snapshot} {copied : Bool} {st₁ : Store}
    (h : x.Copied env st copied st₁) : x.Copied env st false st₁ := by
  cases h with
  | nothing => exact .nothing rfl
  | file hcopies hopen => exact .file hcopies hopen (by simp)

/-- What taking a snapshot can do. -/
inductive Taken (env : Env) (x : Snapshot) (st : Store) : Store → Prop
  /-- No version could be allocated. -/
  | unallocated : Taken env x st st
  /-- The version was dropped after the copy phase. -/
  | dropped {st₁ : Store} (halloc : x.φ.alloc = false) (hcopy : x.Copied env st false st₁) :
      Taken env x st st₁
  /-- The version was inserted and what the list could not hold released. -/
  | added {st₁ : Store} {copied : Bool} {t : VersionsHtable} {oldest : Option CowVersion}
      (halloc : x.φ.alloc = false) (hcopy : x.Copied env st copied st₁)
      (hadd : versionAdd env.hash st.table x.inode.ino (x.version st.nextNode copied) x.φ.info =
        some (t, oldest)) :
      Taken env x st (versionsFree { st₁ with table := t } oldest.toList x.φ.remove)

lemma taken_versionAdd {x : Snapshot} {copied : Bool} {st₁ : Store}
    (halloc : x.φ.alloc = false) (h : x.Copied env st copied st₁) :
    Taken env x st
      (st₁.versionAdd env x.inode.ino (x.version st.nextNode copied) x.φ).2 := by
  have htable : st₁.table = st.table := h.same.table
  unfold Store.versionAdd
  rw [htable]
  cases hadd : versionAdd env.hash st.table x.inode.ino (x.version st.nextNode copied)
      x.φ.info with
  | none => exact .dropped halloc h.to_false
  | some p => exact .added halloc h hadd

/-- **What taking a snapshot can do**, whatever fails. -/
theorem take_cases (env : Env) (x : Snapshot) (st : Store) : Taken env x st (x.take env st) := by
  rw [take_eq]
  cases halloc : x.φ.alloc with
  | true => exact .unallocated
  | false =>
    rw [if_neg Bool.false_ne_true]
    rcases hcopy : x.copy env st with ⟨_ | e, st₁⟩
    · have hc := copy_cases hcopy
      rw [Option.isNone_none, Bool.and_true] at hc
      exact taken_versionAdd halloc hc
    · have hc := copy_cases hcopy
      rw [Option.isNone_some, Bool.and_false] at hc
      dsimp only
      split
      · exact .dropped halloc hc
      · exact taken_versionAdd halloc hc

end Snapshot

/-! ## Steps of the system -/

/-- The snapshot an operation takes in state `s`. -/
def snapshotOf (s : State) : Op → Option Snapshot
  | .write fd _ _ now φ _ => do
    let sbi ← s.mount
    let fi ← s.fds fd
    let i ← s.lower.inodes fi.lowerFile
    if !fi.snapshotTaken && fi.writable then some ⟨.write, fi.lowerFile, i, sbi, now, φ⟩
    else none
  | .unlink dir name now φ _ => do
    let sbi ← s.mount
    let f ← s.lower.entries dir name
    let i ← s.lower.inodes f
    some ⟨.unlink name, f, i, sbi, now, φ⟩
  | .rename d₁ n₁ _ _ _ _ now φ _ => do
    let sbi ← s.mount
    let f ← s.lower.entries d₁ n₁
    let i ← s.lower.inodes f
    some ⟨.rename n₁, f, i, sbi, now, φ⟩
  | .setattr f attr now φ _ => do
    let sbi ← s.mount
    let i ← s.lower.inodes f
    some ⟨.setattr attr.iaSize.isSome, f, i, sbi, now, φ⟩
  | _ => none

/-- The results of the calls around the snapshot of an operation. -/
def Op.faults : Op → Option SnapFaults
  | .write _ _ _ _ φ _ => some φ
  | .unlink _ _ _ φ _ => some φ
  | .rename _ _ _ _ _ _ _ φ _ => some φ
  | .setattr _ _ _ φ _ => some φ
  | _ => none

/-- What a step can do to the store. -/
inductive StoreStep (env : Env) (s : State) (op : Op) : Store → Prop
  | same (h : snapshotOf s op = none) : StoreStep env s op s.store
  | mounted {lowerdir : CStr} {err shadowErr : Status} {root : Fid}
      (hop : op = .mount lowerdir err shadowErr) (hroot : env.lowerRoot lowerdir = some root) :
      StoreStep env s op (shadowInit s.store root shadowErr)
  | unmounted : StoreStep env s op { s.store with dirpath := none }
  | snapshot {x : Snapshot} (h : snapshotOf s op = some x) :
      StoreStep env s op (x.take env s.store)
  | collected (now windowSeconds : UInt64) (fail : ℕ → Bool)
      (hop : op = .gc now windowSeconds fail) :
      StoreStep env s op (s.store.versionGc now windowSeconds fail)

/-- A snapshot is of a file that exists, under the mount, with the faults of its operation. -/
lemma snapshotOf_spec {s : State} {op : Op} {x : Snapshot} (h : snapshotOf s op = some x) :
    s.mount = some x.sbi ∧ s.lower.inodes x.file = some x.inode ∧ op.faults = some x.φ := by
  cases op with
  | write fd pos bytes now φ err =>
    simp only [snapshotOf, Option.bind_eq_bind, Option.bind_eq_some_iff] at h
    obtain ⟨sbi, hsbi, fi, -, i, hi, h⟩ := h
    split at h
    · cases h
      exact ⟨hsbi, hi, rfl⟩
    · cases h
  | unlink dir name now φ err =>
    simp only [snapshotOf, Option.bind_eq_bind, Option.bind_eq_some_iff] at h
    obtain ⟨sbi, hsbi, f, -, i, hi, h⟩ := h
    cases h
    exact ⟨hsbi, hi, rfl⟩
  | rename d₁ n₁ d₂ n₂ flags ino now φ err =>
    simp only [snapshotOf, Option.bind_eq_bind, Option.bind_eq_some_iff] at h
    obtain ⟨sbi, hsbi, f, -, i, hi, h⟩ := h
    cases h
    exact ⟨hsbi, hi, rfl⟩
  | setattr f attr now φ err =>
    simp only [snapshotOf, Option.bind_eq_bind, Option.bind_eq_some_iff] at h
    obtain ⟨sbi, hsbi, i, hi, h⟩ := h
    cases h
    exact ⟨hsbi, hi, rfl⟩
  | _ => cases h

/-- The store after the snapshot of an operation, if it takes one. -/
def Store.after (env : Env) (st : Store) : Option Snapshot → Store
  | none => st
  | some x => x.take env st

lemma cowfsWrite_store (env : Env) (s : State) (fd : Fd) (pos : ℕ) (bytes : Content)
    (now : UInt64) (φ : SnapFaults) (err : Status) :
    (cowfsWrite env s fd pos bytes now φ err).2.store =
      s.store.after env (snapshotOf s (.write fd pos bytes now φ err)) := by
  simp only [cowfsWrite, snapshotOf]
  cases hm : s.mount with
  | none => rfl
  | some sbi =>
    cases hfd : s.fds fd with
    | none => rfl
    | some fi =>
      cases hi : s.lower.inodes fi.lowerFile with
      | none => simp [hi, Store.after]
      | some i =>
        cases hw : fi.writable <;> cases ht : fi.snapshotTaken <;>
          simp [hw, ht, hi, Store.after, Snapshot.take]

lemma cowfsUnlink_store (env : Env) (s : State) (dir : Fid) (name : CStr) (now : UInt64)
    (φ : SnapFaults) (err : Status) :
    (cowfsUnlink env s dir name now φ err).2.store =
      s.store.after env (snapshotOf s (.unlink dir name now φ err)) := by
  simp only [cowfsUnlink, snapshotOf, Lower.inodeAt]
  cases s.mount with
  | none => rfl
  | some sbi =>
    cases s.lower.entries dir name with
    | none => rfl
    | some f =>
      cases hi : s.lower.inodes f with
      | none => simp [hi, Store.after]
      | some i => simp [hi, Store.after, Snapshot.take]

lemma cowfsRename_store (env : Env) (s : State) (d₁ : Fid) (n₁ : CStr) (d₂ : Fid) (n₂ : CStr)
    (flags : RenameFlags) (ino now : UInt64) (φ : SnapFaults) (err : Status) :
    (cowfsRename env s d₁ n₁ d₂ n₂ flags ino now φ err).2.store =
      s.store.after env (snapshotOf s (.rename d₁ n₁ d₂ n₂ flags ino now φ err)) := by
  simp only [cowfsRename, snapshotOf, Lower.inodeAt]
  cases s.mount with
  | none => rfl
  | some sbi =>
    cases s.lower.entries d₁ n₁ with
    | none => rfl
    | some f =>
      cases hi : s.lower.inodes f with
      | none => simp [hi, Store.after]
      | some i => simp [hi, Store.after, Snapshot.take]

lemma cowfsSetattr_store (env : Env) (s : State) (f : Fid) (attr : Iattr) (now : UInt64)
    (φ : SnapFaults) (err : Status) :
    (cowfsSetattr env s f attr now φ err).2.store =
      s.store.after env (snapshotOf s (.setattr f attr now φ err)) := by
  simp only [cowfsSetattr, snapshotOf]
  cases s.mount with
  | none => rfl
  | some sbi =>
    cases s.lower.inodes f with
    | none => simp [Store.after]
    | some i => simp [Store.after, Snapshot.take]

lemma rollbackDeleted_frame (env : Env) (s : State) (path : CStr) (timestamp : UInt64)
    (φ : RollbackFaults) :
    ∃ l, (rollbackDeleted env s path timestamp φ).2 = { s with lower := l } := by
  unfold rollbackDeleted recreateDeleted
  split
  · exact ⟨s.lower, rfl⟩
  next dir _ _ =>
    dsimp only
    generalize (if dir = [] then ['/'] else dir) = dirbuf
    split
    · exact ⟨s.lower, rfl⟩
    split
    · exact ⟨s.lower, rfl⟩
    split
    · exact ⟨s.lower, rfl⟩
    split
    · exact ⟨s.lower, rfl⟩
    split
    · exact ⟨s.lower, rfl⟩
    split
    · exact ⟨s.lower, rfl⟩
    split
    · exact ⟨_, rfl⟩
    · exact ⟨_, rfl⟩

/-- A rollback changes the lower tree and nothing else. -/
lemma ioctlRollback_frame (env : Env) (s : State) (path : CStr) (timestamp : UInt64)
    (φ : RollbackFaults) :
    ∃ l, (ioctlRollback env s path timestamp φ).2 = { s with lower := l } := by
  unfold ioctlRollback
  split
  · exact ⟨s.lower, rfl⟩
  split
  · exact rollbackDeleted_frame env s path timestamp φ
  · exact ⟨s.lower, rfl⟩
  split
  · exact ⟨s.lower, rfl⟩
  split
  · exact ⟨s.lower, rfl⟩
  · exact ⟨_, rfl⟩

lemma step_of_exec {s s' : State} {op : Op} {err : Status} (h : exec env s op = (err, s')) :
    step env s op = s' := by
  rw [step, h]

/-- A pass of the collector changes the store. -/
lemma step_gc (env : Env) (s : State) (now windowSeconds : UInt64) (fail : ℕ → Bool) :
    step env s (.gc now windowSeconds fail) =
      { s with store := s.store.versionGc now windowSeconds fail } := by
  have hexec : exec env s (.gc now windowSeconds fail) =
      (none, { s with store := s.store.versionGc now windowSeconds fail }) := rfl
  exact step_of_exec hexec

lemma step_store_of_snapshot {s : State} {op : Op} {x : Snapshot}
    (h : snapshotOf s op = some x) : (step env s op).store = x.take env s.store := by
  have hafter : (step env s op).store = s.store.after env (snapshotOf s op) := by
    cases op with
    | write => exact cowfsWrite_store ..
    | unlink => exact cowfsUnlink_store ..
    | rename => exact cowfsRename_store ..
    | setattr => exact cowfsSetattr_store ..
    | _ => cases h
  rw [hafter, h]
  rfl

lemma storeStep_after {s : State} {op : Op} :
    StoreStep env s op (s.store.after env (snapshotOf s op)) := by
  cases h : snapshotOf s op with
  | none => exact .same h
  | some x => exact .snapshot h

/-- **What a step can do to the store.** -/
theorem step_store (env : Env) (s : State) (op : Op) :
    StoreStep env s op (step env s op).store := by
  cases op with
  | mount lowerdir err shadowErr =>
    simp only [step, exec, cowfsMount]
    split
    · exact .same rfl
    split
    · exact .same rfl
    · exact .same rfl
    · next root hroot => exact .mounted rfl hroot
  | umount => exact .unmounted
  | «open» fd f writable err =>
    simp only [step, exec, cowfsOpen]
    split <;> exact .same rfl
  | release fd => exact .same rfl
  | write fd pos bytes now φ err =>
    have hs := cowfsWrite_store env s fd pos bytes now φ err
    simp only [step, exec, hs]
    exact storeStep_after
  | make type dir name mode cred ino now err =>
    simp only [step, exec, cowfsMake]
    split <;> exact .same rfl
  | link f dir name err =>
    simp only [step, exec, cowfsLink]
    split <;> exact .same rfl
  | rmdir dir name err =>
    simp only [step, exec, cowfsRmdir]
    split <;> exact .same rfl
  | unlink dir name now φ err =>
    have hs := cowfsUnlink_store env s dir name now φ err
    simp only [step, exec, hs]
    exact storeStep_after
  | rename d₁ n₁ d₂ n₂ flags ino now φ err =>
    have hs := cowfsRename_store env s d₁ n₁ d₂ n₂ flags ino now φ err
    simp only [step, exec, hs]
    exact storeStep_after
  | setattr f attr now φ err =>
    have hs := cowfsSetattr_store env s f attr now φ err
    simp only [step, exec, hs]
    exact storeStep_after
  | rollback path timestamp φ =>
    obtain ⟨l, hl⟩ := ioctlRollback_frame env s path timestamp φ
    simp only [step, exec, hl]
    exact .same rfl
  | gc now windowSeconds fail =>
    rw [step_gc]
    dsimp only
    exact .collected now windowSeconds fail rfl

/-! ## The versions of a state -/

/-- The versions of every inode number, newest first. -/
def State.versions (env : Env) (s : State) : KeyedLog UInt64 CowVersion :=
  tableView env.hash s.store.table

/-- The table meets its invariant and no address is used twice, the addresses in use being
those below the next one. -/
structure StoreInv (env : Env) (st : Store) : Prop where
  table : TableInv env.hash st.table
  below : ∀ v, (tableView env.hash st.table).Holds v → v.node < st.nextNode
  distinct : (tableView env.hash st.table).Distinct CowVersion.node

lemma storeInv_init (env : Env) (shadow : Fid → Option ShadowFiles) :
    StoreInv env (Store.init shadow) where
  table := tableInv_init
  below v hv := by
    simp [Store.init] at hv
  distinct := by
    simp only [Store.init, tableView_init]
    exact distinct_empty

lemma StoreInv.fresh {v : CowVersion} (h : StoreInv env st) (hv : v.node = st.nextNode) :
    (tableView env.hash st.table).Fresh CowVersion.node v := by
  intro w hw
  have := h.below w hw
  omega

/-- A store with the same table, whose counter has not gone back. -/
lemma StoreInv.mono {st' : Store} (h : StoreInv env st) (ht : st'.table = st.table)
    (hn : st.nextNode ≤ st'.nextNode) : StoreInv env st' where
  table := ht ▸ h.table
  below v hv := (h.below v (ht ▸ hv)).trans_le hn
  distinct := ht ▸ h.distinct

lemma StoreInv.push {x : Snapshot} {copied : Bool} {st₁ : Store} {t : VersionsHtable}
    {oldest : Option CowVersion} {fail : ℕ → Bool} (h : StoreInv env st)
    (hcopy : x.Copied env st copied st₁)
    (hadd : versionAdd env.hash st.table x.inode.ino (x.version st.nextNode copied) x.φ.info =
      some (t, oldest)) :
    StoreInv env (versionsFree { st₁ with table := t } oldest.toList fail) := by
  obtain ⟨ht, hview, -⟩ := versionAdd_spec h.table hadd
  have hfresh := h.fresh (v := x.version st.nextNode copied) rfl
  have hsame := versionsFree_same { st₁ with table := t } oldest.toList fail
  have hnext : st₁.nextNode = st.nextNode + 1 := hcopy.same.nextNode
  refine ⟨?_, ?_, ?_⟩
  · rw [hsame.table]
    exact ht
  · rw [hsame.table, hsame.nextNode]
    rintro v ⟨ino, hv⟩
    rw [hview] at hv
    rcases mem_push hv with ⟨-, rfl⟩ | hv'
    · exact hnext ▸ Nat.lt_succ_self _
    · have := h.below v ⟨ino, hv'⟩
      dsimp only
      omega
  · rw [hsame.table, hview]
    exact h.distinct.push _ _ hfresh

/-- A pass of the collector: the table it leaves and what it frees. -/
lemma versionGc_store (st : Store) (now windowSeconds : UInt64) (fail : ℕ → Bool) :
    ∃ t freed, versionGc st.table now windowSeconds = (t, freed) ∧
      st.versionGc now windowSeconds fail = versionsFree { st with table := t } freed fail := by
  cases hgc : versionGc st.table now windowSeconds with
  | mk t freed =>
    refine ⟨t, freed, rfl, ?_⟩
    rw [Store.versionGc, hgc]

lemma StoreInv.collect (h : StoreInv env st) (now windowSeconds : UInt64) (fail : ℕ → Bool) :
    StoreInv env (st.versionGc now windowSeconds fail) := by
  obtain ⟨t, freed, hgc, hst⟩ := versionGc_store st now windowSeconds fail
  have hinv := versionGc_inv h.table now windowSeconds
  have hview : tableView env.hash (versionGc st.table now windowSeconds).1 = _ :=
    versionGc_view st.table now windowSeconds
  rw [hgc] at hinv hview
  have hsame := versionsFree_same { st with table := t } freed fail
  rw [hst]
  refine ⟨?_, ?_, ?_⟩
  · rw [hsame.table]
    exact hinv
  · rw [hsame.table, hsame.nextNode]
    rintro v ⟨ino, hv⟩
    rw [hview] at hv
    exact h.below v ⟨ino, List.mem_of_mem_filter hv⟩
  · rw [hsame.table, hview]
    exact h.distinct.prune _

theorem StoreInv.step {s : State} (h : StoreInv env s.store) (op : Op) :
    StoreInv env (step env s op).store := by
  have hstep := step_store env s op
  generalize (Cowfs.step env s op).store = st' at hstep ⊢
  cases hstep with
  | same => exact h
  | mounted =>
    unfold shadowInit
    split
    · exact h
    · exact h.mono rfl le_rfl
  | unmounted => exact h.mono rfl le_rfl
  | @snapshot x hx =>
    have htaken := x.take_cases env s.store
    generalize x.take env s.store = st' at htaken ⊢
    cases htaken with
    | unallocated => exact h
    | dropped _ hcopy =>
      exact h.mono hcopy.same.table (hcopy.same.nextNode ▸ Nat.le_succ _)
    | added _ hcopy hadd => exact h.push hcopy hadd
  | collected now windowSeconds fail => exact h.collect now windowSeconds fail

/-- Every reachable store meets the invariant. -/
theorem storeInv_run (env : Env) (l : Lower) (shadow : Fid → Option ShadowFiles)
    (ops : List Op) : StoreInv env (run (step env) (State.init l shadow) ops).store := by
  have hinit : StoreInv env (State.init l shadow).store := storeInv_init env shadow
  have hstep : ∀ (s : State) op, StoreInv env s.store → True →
      StoreInv env (step env s op).store := fun s op h _ => h.step op
  exact invariant_run (I := fun s : State => StoreInv env s.store) hstep hinit
    (along_of_forall _ (fun _ _ _ => trivial) _)

lemma Reachable.storeInv {s : State} (h : Reachable env s) : StoreInv env s.store := by
  obtain ⟨l, shadow, ops, rfl⟩ := h
  exact storeInv_run env l shadow ops

/-- What a step can do to the versions of a state. -/
inductive VersionsStep (env : Env) (s : State) (op : Op) : KeyedLog UInt64 CowVersion → Prop
  | same : VersionsStep env s op (s.versions env)
  | pushed {x : Snapshot} (copied : Bool) (h : snapshotOf s op = some x)
      (halloc : x.φ.alloc = false) (hcopied : copied = true → x.kind.copies = true) :
      VersionsStep env s op
        (push maxVersions x.inode.ino (x.version s.store.nextNode copied) (s.versions env))
  | pruned (p : CowVersion → Bool) : VersionsStep env s op (prune p (s.versions env))

theorem step_versions {s : State} (h : TableInv env.hash s.store.table) (op : Op) :
    VersionsStep env s op ((step env s op).versions env) := by
  have hstep := step_store env s op
  unfold State.versions
  generalize (step env s op).store = st' at hstep ⊢
  cases hstep with
  | same => exact .same
  | mounted =>
    unfold shadowInit
    split <;> exact .same
  | unmounted => exact .same
  | @snapshot x hx =>
    have htaken := x.take_cases env s.store
    generalize x.take env s.store = st' at htaken ⊢
    cases htaken with
    | unallocated => exact .same
    | dropped _ hcopy =>
      rw [hcopy.same.table]
      exact .same
    | @added st₁ copied t oldest halloc hcopy hadd =>
      have hview := (versionAdd_spec h hadd).2.1
      rw [(versionsFree_same _ _ _).table, hview]
      exact .pushed copied hx halloc hcopy.copies
  | collected now windowSeconds fail =>
    obtain ⟨t, freed, hgc, hst⟩ := versionGc_store s.store now windowSeconds fail
    have hview : tableView env.hash (versionGc s.store.table now windowSeconds).1 = _ :=
      versionGc_view s.store.table now windowSeconds
    rw [hgc] at hview
    rw [hst, (versionsFree_same _ _ _).table, hview]
    exact .pruned _

/-- Step `op` in state `s` records `v` from the file `f`, whose inode number is `ino`. -/
def Records (env : Env) (s : State) (op : Op) (ino : UInt64) (v : CowVersion) (f : Fid) : Prop :=
  (∃ x, snapshotOf s op = some x ∧ x.file = f ∧ x.inode.ino = ino) ∧
    v ∉ s.versions env ino ∧ v ∈ (step env s op).versions env ino

/-- What a step that records a version does to the table, and what the version is. -/
lemma Records.pushed {s : State} {op : Op} {ino : UInt64} {v : CowVersion} {f : Fid}
    (h : TableInv env.hash s.store.table) (hr : Records env s op ino v f) :
    ∃ x copied, snapshotOf s op = some x ∧ x.file = f ∧ x.inode.ino = ino ∧
      x.φ.alloc = false ∧ (copied = true → x.kind.copies = true) ∧
      v = x.version s.store.nextNode copied ∧
      (step env s op).versions env = push maxVersions ino v (s.versions env) := by
  obtain ⟨⟨x, hx, hfile, hino⟩, hnew, hmem⟩ := hr
  have hstep := step_versions h op
  generalize (step env s op).versions env = m at hmem hstep ⊢
  cases hstep with
  | same => exact absurd hmem hnew
  | @pushed y copied hy halloc hcopied =>
    obtain rfl : x = y := Option.some.inj (hx.symm.trans hy)
    rcases mem_push hmem with ⟨-, rfl⟩ | hold
    · exact ⟨x, copied, hx, hfile, hino, halloc, hcopied, rfl, by rw [hino]⟩
    · exact absurd hold hnew
  | pruned p => exact absurd (List.mem_of_mem_filter hmem) hnew

end Cowfs
