import Cowfs.Construction.Types

/-!
# References on the lower mount and on lower dentries

What `cowfs_fill_super`, `cowfs_shadow_init`, `cowfs_lookup`, `cowfs_d_release` and
`cowfs_put_super` take and put, error paths included, for one mount at a time.  `refs` counts what
cowfs has taken minus what it has put; beside it stand the objects that hold a reference: the
superblock info, the `cowfs_dentry_info` of the root and of every other live dentry, and the
cached path of the shadow directory.

Only a dentry that went through `cowfs_lookup` has `cowfs_dops`, so `cowfs_d_release` never runs
for the root dentry.
-/

namespace Cowfs

/-- A reference-counted object of the lower file system. -/
inductive LowerObj
  | mnt (n : ℕ)
  | dentry (n : ℕ)
  deriving DecidableEq, Repr

/-- A `struct path` of the lower file system; `struct cowfs_dentry_info` has the same two
members. -/
structure LowerPath where
  mnt : ℕ
  dentry : ℕ
  deriving DecidableEq, Repr

structure RefState where
  refs : LowerObj → ℤ
  /-- `lower_mnt` and `lower_root` of the superblock info. -/
  sbi : Option LowerPath
  rootInfo : Option LowerPath
  /-- The info of every other live dentry, by the identity of the dentry. -/
  infos : List (ℕ × LowerPath)
  /-- `cowfs_shadow_dirpath`, when valid. -/
  shadowPath : Option LowerPath

namespace RefState

/-- `mntget` and `dget`. -/
def get (s : RefState) (o : LowerObj) : RefState :=
  { s with refs := Function.update s.refs o (s.refs o + 1) }

/-- `mntput` and `dput`. -/
def put (s : RefState) (o : LowerObj) : RefState :=
  { s with refs := Function.update s.refs o (s.refs o - 1) }

/-- `path_put` -/
def pathPut (s : RefState) (p : LowerPath) : RefState := (s.put (.dentry p.dentry)).put (.mnt p.mnt)

/-- The module is loaded, nothing is mounted. -/
def init : RefState := ⟨fun _ => 0, none, none, [], none⟩

end RefState

/-- What `cowfs_shadow_init` meets: a failing lookup, a new directory that can or cannot be made,
an old one. -/
inductive ShadowLookup
  | failed
  | negative (dentry : ℕ) (mkdirFails : Bool)
  | positive (dentry : ℕ)

/-- The failures in `cowfs_fill_super`, in order, and what the shadow directory is like. -/
structure MountFaults where
  kernPath : Bool
  inode : Bool
  makeRoot : Bool
  info : Bool
  shadow : ShadowLookup

/-- `cowfs_shadow_init` -/
def shadowInitRefs (s : RefState) (sbi : LowerPath) : ShadowLookup → RefState
  | .failed => s
  | .negative d true => (s.get (.dentry d)).put (.dentry d)
  | .negative d false | .positive d =>
    { (s.get (.dentry d)).get (.mnt sbi.mnt) with shadowPath := some ⟨sbi.mnt, d⟩ }

/-- `cowfs_fill_super` on the directory `kern_path` finds. -/
def fillSuperRefs (s : RefState) (lower : LowerPath) (φ : MountFaults) : RefState :=
  if φ.kernPath then s
  else
    -- kern_path
    let s := (s.get (.mnt lower.mnt)).get (.dentry lower.dentry)
    let s := (s.get (.mnt lower.mnt)).get (.dentry lower.dentry)
    let s := s.pathPut lower
    if φ.inode || φ.makeRoot || φ.info then
      -- err_mnt
      (s.put (.mnt lower.mnt)).put (.dentry lower.dentry)
    else
      let s := { s with sbi := some lower }
      let s := (s.get (.dentry lower.dentry)).get (.mnt lower.mnt)
      shadowInitRefs { s with rootInfo := some lower } lower φ.shadow

/-- How a lookup ends; the lower dentry found may be negative. -/
inductive LookupOutcome
  | lookupFails
  | kzallocFails (dentry : ℕ)
  | inodeFails (dentry : ℕ)
  | found (dentry : ℕ)

/-- `cowfs_lookup` for the upper dentry `id`. -/
def lookupRefs (s : RefState) (id : ℕ) (outcome : LookupOutcome) : RefState :=
  match s.sbi with
  | none => s
  | some sbi =>
    match outcome with
    | .lookupFails => s
    | .kzallocFails d => (s.get (.dentry d)).put (.dentry d)
    | .inodeFails d => (s.get (.dentry d)).put (.dentry d)
    | .found d =>
      let s := s.get (.dentry d)
      { s with infos := (id, ⟨sbi.mnt, d⟩) :: s.infos }

/-- `cowfs_d_release` -/
def dReleaseRefs (s : RefState) (info : LowerPath) : RefState :=
  (s.put (.dentry info.dentry)).put (.mnt info.mnt)

/-- The upper dentry `id` is freed. -/
def releaseRefs (s : RefState) (id : ℕ) : RefState :=
  match s.infos.find? fun i => i.1 = id with
  | none => s
  | some i =>
    let s := dReleaseRefs s i.2
    { s with infos := s.infos.eraseP fun i => i.1 = id }

/-- `cowfs_shadow_cleanup` -/
def shadowCleanupRefs (s : RefState) : RefState :=
  match s.shadowPath with
  | none => s
  | some p => { s.pathPut p with shadowPath := none }

/-- The unmount: all dentries are freed, the root last and without `cowfs_d_release`, then
`cowfs_put_super` runs. -/
def umountRefs (s : RefState) : RefState :=
  match s.sbi with
  | none => s
  | some sbi =>
    let s := s.infos.foldl (fun s i => dReleaseRefs s i.2) s
    let s := shadowCleanupRefs { s with infos := [], rootInfo := none }
    let s := (s.put (.mnt sbi.mnt)).put (.dentry sbi.dentry)
    { s with sbi := none }

inductive RefOp
  | mount (lower : LowerPath) (φ : MountFaults)
  | lookup (id : ℕ) (outcome : LookupOutcome)
  | release (id : ℕ)
  | umount

/-- One call; a second mount waits for the first to go. -/
def refStep (s : RefState) : RefOp → RefState
  | .mount lower φ => if s.sbi.isSome then s else fillSuperRefs s lower φ
  | .lookup id outcome => lookupRefs s id outcome
  | .release id => releaseRefs s id
  | .umount => umountRefs s

end Cowfs
