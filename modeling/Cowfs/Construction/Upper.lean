import Cowfs.Construction.System

/-!
# The caches above the mount

The upper half of `cowfs_inode.c`: the dentries the VFS keeps hashed and the inodes it keeps for
one mount, and what every operation does to them.  A dentry is known by the lower directory its
parent stands for and its name; it is negative or bound to the upper inode of a number.  An upper
inode carries the fields `generic_permission` looks at and its table of operations.

A parent is known by its lower directory as long as no lower directory has two dentries.
`cowfs_lookup` hashes with `d_add`, so a directory whose dentry is dropped while it is in use gets
a second one at the next lookup, and each of the two has names of its own below it.  `aliased`
records the directories to which that may have happened; below them `dcache` does not tell the
two apart.

The VFS uses a hashed dentry without a new lookup, calls an operation only on hashed dentries of
the right sign, and moves the dentries of a successful rename itself.  It may drop a dentry and
evict an inode that nobody uses at any time.  A path walk is a sequence of lookups.  The shadow
directory is kept apart here too: the names in it can be looked up through the mount like any
other.
-/

namespace Cowfs

/-- `cowfs_dir_iops`, `cowfs_symlink_iops` or `cowfs_file_iops`. -/
inductive Iops
  | dir
  | symlink
  | file
  deriving DecidableEq, Repr

/-- The cached fields of an upper `struct inode`; the file type is part of the mode. -/
structure UpperInode where
  mode : Umode
  uid : UInt32
  gid : UInt32
  iops : Iops
  deriving DecidableEq, Repr

/-- A hashed dentry: negative, or bound to the upper inode of a number. -/
abbrev Dentry := Option UInt64

structure Upper where
  sys : State
  /-- The hashed dentries by lower directory and name. -/
  dcache : Fid → CStr → Option Dentry
  /-- The hashed dentries of the shadow directory of a lower root: whether they are positive. -/
  shadowCache : Fid → CStr → Option Bool
  /-- The inode cache by number. -/
  icache : UInt64 → Option UpperInode
  /-- The directories that may have two dentries. -/
  aliased : Fid → Prop

/-- A new upper inode for a lower one. -/
def Inode.upper (i : Inode) : UpperInode where
  mode := i.mode
  uid := i.uid
  gid := i.gid
  iops := if isDirMode i.mode then .dir else if i.mode &&& sIFMT = sIFLNK then .symlink else .file

/-- An upper inode after `setattr_copy`. -/
def UpperInode.setattr (attr : Iattr) (u : UpperInode) : UpperInode :=
  { u with
    mode := notifyMode u.mode attr
    uid := attr.iaUid.getD u.uid
    gid := attr.iaGid.getD u.gid }

/-- `cowfs_get_inode`: the cache with an inode for `i` in it.  `iget_locked` returns a cached
inode as it is; `none` is `-ENOMEM`. -/
def getInode (icache : UInt64 → Option UpperInode) (i : Inode) (nomem : Bool) :
    Option (UInt64 → Option UpperInode) :=
  if nomem then none
  else
    match icache i.ino with
    | some _ => some icache
    | none => some (Function.update icache i.ino (some i.upper))

namespace Upper

/-- A tree is mounted: the root inode is there and no name is looked up yet. -/
def start (sys : State) : Upper where
  sys := sys
  dcache _ _ := none
  shadowCache _ _ := none
  icache :=
    match sys.mount.bind fun sbi => sys.lower.inodes sbi.lowerRoot with
    | none => fun _ => none
    | some i => Function.update (fun _ => none) i.ino (some i.upper)
  aliased _ := False

/-- Let the dentry of `name` in `dir` be `o`; `none` is `d_drop`. -/
def setDentry (s : Upper) (dir : Fid) (name : CStr) (o : Option Dentry) : Upper :=
  { s with dcache := fun d n => if d = dir ∧ n = name then o else s.dcache d n }

/-- The lower inode of a name. -/
def lowerInode (s : Upper) (dir : Fid) (name : CStr) : Option Inode := s.sys.lower.inodeAt dir name

/-- `cowfs_get_inode` on the lower inode of a name, and `d_instantiate` or `d_add` when it
succeeds. -/
def instantiate (s : Upper) (dir : Fid) (name : CStr) (nomem : Bool) : Upper :=
  match s.lowerInode dir name with
  | none => s
  | some i =>
    match getInode s.icache i nomem with
    | none => s
    | some icache => { s with icache := icache }.setDentry dir name (some (some i.ino))

/-! ## Lookup -/

/-- The results of the calls of `cowfs_lookup`: of `lookup_one_len`, of the allocation, of
`cowfs_get_inode`. -/
structure LookupFaults where
  lookup : Status
  kzalloc : Bool
  inode : Bool

/-- No call fails. -/
def LookupFaults.clean : LookupFaults := ⟨none, false, false⟩

/-- `cowfs_lookup`, which the VFS calls for a name that is not hashed. -/
def cowfsLookup (s : Upper) (dir : Fid) (name : CStr) (φ : LookupFaults) : Upper :=
  if (s.dcache dir name).isSome || φ.lookup.isSome || φ.kzalloc then s
  else
    match s.lowerInode dir name with
    | none => s.setDentry dir name (some none)
    | some _ => s.instantiate dir name φ.inode

/-- Successful lookups one after the other. -/
def lookUp (s : Upper) (names : List (Fid × CStr)) : Upper :=
  names.foldl (fun s p => s.cowfsLookup p.1 p.2 LookupFaults.clean) s

/-- `cowfs_lookup` of a name in the shadow directory of the root `r`. -/
def lookupShadow (s : Upper) (r : Fid) (base : CStr) : Upper :=
  { s with
    shadowCache := Function.update s.shadowCache r
      (Function.update (s.shadowCache r) base
        (some ((s.sys.store.shadow r).bind fun files => files base).isSome)) }

/-! ## The operations -/

/-- Execute the call below the caches. -/
def below (env : Env) (s : Upper) (op : Op) : Status × Upper :=
  ((exec env s.sys op).1, { s with sys := (exec env s.sys op).2 })

/-- `cowfs_create` and `cowfs_mkdir`: the dentry is instantiated when the lower call succeeded. -/
def cowfsMakeInode (env : Env) (s : Upper) (type : Umode) (dir : Fid) (name : CStr)
    (mode : Umode) (cred : Cred) (ino now : UInt64) (err : Status) (nomem : Bool) : Upper :=
  if s.dcache dir name = some none then
    match s.below env (.make type dir name mode cred ino now err) with
    | (none, s) => s.instantiate dir name nomem
    | (some _, s) => s
  else s

/-- `cowfs_symlink`, which leaves the dentry as it is. -/
def cowfsSymlink (env : Env) (s : Upper) (dir : Fid) (name : CStr) (mode : Umode) (cred : Cred)
    (ino now : UInt64) (err : Status) : Upper :=
  if s.dcache dir name = some none then
    (s.below env (.make sIFLNK dir name mode cred ino now err)).2
  else s

/-- Whether a dentry is positive. -/
def positive (s : Upper) (dir : Fid) (name : CStr) : Bool := ((s.dcache dir name).join).isSome

/-- `cowfs_link` of `old` in `oldDir`, which leaves the new dentry as it is. -/
def cowfsLink (env : Env) (s : Upper) (oldDir : Fid) (old : CStr) (dir : Fid) (name : CStr)
    (err : Status) : Upper :=
  match s.sys.lower.entries oldDir old with
  | some f =>
    if s.positive oldDir old && s.dcache dir name == some none then
      (s.below env (.link f dir name err)).2
    else s
  | none => s

/-- `cowfs_unlink` -/
def cowfsUnlink (env : Env) (s : Upper) (dir : Fid) (name : CStr) (now : UInt64)
    (φ : SnapFaults) (err : Status) : Upper :=
  if s.positive dir name then
    match s.below env (.unlink dir name now φ err) with
    | (none, s) => s.setDentry dir name none
    | (some _, s) => s
  else s

/-- `cowfs_rmdir` -/
def cowfsRmdir (env : Env) (s : Upper) (dir : Fid) (name : CStr) (err : Status) : Upper :=
  if s.positive dir name then
    match s.below env (.rmdir dir name err) with
    | (none, s) => s.setDentry dir name none
    | (some _, s) => s
  else s

/-- `d_move`, or `d_exchange`. -/
def moveDentry (s : Upper) (d₁ : Fid) (n₁ : CStr) (d₂ : Fid) (n₂ : CStr) (exchange : Bool) :
    Upper :=
  let moved := (s.setDentry d₁ n₁ none).setDentry d₂ n₂ (s.dcache d₁ n₁)
  if exchange then moved.setDentry d₁ n₁ (s.dcache d₂ n₂) else moved

/-- `cowfs_rename`, between the checks of `vfs_rename` and its `d_move`: it is called with two
hashed dentries, the old one positive, that are not bound to one inode. -/
def cowfsRename (env : Env) (s : Upper) (d₁ : Fid) (n₁ : CStr) (d₂ : Fid) (n₂ : CStr)
    (flags : RenameFlags) (ino now : UInt64) (φ : SnapFaults) (err : Status) : Upper :=
  if s.positive d₁ n₁ && (s.dcache d₂ n₂).isSome && s.dcache d₁ n₁ != s.dcache d₂ n₂ then
    match s.below env (.rename d₁ n₁ d₂ n₂ flags ino now φ err) with
    | (none, s) => s.moveDentry d₁ n₁ d₂ n₂ flags.exchange
    | (some _, s) => s
  else s

/-- The lower file and the number of the inode of a positive dentry; `none` is the root. -/
def resolve (s : Upper) : Option (Fid × CStr) → Option (Fid × UInt64)
  | none => s.sys.mount.bind fun sbi =>
    (s.sys.lower.inodes sbi.lowerRoot).map fun i => (sbi.lowerRoot, i.ino)
  | some (dir, name) =>
    match s.sys.lower.entries dir name, (s.dcache dir name).join with
    | some f, some ino => some (f, ino)
    | _, _ => none

/-- The attributes `cowfs_setattr` copies up on success. -/
def syncAttrs (s : Upper) (f : Fid) (ino : UInt64) : Upper :=
  { s with
    icache := Function.update s.icache ino
      ((s.icache ino).bind fun u => (s.sys.lower.inodes f).map fun i =>
        { u with mode := i.mode, uid := i.uid, gid := i.gid }) }

/-- `cowfs_setattr` -/
def cowfsSetattr (env : Env) (s : Upper) (f : Fid) (ino : UInt64) (attr : Iattr)
    (now : UInt64) (φ : SnapFaults) (err : Status) : Upper :=
  match s.below env (.setattr f attr now φ err) with
  | (none, s) => s.syncAttrs f ino
  | (some _, s) => s

/-- `simple_setattr`, which changes the upper inode only. -/
def simpleSetattr (s : Upper) (ino : UInt64) (attr : Iattr) (err : Status) : Upper :=
  match err with
  | some _ => s
  | none => { s with icache := Function.update s.icache ino ((s.icache ino).map (.setattr attr)) }

/-- `notify_change` of the VFS: `cowfs_symlink_iops` has no `setattr`. -/
def setattr (env : Env) (s : Upper) (dentry : Option (Fid × CStr)) (attr : Iattr) (now : UInt64)
    (φ : SnapFaults) (err : Status) : Upper :=
  match s.resolve dentry with
  | none => s
  | some (f, ino) =>
    if (s.icache ino).map UpperInode.iops = some .symlink then s.simpleSetattr ino attr err
    else s.cowfsSetattr env f ino attr now φ err

/-! ## Rollback -/

/-- The parent directory and the base name `rollback_deleted` works with, once it has found a
version and the directory. -/
def deletedParent (env : Env) (sys : State) (path : CStr) (timestamp : UInt64)
    (φ : RollbackFaults) : Option (Place × CStr) :=
  match strrchr '/' (strscpy reqPathSize path) with
  | none => none
  | some (dir, _) =>
    let base := path.drop (dir.length + 1)
    if base = [] then none
    else
      match versionFindDeleted sys.store.table base timestamp with
      | none => none
      | some _ =>
        match cowfsPath env sys (if dir = [] then ['/'] else dir) φ.parent with
        | .error _ => none
        | .ok parent => some (parent, base)

/-- The dentry `rollback_deleted` drops, whether or not it recreated the file. -/
def deletedDrops (env : Env) (sys : State) (path : CStr) (timestamp : UInt64)
    (φ : RollbackFaults) : List (Fid × CStr) :=
  match deletedParent env sys path timestamp φ with
  | none => []
  | some (parent, base) => if sys.lower.isDir parent.file then [(parent.file, base)] else []

/-- The dentries the branches on the type of the version drop: the `COW_OP_RENAME` branch, when
its rename succeeded, those of the old and of the present name. -/
def versionDrops (sys : State) (p : Place) (v : CowVersion) (φ : RollbackFaults) :
    List (Fid × CStr) :=
  if v.opType = .unlink then []
  else if v.hasData then []
  else if v.opType = .rename then
    match φ.lookup, (rollbackRename sys p v φ).1 with
    | none, none => [(p.dir, v.origName), (p.dir, p.name)]
    | _, _ => []
  else []

/-- The dentries `COWFS_IOC_ROLLBACK` drops. -/
def rollbackDrops (env : Env) (sys : State) (path : CStr) (timestamp : UInt64)
    (φ : RollbackFaults) : List (Fid × CStr) :=
  if φ.copyIn then []
  else
    match pathToLowerIno env sys path φ.path with
    | .error .enoent => deletedDrops env sys path timestamp φ
    | .error _ => []
    | .ok ino =>
      match versionFind env.hash sys.store.table ino timestamp with
      | none => []
      | some v =>
        match cowfsPath env sys path φ.path₂ with
        | .error _ => []
        | .ok p => versionDrops sys p v φ

/-- The names `kern_path` resolves for `COWFS_IOC_ROLLBACK`. -/
def rollbackPlaces (env : Env) (sys : State) (path : CStr) (timestamp : UInt64)
    (φ : RollbackFaults) : List (Fid × CStr) :=
  if φ.copyIn then []
  else
    match cowfsPath env sys path φ.path with
    | .error .enoent =>
      match deletedParent env sys path timestamp φ with
      | none => []
      | some (parent, _) => [(parent.dir, parent.name)]
    | .error _ => []
    | .ok p => [(p.dir, p.name)]

/-- A dropped dentry of the directory `f` lives on: somebody has the directory open or works in
it, or a name below it is cached. -/
def InUse (s : Upper) (opened : Fid → Bool) (f : Fid) : Prop :=
  opened f ∨ ∃ name, (s.dcache f name).isSome

/-- The dentry of the directory `f` is dropped while it is in use, and the lower directory keeps
one of the names dropped. -/
def rollbackAliases (env : Env) (s : Upper) (path : CStr) (timestamp : UInt64)
    (φ : RollbackFaults) (opened : Fid → Bool) (f : Fid) : Prop :=
  s.InUse opened f ∧ s.sys.lower.isDir f ∧
    (∃ p ∈ rollbackDrops env s.sys path timestamp φ, s.sys.lower.entries p.1 p.2 = some f) ∧
    ∃ p ∈ rollbackDrops env s.sys path timestamp φ,
      (ioctlRollback env s.sys path timestamp φ).2.lower.entries p.1 p.2 = some f

/-- `COWFS_IOC_ROLLBACK` behind its path walks: it works on the lower tree and drops dentries, and
leaves the cached inodes alone. -/
def rollbackWalked (env : Env) (s : Upper) (path : CStr) (timestamp : UInt64)
    (φ : RollbackFaults) : Upper :=
  (rollbackDrops env s.sys path timestamp φ).foldl (fun s p => s.setDentry p.1 p.2 none)
    (s.below env (.rollback path timestamp φ)).2

/-- `COWFS_IOC_ROLLBACK`.  What a path resolves to has been looked up before anything is changed,
so that its dentry is hashed and its inode cached.  The lookups on the way there are steps of
their own. -/
def rollback (env : Env) (s : Upper) (path : CStr) (timestamp : UInt64) (φ : RollbackFaults)
    (opened : Fid → Bool) : Upper :=
  { (s.lookUp (rollbackPlaces env s.sys path timestamp φ)).rollbackWalked env path timestamp φ with
    -- the path walks hash no name below a directory whose dentry is dropped
    aliased := fun f => s.aliased f ∨ s.rollbackAliases env path timestamp φ opened f }

end Upper

/-! ## The system -/

inductive UpperOp
  | lookup (dir : Fid) (name : CStr) (φ : Upper.LookupFaults)
  | lookupShadow (r : Fid) (base : CStr)
  | create (dir : Fid) (name : CStr) (mode : Umode) (cred : Cred) (ino now : UInt64)
      (err : Status) (nomem : Bool)
  | mkdir (dir : Fid) (name : CStr) (mode : Umode) (cred : Cred) (ino now : UInt64)
      (err : Status) (nomem : Bool)
  | symlink (dir : Fid) (name : CStr) (mode : Umode) (cred : Cred) (ino now : UInt64)
      (err : Status)
  | link (oldDir : Fid) (old : CStr) (dir : Fid) (name : CStr) (err : Status)
  | unlink (dir : Fid) (name : CStr) (now : UInt64) (φ : SnapFaults) (err : Status)
  | rmdir (dir : Fid) (name : CStr) (err : Status)
  | rename (d₁ : Fid) (n₁ : CStr) (d₂ : Fid) (n₂ : CStr) (flags : RenameFlags)
      (ino now : UInt64) (φ : SnapFaults) (err : Status)
  | setattr (dentry : Option (Fid × CStr)) (attr : Iattr) (now : UInt64) (φ : SnapFaults)
      (err : Status)
  /-- `opened` are the directories somebody has open or works in. -/
  | rollback (path : CStr) (timestamp : UInt64) (φ : RollbackFaults) (opened : Fid → Bool)
  /-- Memory pressure: `d_drop` of a dentry and the eviction of an inode. -/
  | drop (dir : Fid) (name : CStr)
  | dropShadow (r : Fid) (base : CStr)
  | evict (ino : UInt64)

def upperStep (env : Env) (s : Upper) : UpperOp → Upper
  | .lookup dir name φ => s.cowfsLookup dir name φ
  | .lookupShadow r base => s.lookupShadow r base
  | .create dir name mode cred ino now err nomem =>
    s.cowfsMakeInode env sIFREG dir name mode cred ino now err nomem
  | .mkdir dir name mode cred ino now err nomem =>
    s.cowfsMakeInode env sIFDIR dir name mode cred ino now err nomem
  | .symlink dir name mode cred ino now err => s.cowfsSymlink env dir name mode cred ino now err
  | .link oldDir old dir name err => s.cowfsLink env oldDir old dir name err
  | .unlink dir name now φ err => s.cowfsUnlink env dir name now φ err
  | .rmdir dir name err => s.cowfsRmdir env dir name err
  | .rename d₁ n₁ d₂ n₂ flags ino now φ err => s.cowfsRename env d₁ n₁ d₂ n₂ flags ino now φ err
  | .setattr dentry attr now φ err => s.setattr env dentry attr now φ err
  | .rollback path timestamp φ opened => s.rollback env path timestamp φ opened
  | .drop dir name => s.setDentry dir name none
  | .dropShadow r base =>
    { s with
      shadowCache := Function.update s.shadowCache r
        (Function.update (s.shadowCache r) base none) }
  | .evict ino => { s with icache := Function.update s.icache ino none }

end Cowfs
