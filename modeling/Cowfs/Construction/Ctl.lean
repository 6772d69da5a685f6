import Cowfs.Construction.Operations

/-!
# The control device (`cowfs_ctl.c`)

`COWFS_IOC_LIST` and `COWFS_IOC_ROLLBACK`.  A rollback whose path resolves goes by the inode
number of the file there; one whose path is gone (`-ENOENT`) goes through `rollback_deleted`,
by the base name.  The branches, the error variables that are tested and those that are only
printed are those of the C code.
-/

namespace Cowfs

/-- `kern_path` on the present state, or the failure `err`. -/
def kernPath (env : Env) (s : State) (path : CStr) (err : Status) : Except Errno Target :=
  match err with
  | some e => .error e
  | none => env.kernPath (s.mount.map SbInfo.lowerRoot) s.lower path

/-- A name of the mount: the dentry `path_to_lower_ino` looks at. -/
structure Place where
  dir : Fid
  name : CStr
  file : Fid
  deriving DecidableEq, Repr

/-- A path of the mount, any other path being `-EINVAL`. -/
def cowfsPath (env : Env) (s : State) (path : CStr) (err : Status) : Except Errno Place :=
  match kernPath env s path err with
  | .error e => .error e
  | .ok .foreign => .error .einval
  | .ok (.cowfs d n f) => .ok ⟨d, n, f⟩

/-- The inode number of a lower file. -/
def Lower.inoOf (l : Lower) (f : Fid) : UInt64 := ((l.inodes f).map Inode.ino).getD 0

/-- `path_to_lower_ino` -/
def pathToLowerIno (env : Env) (s : State) (path : CStr) (err : Status) :
    Except Errno UInt64 :=
  (cowfsPath env s path err).map fun p => s.lower.inoOf p.file

/-! ## `COWFS_IOC_LIST` -/

/-- `struct cowfs_version_info` -/
structure CowfsVersionInfo where
  timestamp : UInt64
  opType : CowOp
  shadowPath : CStr
  deriving DecidableEq, Repr

/-- `min_t(u32, req->max_count, COWFS_IOC_MAX_VERSIONS)` -/
def listCount (maxCount : UInt32) : ℤ := min maxCount.toNat iocMaxVersions

/-- The results of the calls of a listing: the allocation of the request, its copy from the
caller, the resolution of the path, the copy back. -/
structure ListFaults where
  kzalloc : Bool
  copyIn : Bool
  path : Status
  copyOut : Bool

/-- No call fails. -/
def ListFaults.clean : ListFaults := ⟨false, false, none, false⟩

/-- `COWFS_IOC_LIST`: the versions written back to the caller. -/
def ioctlList (env : Env) (s : State) (path : CStr) (maxCount : UInt32) (φ : ListFaults) :
    Except Errno (List CowfsVersionInfo) :=
  if φ.kzalloc then .error .enomem
  else if φ.copyIn then .error .efault
  else
    match pathToLowerIno env s path φ.path with
    | .error _ => .error .enoent
    | .ok ino =>
      if φ.copyOut then .error .efault
      else
        .ok ((versionList env.hash s.store.table ino (listCount maxCount)).map fun v =>
          ⟨v.timestamp, v.opType, strscpy pathBufSize v.shadowPath⟩)

/-! ## `COWFS_IOC_ROLLBACK` -/

/-- The results of the kernel calls of a rollback and what the environment chooses: the copy of
the request, the two resolutions of the path and that of the parent, the lookup of the name, the
creation and the copy, the rename, the attribute change; the caller's credentials, the inode
number of a file created, the clock. -/
structure RollbackFaults where
  copyIn : Bool
  path : Status
  path₂ : Status
  parent : Status
  lookup : Status
  create : Status
  restore : CopyFaults
  rename : Status
  notify : Status
  cred : Cred
  ino : UInt64
  now : ℕ

/-- No call fails. -/
def RollbackFaults.clean (cred : Cred) (ino : UInt64) (now : ℕ) : RollbackFaults :=
  ⟨false, none, none, none, none, none, CopyFaults.clean, none, none, cred, ino, now⟩

/-- Size of the `path` field of a request. -/
def reqPathSize : ℕ := 512

/-- `rollback_deleted` from the search on, with the directory and the name of the split.  The
result of the copy is printed and dropped. -/
def recreateDeleted (env : Env) (s : State) (dirbuf base : CStr) (timestamp : UInt64)
    (φ : RollbackFaults) : Status × State :=
  match versionFindDeleted s.store.table base timestamp with
  | none => (some .enoent, s)
  | some v =>
    match cowfsPath env s dirbuf φ.parent with
    | .error e => (some e, s)
    | .ok parent =>
      -- LOOKUP_DIRECTORY
      if !s.lower.isDir parent.file then (some .enotdir, s)
      else
        match φ.lookup with
        | some e => (some e, s)
        | none =>
          match vfsCreate s.lower parent.file base v.savedStat.mode φ.cred φ.ino φ.now
              φ.create with
          | (some e, _) => (some e, s)
          | (none, l) =>
            if v.hasData then
              let (_rerr, l) := shadowRestoreFile env s.store l v.shadowPath s.lower.next
                φ.now φ.restore
              (none, { s with lower := l })
            else (none, { s with lower := l })

/-- `rollback_deleted` -/
def rollbackDeleted (env : Env) (s : State) (path : CStr) (timestamp : UInt64)
    (φ : RollbackFaults) : Status × State :=
  match strrchr '/' (strscpy reqPathSize path) with
  | none => (some .einval, s)
  | some (dir, _) =>
    let base := path.drop (dir.length + 1)
    if base = [] then (some .einval, s)
    else recreateDeleted env s (if dir = [] then ['/'] else dir) base timestamp φ

/-- The `COW_OP_UNLINK` branch: recreate `orig_name` next to the file at the path.  An error
of the lookup leaves `err` at 0, the result of the copy is dropped. -/
def rollbackUnlink (env : Env) (s : State) (p : Place) (v : CowVersion) (φ : RollbackFaults) :
    Status × Lower :=
  match φ.lookup with
  | some _ => (none, s.lower)
  | none =>
    match vfsCreate s.lower p.dir v.origName v.savedStat.mode φ.cred φ.ino φ.now φ.create with
    | (some e, _) => (some e, s.lower)
    | (none, l) =>
      if v.hasData then
        (none, (shadowRestoreFile env s.store l v.shadowPath s.lower.next φ.now φ.restore).2)
      else (none, l)

/-- The `COW_OP_RENAME` branch: rename the file to `orig_name` inside its directory. -/
def rollbackRename (s : State) (p : Place) (v : CowVersion) (φ : RollbackFaults) :
    Status × Lower :=
  match φ.lookup with
  | some e => (some e, s.lower)
  | none =>
    vfsRename s.lower p.dir p.name p.dir v.origName RenameFlags.zero φ.ino φ.now φ.rename

/-- The branches on the type of the version. -/
def rollbackDispatch (env : Env) (s : State) (p : Place) (v : CowVersion)
    (φ : RollbackFaults) : Status × Lower :=
  if v.opType = .unlink then rollbackUnlink env s p v φ
  else if v.hasData then
    shadowRestoreFile env s.store s.lower v.shadowPath p.file φ.now φ.restore
  else if v.opType = .rename then rollbackRename s p v φ
  else (none, s.lower)

/-- The attributes a `COW_OP_SETATTR` rollback asks for. -/
def savedAttr (v : CowVersion) : Iattr :=
  { Iattr.zero with
    iaUid := some v.savedStat.uid
    iaGid := some v.savedStat.gid
    iaMode := some v.savedStat.mode }

/-- `COWFS_IOC_ROLLBACK` on version `v` of the file at `p`.  The result of the attribute change
is dropped. -/
def rollbackVersion (env : Env) (s : State) (p : Place) (v : CowVersion) (φ : RollbackFaults) :
    Status × State :=
  let (err, l) := rollbackDispatch env s p v φ
  let l :=
    if err = none ∧ v.opType = .setattr then
      (notifyChange l p.file (savedAttr v) φ.now φ.notify).2
    else l
  (err, { s with lower := l })

/-- `COWFS_IOC_ROLLBACK` -/
def ioctlRollback (env : Env) (s : State) (path : CStr) (timestamp : UInt64)
    (φ : RollbackFaults) : Status × State :=
  if φ.copyIn then (some .efault, s)
  else
    match pathToLowerIno env s path φ.path with
    | .error .enoent => rollbackDeleted env s path timestamp φ
    | .error e => (some e, s)
    | .ok ino =>
      match versionFind env.hash s.store.table ino timestamp with
      | none => (some .enoent, s)
      | some v =>
        match cowfsPath env s path φ.path₂ with
        | .error e => (some e, s)
        | .ok p => rollbackVersion env s p v φ

end Cowfs
