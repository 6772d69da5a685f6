import Cowfs.Construction.Ctl
import Cowfs.Framework.CBuffer

/-!
# Requests as they arrive (`cowfs_ctl.c`, `cowfs.h`)

`Ctl` takes the path of a request as a string.  What user space hands over is the field
`char path[512]`, whose characters nothing checks: it need not hold a `NUL`.  Here the two
requests are handled as the C code does it, through a pointer to the first of the characters,
and every function says with `none` that it reads behind the buffer it is given.

`kern_path` copies the string it is given, so it reads up to the terminator.  In
`rollback_deleted` the directory is cut out of a bounded copy of the path, while the base name
stays where it is, in the request: `base` points behind the slash, and the search, the messages,
`lookup_one_len` and `strlen` read it up to its terminator.
-/

namespace Cowfs

/-! ## The structures -/

/-- `char path[512]`: any characters, a `NUL` among them or not. -/
structure PathField where
  chars : List Char
  size : chars.length = reqPathSize
  deriving DecidableEq

/-- `struct cowfs_list_req`, the fields the kernel reads. -/
structure CowfsListReq where
  path : PathField
  maxCount : UInt32
  deriving DecidableEq

/-- `struct cowfs_rollback_req` -/
structure CowfsRollbackReq where
  path : PathField
  timestamp : UInt64
  deriving DecidableEq

/-! ## The path -/

/-- `path_to_lower_ino` on the string at the start of `path`. -/
def pathToLowerInoAt (env : Env) (s : State) (path : List Char) (err : Status) :
    Option (Except Errno UInt64) :=
  (readString path).map fun str => pathToLowerIno env s str err

/-- The split of `rollback_deleted` with its checks: `dirbuf` after it was cut, and the string at
`base`. -/
def splitDeleted (path : List Char) : Option (Except Errno (CStr × CStr)) :=
  match strscpyFrom reqPathSize path with
  | none => none
  | some dirbuf =>
    match strrchr '/' dirbuf with
    | none => some (.error .einval)
    | some (dir, _) =>
      -- `base = path + (slash - dirbuf) + 1`: the place is found in the copy, the name is not
      match path[dir.length + 1]? with
      | none => none
      | some c =>
        if c = nul then some (.error .einval)
        else
          match readString (path.drop (dir.length + 1)) with
          | none => none
          | some base => some (.ok (if dir = [] then ['/'] else dir, base))

/-! ## `COWFS_IOC_LIST` -/

/-- `COWFS_IOC_LIST` with the path at `path`. -/
def ioctlListAt (env : Env) (s : State) (path : List Char) (maxCount : UInt32)
    (φ : ListFaults) : Option (Except Errno (List CowfsVersionInfo)) :=
  if φ.kzalloc then some (.error .enomem)
  else if φ.copyIn then some (.error .efault)
  else
    match pathToLowerInoAt env s path φ.path with
    | none => none
    | some (.error _) => some (.error .enoent)
    | some (.ok ino) =>
      if φ.copyOut then some (.error .efault)
      else
        some (.ok ((versionList env.hash s.store.table ino (listCount maxCount)).map fun v =>
          ⟨v.timestamp, v.opType, strscpy pathBufSize v.shadowPath⟩))

/-! ## `COWFS_IOC_ROLLBACK` -/

/-- `rollback_deleted` with the path at `path`. -/
def rollbackDeletedAt (env : Env) (s : State) (path : List Char) (timestamp : UInt64)
    (φ : RollbackFaults) : Option (Status × State) :=
  match splitDeleted path with
  | none => none
  | some (.error e) => some (some e, s)
  | some (.ok (dirbuf, base)) => some (recreateDeleted env s dirbuf base timestamp φ)

/-- `COWFS_IOC_ROLLBACK` with the path at `path`. -/
def ioctlRollbackAt (env : Env) (s : State) (path : List Char) (timestamp : UInt64)
    (φ : RollbackFaults) : Option (Status × State) :=
  if φ.copyIn then some (some .efault, s)
  else
    match pathToLowerInoAt env s path φ.path with
    | none => none
    | some (.error .enoent) => rollbackDeletedAt env s path timestamp φ
    | some (.error e) => some (some e, s)
    | some (.ok ino) =>
      match versionFind env.hash s.store.table ino timestamp with
      | none => some (some .enoent, s)
      | some v =>
        -- the second `kern_path`
        match readString path with
        | none => none
        | some str =>
          match cowfsPath env s str φ.path₂ with
          | .error e => some (some e, s)
          | .ok p => some (rollbackVersion env s p v φ)

end Cowfs
