import Cowfs.Construction.Lower
import Cowfs.Construction.Versions

/-!
# Shadow files (`cowfs_shadow.c`) and the release of versions

`Store` is what the module keeps on top of the lower tree: the version table, the files in
the `.cowfs_shadow` directory of each lower root, and the cached path of that directory.  A
shadow directory is held apart from the tree of `Lower`: only the module changes it.

A shadow file is named in two ways.  Copying and restoring open a path string; `locate`
resolves it, the directory part being a mount's `shadow_root`.  Removing looks the base name
up in the cached directory.  Both are kept as they are in the code, buffers included.

A path that was cut to its buffer need not end in a name inside a shadow directory.
`filp_open` makes the file such a path names wherever the path leads, if there is no directory;
these files are held in `outside`, by path and apart from the tree like the shadow directories,
and only the module is taken to change them.

The kernel calls that may fail take their results from a record of faults.  `IoStep` is one
iteration of the copy loop: any number of bytes up to the buffer size may come from a read,
at least one before the end of the file, and any number may be accepted by a write.
-/

namespace Cowfs

/-- What a path resolves to: a dentry of the mount, given by the lower name it stands for and
the lower file there, or a dentry of another file system. -/
inductive Target
  | cowfs (dir : Fid) (name : CStr) (file : Fid)
  | foreign
  deriving DecidableEq, Repr

/-- What the environment fixes once and for all: the hash function, the lower root a
`lowerdir=` string resolves to, what `filp_open` says to making a file at a path that leads into
no shadow directory, and `kern_path`.  `kernPath root l path` resolves a path when the tree under
`root` is mounted (`none`: nothing is); a dentry of the mount it returns is positive. -/
structure Env where
  hash : UInt64 → Bucket
  lowerRoot : CStr → Option Fid
  create : CStr → Status
  kernPath : Option Fid → Lower → CStr → Except Errno Target
  kernPath_entry : ∀ r l p d n f, kernPath r l p = .ok (.cowfs d n f) → l.entries d n = some f
  kernPath_unmounted : ∀ l p d n f, kernPath none l p ≠ .ok (.cowfs d n f)

/-- `struct cowfs_sb_info` -/
structure SbInfo where
  lowerRoot : Fid
  lowerdir : CStr
  shadowRoot : CStr
  deriving DecidableEq, Repr

/-- The files of a shadow directory by name. -/
abbrev ShadowFiles := CStr → Option Content

structure Store where
  table : VersionsHtable
  /-- The `.cowfs_shadow` directory of each lower root that has one. -/
  shadow : Fid → Option ShadowFiles
  /-- The files made by paths that lead into no shadow directory. -/
  outside : ShadowFiles
  /-- `cowfs_shadow_dirpath`, when valid. -/
  dirpath : Option Fid
  /-- The address the next version record gets. -/
  nextNode : ℕ

/-! ## Naming shadow files -/

/-- `cowfs_shadow_make_path` -/
def shadowMakePath (sbi : SbInfo) (ino ts : UInt64) (bufsz : ℕ) : CStr :=
  snprintf bufsz (sbi.shadowRoot ++ '/' :: decimalPair ino.toNat ts.toNat)

/-- The lower root whose shadow directory a path names. -/
def shadowHome (env : Env) (path : CStr) : Option Fid :=
  match strrchr '/' path with
  | none => none
  | some (lowerdir, name) => if name = shadowDir then env.lowerRoot lowerdir else none

/-- Resolve the path of a shadow file to a lower root and a name in its shadow directory. -/
def locate (env : Env) (path : CStr) : Option (Fid × CStr) :=
  match strrchr '/' path with
  | none => none
  | some (dir, base) =>
    if base = [] then none else (shadowHome env dir).map fun r => (r, base)

/-- Where a path leads: to a name in a shadow directory, or elsewhere. -/
inductive ShadowPlace
  | inside (r : Fid) (base : CStr)
  | outside (path : CStr)
  deriving DecidableEq

def shadowPlace (env : Env) (path : CStr) : ShadowPlace :=
  match locate env path with
  | some (r, base) => .inside r base
  | none => .outside path

/-- The name `cowfs_shadow_remove` looks up. -/
def shadowBase (path : CStr) : CStr :=
  match strrchr '/' path with
  | none => path
  | some (_, base) => base

/-- Set or remove the file `base` in the shadow directory of `r`. -/
def Store.setShadow (st : Store) (r : Fid) (base : CStr) (c : Option Content) : Store :=
  { st with
    shadow := Function.update st.shadow r
      ((st.shadow r).map fun files => Function.update files base c) }

/-- The file at a place. -/
def Store.fileIn (st : Store) : ShadowPlace → Option Content
  | .inside r base => (st.shadow r).bind fun files => files base
  | .outside path => st.outside path

/-- Write the file at a place. -/
def Store.put (st : Store) (c : Content) : ShadowPlace → Store
  | .inside r base => st.setShadow r base (some c)
  | .outside path => { st with outside := Function.update st.outside path (some c) }

/-- The shadow file a path names. -/
def Store.shadowAt (env : Env) (st : Store) (path : CStr) : Option Content :=
  st.fileIn (shadowPlace env path)

/-- `filp_open` with `O_WRONLY | O_CREAT | O_TRUNC`.  A path that ends in a slash names a
directory, and so does that of a shadow directory that is there. -/
def Store.openCreate (env : Env) (st : Store) (path : CStr) : Status :=
  match locate env path with
  | some (r, _) => if (st.shadow r).isNone then some .enoent else none
  | none =>
    if path.getLast? = some '/' then some .eisdir
    else if ((shadowHome env path).bind st.shadow).isSome then some .eisdir
    else env.create path

/-! ## The copy loop -/

/-- `COPY_BUF_SIZE` -/
def copyBufSize : ℕ := 64 * 1024

/-- What `kernel_read` and `kernel_write` return in one iteration. -/
structure IoStep where
  read : Except Errno ℕ
  write : Except Errno ℕ

/-- The bytes a read at `pos` delivers when it is willing to deliver `n`. -/
def kernelRead (src : Content) (pos n : ℕ) : Content :=
  (src.drop pos).take (max 1 (min n copyBufSize))

/-- The loop of `cowfs_shadow_copy_file` and `cowfs_shadow_restore_file`, with its two
positions: the error and the content of the destination.  Every iteration reads at least one
byte, so that `src.length + 1` iterations always suffice. -/
def copyLoop (io : ℕ → IoStep) (src : Content) : ℕ → ℕ → ℕ → ℕ → Content → Status × Content
  | 0, _, _, _, dst => (none, dst)
  | fuel + 1, i, srcPos, dstPos, dst =>
    match (io i).read with
    | .error e => (some e, dst)
    | .ok n =>
      let buf := kernelRead src srcPos n
      if buf = [] then (none, dst)
      else
        match (io i).write with
        | .error e => (some e, dst)
        | .ok m =>
          let written := min m buf.length
          copyLoop io src fuel (i + 1) (srcPos + buf.length) (dstPos + written)
            (writeAt dst dstPos (buf.take written))

/-- The loop from the start into an empty file. -/
def copyAll (io : ℕ → IoStep) (src : Content) : Status × Content :=
  copyLoop io src (src.length + 1) 0 0 0 []

/-- The results of the calls of `cowfs_shadow_copy_file` and `cowfs_shadow_restore_file`:
credentials, the opens of source and destination, the truncation of the target (restore
only), the buffer, the loop. -/
structure CopyFaults where
  cred : Bool
  openSrc : Status
  openDst : Status
  truncate : Status
  kmalloc : Bool
  io : ℕ → IoStep

/-- Nothing fails and nothing is cut short. -/
def CopyFaults.clean : CopyFaults :=
  ⟨false, none, none, none, false, fun _ => ⟨.ok copyBufSize, .ok copyBufSize⟩⟩

/-- `cowfs_shadow_copy_file`, for a source with content `src`. -/
def shadowCopyFile (env : Env) (st : Store) (src : Content) (shadowPath : CStr)
    (φ : CopyFaults) : Status × Store :=
  if φ.cred then (some .enomem, st)
  else
    match φ.openSrc with
    | some e => (some e, st)
    | none =>
      match φ.openDst, st.openCreate env shadowPath with
      | some e, _ => (some e, st)
      | none, some e => (some e, st)
      | none, none =>
        if φ.kmalloc then (some .enomem, st.put [] (shadowPlace env shadowPath))
        else
          let (err, dst) := copyAll φ.io src
          (err, st.put dst (shadowPlace env shadowPath))

/-- `cowfs_shadow_restore_file` into the lower file `f`. -/
def shadowRestoreFile (env : Env) (st : Store) (l : Lower) (shadowPath : CStr) (f : Fid)
    (now : ℕ) (φ : CopyFaults) : Status × Lower :=
  if φ.cred then (some .enomem, l)
  else
    match φ.openSrc, st.shadowAt env shadowPath with
    | some e, _ => (some e, l)
    | none, none => (some .enoent, l)
    | none, some src =>
      match φ.openDst with
      | some e => (some e, l)
      | none =>
        match φ.truncate with
        | some e => (some e, l)
        | none =>
          if φ.kmalloc then (some .enomem, l.setData f [] now)
          else
            let (err, dst) := copyAll φ.io src
            (err, l.setData f dst now)

/-- `cowfs_shadow_remove`; `fail` stands for missing credentials and for an error of the
lookup or of `vfs_unlink`, which leave the file in place. -/
def shadowRemove (st : Store) (shadowPath : CStr) (fail : Bool) : Store :=
  match st.dirpath with
  | none => st
  | some r => if fail then st else st.setShadow r (shadowBase shadowPath) none

/-! ## Releasing and recording versions -/

/-- `cowfs_version_free` -/
def versionFree (st : Store) (v : CowVersion) (fail : Bool) : Store :=
  if v.hasData then shadowRemove st v.shadowPath fail else st

/-- The loop that frees a list of versions, the removal of the file of `v` failing when
`fail v.node`. -/
def versionsFree (st : Store) (freed : List CowVersion) (fail : ℕ → Bool) : Store :=
  freed.foldl (fun st v => versionFree st v (fail v.node)) st

/-- The results of the calls around the recording of a version: its allocation, the copy,
`vfs_getattr`, the `GFP_ATOMIC` allocation, and the removal of an evicted shadow file. -/
structure SnapFaults where
  alloc : Bool
  copy : CopyFaults
  getattr : Bool
  info : Bool
  remove : ℕ → Bool

/-- Nothing fails and nothing is cut short. -/
def SnapFaults.clean : SnapFaults := ⟨false, CopyFaults.clean, false, false, fun _ => false⟩

/-- `cowfs_version_add` on the store, the evicted version being freed. -/
def Store.versionAdd (env : Env) (st : Store) (ino : UInt64) (v : CowVersion)
    (φ : SnapFaults) : Status × Store :=
  match Cowfs.versionAdd env.hash st.table ino v φ.info with
  | none => (some .enomem, st)
  | some (t, oldest) => (none, versionsFree { st with table := t } oldest.toList φ.remove)

/-- `cowfs_version_gc` on the store. -/
def Store.versionGc (st : Store) (now windowSeconds : UInt64) (fail : ℕ → Bool) : Store :=
  let (t, freed) := Cowfs.versionGc st.table now windowSeconds
  versionsFree { st with table := t } freed fail

/-- The `struct kstat` `vfs_getattr` fills in; the zeroed one when it fails. -/
def snapStat (i : Inode) (φ : SnapFaults) : Kstat :=
  if φ.getattr then Kstat.zero else ⟨i.mode, i.uid, i.gid, i.mtime⟩

/-- The size of the `shadow_path` and `orig_name` buffers. -/
def pathBufSize : ℕ := 256

/-- Hand out the next version record. -/
def Store.takeNode (st : Store) : Store := { st with nextNode := st.nextNode + 1 }

/-- The snapshot of `cowfs_write`, of a file with inode `i`. -/
def writeSnapshot (env : Env) (sbi : SbInfo) (i : Inode) (now : UInt64) (φ : SnapFaults)
    (st : Store) : Store :=
  if φ.alloc then st
  else
    let v := versionAlloc .write now st.nextNode
    let path := shadowMakePath sbi i.ino v.timestamp pathBufSize
    match shadowCopyFile env st.takeNode i.data path φ.copy with
    | (none, st) =>
      let v := { v with
        shadowPath := strscpy pathBufSize path
        hasData := true
        savedStat := snapStat i φ }
      (st.versionAdd env i.ino v φ).2
    | (some _, st) => versionFree st v false

/-- The snapshot of `cowfs_unlink`, of the file called `name`. -/
def unlinkSnapshot (env : Env) (sbi : SbInfo) (name : CStr) (i : Inode) (now : UInt64)
    (φ : SnapFaults) (st : Store) : Store :=
  if φ.alloc then st
  else
    let v := versionAlloc .unlink now st.nextNode
    let path := shadowMakePath sbi i.ino v.timestamp pathBufSize
    match shadowCopyFile env st.takeNode i.data path φ.copy with
    | (none, st) =>
      let v := { v with
        shadowPath := strscpy pathBufSize path
        origName := strscpy pathBufSize name
        hasData := true
        savedStat := snapStat i φ }
      (st.versionAdd env i.ino v φ).2
    | (some _, st) => versionFree st v false

/-- The snapshot of `cowfs_rename`, of the file called `name`. -/
def renameSnapshot (env : Env) (name : CStr) (i : Inode) (now : UInt64) (φ : SnapFaults)
    (st : Store) : Store :=
  if φ.alloc then st
  else
    let v := versionAlloc .rename now st.nextNode
    let v := { v with
      origName := strscpy pathBufSize name
      savedStat := snapStat i φ
      hasData := false }
    (st.takeNode.versionAdd env i.ino v φ).2

/-- The snapshot of `cowfs_setattr`; `sized` is `ia_valid & ATTR_SIZE`. -/
def setattrSnapshot (env : Env) (sbi : SbInfo) (sized : Bool) (i : Inode) (now : UInt64)
    (φ : SnapFaults) (st : Store) : Store :=
  if φ.alloc then st
  else
    let v := versionAlloc .setattr now st.nextNode
    let v := { v with savedStat := snapStat i φ, hasData := false }
    if sized then
      let path := shadowMakePath sbi i.ino v.timestamp pathBufSize
      match shadowCopyFile env st.takeNode i.data path φ.copy with
      | (none, st) =>
        let v := { v with shadowPath := strscpy pathBufSize path, hasData := true }
        (st.versionAdd env i.ino v φ).2
      | (some _, st) => (st.versionAdd env i.ino v φ).2
    else (st.takeNode.versionAdd env i.ino v φ).2

end Cowfs
