import Cowfs.Construction.Shadow

/-!
# The mounted file system (`cowfs_super.c`, `cowfs_file.c`, `cowfs_inode.c`)

`State` is the whole system: the lower tree, the store, the mount, and the files open through
it.  Every operation is a total function that returns the C result and the next state; it takes
the results of the calls that can fail and the reading of the clock as arguments.

The VFS calls an operation on a dentry it has looked up; here the operation names the lower
directory and the name, or the lower file, that the dentry stands for.  Opening with `O_TRUNC`
is the open followed by the `cowfs_setattr` the VFS issues for it, with `ATTR_SIZE`,
`ATTR_OPEN` and the new file in `ia_file`.
-/

namespace Cowfs

/-- `struct cowfs_file_info`, with the access mode of the file. -/
structure CowfsFileInfo where
  lowerFile : Fid
  writable : Bool
  snapshotTaken : Bool
  deriving DecidableEq, Repr

structure State where
  lower : Lower
  store : Store
  mount : Option SbInfo
  fds : Fd → Option CowfsFileInfo

/-! ## Mounting -/

/-- The `struct cowfs_sb_info` that `cowfs_fill_super` fills in. -/
def fillSbInfo (root : Fid) (lowerdir : CStr) : SbInfo where
  lowerRoot := root
  lowerdir := strscpy 512 lowerdir
  shadowRoot := snprintf 512 (lowerdir ++ '/' :: shadowDir)

/-- `cowfs_shadow_init`: the directory is made unless it is there; the mount goes on without
it when that fails. -/
def shadowInit (st : Store) (root : Fid) (err : Status) : Store :=
  match err with
  | some _ => st
  | none =>
    { st with
      shadow := Function.update st.shadow root (some ((st.shadow root).getD fun _ => none))
      dirpath := some root }

/-- `cowfs_fill_super`; `err` is the failure of an allocation, `shadowErr` that of the shadow
directory. -/
def cowfsMount (env : Env) (s : State) (lowerdir : CStr) (err shadowErr : Status) :
    Status × State :=
  match s.mount with
  | some _ => (some (.other 16), s)
  | none =>
    match env.lowerRoot lowerdir, err with
    | none, _ => (some .enoent, s)
    | some _, some e => (some e, s)
    | some root, none =>
      (none, { s with
        mount := some (fillSbInfo root lowerdir)
        store := shadowInit s.store root shadowErr })

/-- `cowfs_put_super`, which runs when the last file of the mount is closed. -/
def cowfsUmount (s : State) : Status × State :=
  (none, { s with
    mount := none
    fds := fun _ => none
    store := { s.store with dirpath := none } })

/-! ## Open files -/

/-- `cowfs_open` -/
def cowfsOpen (s : State) (fd : Fd) (f : Fid) (writable : Bool) (err : Status) :
    Status × State :=
  match s.mount, s.lower.inodes f, err with
  | none, _, _ => (some .enoent, s)
  | _, none, _ => (some .enoent, s)
  | _, _, some e => (some e, s)
  | some _, some _, none =>
    (none, { s with fds := Function.update s.fds fd (some ⟨f, writable, false⟩) })

/-- `cowfs_release` -/
def cowfsRelease (s : State) (fd : Fd) : Status × State :=
  (none, { s with fds := Function.update s.fds fd none })

/-- Set the `snapshot_taken` flag of `fd`. -/
def markSnapshot (fds : Fd → Option CowfsFileInfo) (fd : Fd) : Fd → Option CowfsFileInfo :=
  Function.update fds fd ((fds fd).map fun fi => { fi with snapshotTaken := true })

/-- `cowfs_write` of `bytes` at `pos`; `err` is the result of the lower write. -/
def cowfsWrite (env : Env) (s : State) (fd : Fd) (pos : ℕ) (bytes : Content) (now : UInt64)
    (φ : SnapFaults) (err : Status) : Status × State :=
  match s.mount, s.fds fd with
  | some sbi, some fi =>
    match s.lower.inodes fi.lowerFile with
    | none => (some .ebadf, s)
    | some i =>
      let s :=
        if !fi.snapshotTaken && fi.writable then
          { s with
            fds := markSnapshot s.fds fd
            store := writeSnapshot env sbi i now φ s.store }
        else s
      if fi.writable then
        let (err, lower) := vfsIterWrite s.lower fi.lowerFile pos bytes now.toNat err
        (err, { s with lower := lower })
      else (some .ebadf, s)
  | _, _ => (some .ebadf, s)

/-! ## Inode operations -/

/-- `cowfs_create`, `cowfs_mkdir` and `cowfs_symlink` pass the call down. -/
def cowfsMake (s : State) (type : Umode) (dir : Fid) (name : CStr) (mode : Umode) (cred : Cred)
    (ino : UInt64) (now : UInt64) (err : Status) : Status × State :=
  match s.mount with
  | none => (some .enoent, s)
  | some _ =>
    let (err, lower) := vfsMake type s.lower dir name mode cred ino now.toNat err
    (err, { s with lower := lower })

/-- `cowfs_link` -/
def cowfsLink (s : State) (f dir : Fid) (name : CStr) (err : Status) : Status × State :=
  match s.mount with
  | none => (some .enoent, s)
  | some _ =>
    let (err, lower) := vfsLink s.lower f dir name err
    (err, { s with lower := lower })

/-- `cowfs_rmdir` -/
def cowfsRmdir (s : State) (dir : Fid) (name : CStr) (err : Status) : Status × State :=
  match s.mount with
  | none => (some .enoent, s)
  | some _ =>
    let (err, lower) := vfsRmdir s.lower dir name err
    (err, { s with lower := lower })

/-- The lower inode a name leads to. -/
def Lower.inodeAt (l : Lower) (dir : Fid) (name : CStr) : Option Inode :=
  (l.entries dir name).bind l.inodes

/-- `cowfs_unlink` -/
def cowfsUnlink (env : Env) (s : State) (dir : Fid) (name : CStr) (now : UInt64)
    (φ : SnapFaults) (err : Status) : Status × State :=
  match s.mount, s.lower.inodeAt dir name with
  | some sbi, some i =>
    let store := unlinkSnapshot env sbi name i now φ s.store
    let (err, lower) := vfsUnlink s.lower dir name err
    (err, { s with store := store, lower := lower })
  | _, _ => (some .enoent, s)

/-- `cowfs_rename`; `ino` is the inode number of the whiteout, if one is asked for. -/
def cowfsRename (env : Env) (s : State) (d₁ : Fid) (n₁ : CStr) (d₂ : Fid) (n₂ : CStr)
    (flags : RenameFlags) (ino now : UInt64) (φ : SnapFaults) (err : Status) :
    Status × State :=
  match s.mount, s.lower.inodeAt d₁ n₁ with
  | some _, some i =>
    let store := renameSnapshot env n₁ i now φ s.store
    let (err, lower) := vfsRename s.lower d₁ n₁ d₂ n₂ flags ino now.toNat err
    (err, { s with store := store, lower := lower })
  | _, _ => (some .enoent, s)

/-- `cowfs_setattr` of the lower file `f`. -/
def cowfsSetattr (env : Env) (s : State) (f : Fid) (attr : Iattr) (now : UInt64)
    (φ : SnapFaults) (err : Status) : Status × State :=
  match s.mount, s.lower.inodes f with
  | some sbi, some i =>
    let store := setattrSnapshot env sbi attr.iaSize.isSome i now φ s.store
    -- the lower file system does not see ATTR_FILE and ATTR_OPEN
    let lowerAttr := { attr with iaFile := none, attrOpen := false }
    let (err, lower) := notifyChange s.lower f lowerAttr now.toNat err
    let fds :=
      match err, attr.iaSize, attr.iaFile with
      | none, some _, some fd => markSnapshot s.fds fd
      | _, _, _ => s.fds
    (err, { s with store := store, lower := lower, fds := fds })
  | _, _ => (some .enoent, s)

end Cowfs
