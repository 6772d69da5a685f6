import Cowfs.Construction.Operations
import Cowfs.Construction.Paths

/-!
# Who resolves a shadow path

`Env.lowerRoot` and `locate` resolve paths as one process does throughout.  In the kernel
`kern_path` and `filp_open` resolve a string for the current process: from its root when it is
absolute, from its working directory otherwise.  The string `shadow_root` is made from the
mount option and is resolved anew by every process that copies or restores; the directory
dentry `cowfs_shadow_dirpath` is looked up once, at the time of mounting.

How the kernel walks is left open in `PathWalk`: one component may be a link, a mount point or
`..`, and all of these may depend on the root of the process.
-/

namespace Cowfs

/-- What path resolution reads of the current process. -/
structure Process where
  root : Fid
  cwd : Fid
  deriving DecidableEq, Repr

/-- `enter root d n` is the directory the component `n` leads to from `d`, for a process with
that root; `lookupOne d n` is what `lookup_one_len` finds. -/
structure PathWalk where
  enter : Fid → Fid → CStr → Option Fid
  lookupOne : Fid → CStr → Option Fid

/-- Where a path starts. -/
def Process.start (p : Process) (path : CStr) : Fid :=
  if path.head? = some '/' then p.root else p.cwd

/-- `kern_path(path, LOOKUP_FOLLOW | LOOKUP_DIRECTORY)` -/
def PathWalk.kernPathDir (w : PathWalk) (p : Process) (path : CStr) : Option Fid :=
  if path = [] then none else (components path).foldlM (w.enter p.root) (p.start path)

/-- The directory and the name `filp_open` opens the last component of a path at. -/
def PathWalk.filpOpen (w : PathWalk) (p : Process) (path : CStr) : Option (Fid × CStr) :=
  match strrchr '/' path with
  | none => some (p.cwd, path)
  | some (dir, base) => (w.kernPathDir p (dir ++ ['/'])).map fun d => (d, base)

/-- What a mount keeps: its `struct cowfs_sb_info`, and `cowfs_shadow_dirpath`. -/
structure ShadowMount where
  sbi : SbInfo
  dirpath : Fid
  deriving DecidableEq, Repr

/-- `cowfs_fill_super` by the process `p`, when nothing fails and `.cowfs_shadow` is there. -/
def PathWalk.fillSuper (w : PathWalk) (p : Process) (lowerdir : CStr) : Option ShadowMount :=
  match w.kernPathDir p lowerdir with
  | none => none
  | some root => (w.lookupOne root shadowDir).map fun d => ⟨fillSbInfo root lowerdir, d⟩

/-- The entry at which `cowfs_shadow_copy_file` creates the file, called by the process `p`. -/
def PathWalk.copyEntry (w : PathWalk) (m : ShadowMount) (p : Process) (ino ts : UInt64) :
    Option (Fid × CStr) :=
  w.filpOpen p (shadowMakePath m.sbi ino ts pathBufSize)

/-- The entry `cowfs_shadow_restore_file` opens, called by `p` with the path of the version. -/
def PathWalk.restoreEntry (w : PathWalk) (m : ShadowMount) (p : Process) (ino ts : UInt64) :
    Option (Fid × CStr) :=
  w.filpOpen p (strscpy pathBufSize (shadowMakePath m.sbi ino ts pathBufSize))

/-- The entry `cowfs_shadow_remove` unlinks; the process that calls it plays no part. -/
def removeEntry (m : ShadowMount) (_p : Process) (ino ts : UInt64) : Option (Fid × CStr) :=
  some (m.dirpath, shadowBase (strscpy pathBufSize (shadowMakePath m.sbi ino ts pathBufSize)))

/-! ## The plain walk -/

/-- The walk through the directories of `l`, without links and mount points. -/
def Lower.pathWalk (l : Lower) : PathWalk where
  enter _ d n := (l.entries d n).filter l.isDir
  lookupOne := l.entries

end Cowfs
