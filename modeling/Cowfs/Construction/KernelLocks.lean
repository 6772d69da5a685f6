import Cowfs.Construction.Types
import Cowfs.Framework.LockOrder

/-!
# Locks of a call

The locks a call of the module holds, from its entry to its return: those the VFS has taken when
it enters, those the module takes, and those of the lower file system's calls on the inodes they
work on.  Between them a call sleeps (an allocation, a lower call, a copy from or to the caller)
or is at the version table, under `versions_lock`, or at the list of one inode number, under
`info->lock` as well.

A program holds every piece a call can go through; the parts that depend on failures, on the
cache or on the table (which files are written, whether a name is looked up, how many versions
are freed) are arguments.  The lower files are shadow files too, and the lower directory a call
works in may be the shadow directory itself, or lie in it.  The path down to the shadow directory
is in the cache, as the mount holds its end, and the paths of shadow files fit their buffer.

The VFS locks a directory that is removed, and one that a rename replaces, under the directory it
is in.  Directories are renamed within their directory only: the tree does not change.
-/

namespace Cowfs

inductive KernelLock
  /-- `s_vfs_rename_mutex` -/
  | renameMutex
  | upperDir (d : Fid)
  | upperFile (f : Fid)
  | lowerDir (d : Fid)
  | lowerFile (f : Fid)
  /-- `versions_lock` -/
  | versionsLock
  /-- `info->lock` of the record of an inode number. -/
  | infoLock (ino : UInt64)
  deriving DecidableEq

/-- What is done between the locks. -/
inductive KernelWork
  | sleep
  /-- The buckets of `versions_htable`. -/
  | table
  /-- The versions of one record. -/
  | versions (ino : UInt64)
  deriving DecidableEq

abbrev KernelInstr := LockInstr KernelLock KernelWork

/-- The addresses of the inodes, by which `lock_two_nondirectories` orders them. -/
structure Addresses where
  upper : Fid → ℕ
  lower : Fid → ℕ
  upper_inj : Function.Injective upper
  lower_inj : Function.Injective lower

/-- Which directories lie above a directory. -/
structure DirTree where
  above : Fid → Fid → Bool
  above_irrefl : ∀ d, above d d = false
  above_trans : ∀ {d₁ d₂ d₃}, above d₁ d₂ → above d₂ d₃ → above d₁ d₃

/-- What is fixed for a mount: the addresses, the tree, and the directory `.cowfs_shadow`. -/
structure LockEnv extends Addresses, DirTree where
  shadow : Fid

open LockInstr (under)

/-! ## The version table -/

/-- A critical section of `versions_lock` that looks at the records of `inos`. -/
def tableLocks (inos : List UInt64) : List KernelInstr :=
  under .versionsLock false
    (.act .table :: inos.flatMap fun ino => under (.infoLock ino) false [.act (.versions ino)])

/-- `cowfs_version_add` up to the release of the evicted version; `nomem` is the failure of
`find_or_create_inode_info`. -/
def versionAddLocks (ino : UInt64) (nomem : Bool) : List KernelInstr :=
  tableLocks (if nomem then [] else [ino])

/-- `cowfs_version_list` -/
def versionListLocks (ino : UInt64) (found : Bool) : List KernelInstr :=
  tableLocks (if found then [ino] else [])

/-- `cowfs_version_find` -/
def versionFindLocks (ino : UInt64) (found : Bool) : List KernelInstr :=
  tableLocks (if found then [ino] else [])

/-- `cowfs_version_find_deleted` -/
def versionFindDeletedLocks (inos : List UInt64) : List KernelInstr := tableLocks inos

/-! ## Shadow files -/

/-- What `cowfs_shadow_copy_file` meets: whether the name is looked up in the shadow directory,
whether a file there is truncated, and how often it writes. -/
structure CopySteps where
  file : Fid
  looked : Bool
  truncated : Bool
  writes : ℕ
  deriving DecidableEq

/-- `kernel_read`, and `kernel_write` into `f`. -/
def writeLocks (f : Fid) (writes : ℕ) : List KernelInstr :=
  (List.replicate writes f).flatMap fun f =>
    .act .sleep :: under (.lowerFile f) false [.act .sleep]

/-- `cowfs_shadow_copy_file`: the credentials, the source, the shadow file, the buffer, the
loop. -/
def shadowCopyFileLocks (e : LockEnv) (c : CopySteps) : List KernelInstr :=
  .act .sleep :: .act .sleep ::
    ((if c.looked then under (.lowerDir e.shadow) false [.act .sleep] else []) ++
      ((if c.truncated then under (.lowerFile c.file) false [.act .sleep] else []) ++
        .act .sleep :: writeLocks c.file c.writes))

/-- What `cowfs_shadow_restore_file` meets: whether the shadow file is looked up in its
directory, whether the target is truncated, and how often it writes. -/
structure RestoreSteps where
  looked : Bool
  truncated : Bool
  writes : ℕ
  deriving DecidableEq

/-- `cowfs_shadow_restore_file` into `f`. -/
def shadowRestoreFileLocks (e : LockEnv) (f : Fid) (r : RestoreSteps) : List KernelInstr :=
  .act .sleep ::
    ((if r.looked then under (.lowerDir e.shadow) true [.act .sleep] else []) ++
      .act .sleep ::
        ((if r.truncated then under (.lowerFile f) false [.act .sleep] else []) ++
          .act .sleep :: writeLocks f r.writes))

/-- `cowfs_shadow_remove`, of the file that is found. -/
def shadowRemoveLocks (e : LockEnv) (found : Option Fid) : List KernelInstr :=
  .act .sleep :: under (.lowerDir e.shadow) false
    (.act .sleep :: found.toList.flatMap fun f => under (.lowerFile f) false [.act .sleep])

/-- `cowfs_version_free`; `none` is a version without data or without a shadow directory. -/
def versionFreeLocks (e : LockEnv) (removed : Option (Option Fid)) : List KernelInstr :=
  removed.toList.flatMap (shadowRemoveLocks e)

/-- The recording of a version: its allocation, the copy, `cowfs_version_add`, and the versions
released. -/
structure SnapshotSteps where
  copy : Option CopySteps
  add : Option (UInt64 × Bool)
  freed : List (Option (Option Fid))
  deriving DecidableEq

def snapshotLocks (e : LockEnv) (x : SnapshotSteps) : List KernelInstr :=
  .act .sleep :: (x.copy.toList.flatMap (shadowCopyFileLocks e) ++
    (x.add.toList.flatMap (fun p => versionAddLocks p.1 p.2) ++
      x.freed.flatMap (versionFreeLocks e)))

/-! ## Operations of the mount -/

/-- `cowfs_lookup` of a name in `d`, if it is not in the cache. -/
def lookupLocks (d : Fid) (looked : Bool) : List KernelInstr :=
  if looked then under (.lowerDir d) true [.act .sleep] ++ [.act .sleep] else []

/-- `cowfs_lookup` in an upper directory, which the VFS has locked. -/
def cowfsLookupLocks (d : Fid) (shared : Bool) : List KernelInstr :=
  under (.upperDir d) shared (lookupLocks d true)

/-- `cowfs_iterate_shared` -/
def cowfsIterateSharedLocks (d : Fid) : List KernelInstr :=
  under (.upperDir d) true (under (.lowerDir d) true [.act .sleep])

/-- `cowfs_create`, `cowfs_mkdir`, `cowfs_symlink`: the lower directory is not locked. -/
def cowfsMakeLocks (d : Fid) (looked : Bool) : List KernelInstr :=
  under (.upperDir d) false (lookupLocks d looked ++ [.act .sleep])

/-- `cowfs_link` of the file `f`. -/
def cowfsLinkLocks (f d : Fid) (looked : Bool) : List KernelInstr :=
  under (.upperDir d) false (lookupLocks d looked ++
    under (.upperFile f) false (under (.lowerFile f) false [.act .sleep]))

/-- `cowfs_unlink` of the file `f`. -/
def cowfsUnlinkLocks (e : LockEnv) (d f : Fid) (looked : Bool) (x : SnapshotSteps) :
    List KernelInstr :=
  under (.upperDir d) false (lookupLocks d looked ++ under (.upperFile f) false
    (snapshotLocks e x ++
      under (.lowerDir d) false (under (.lowerFile f) false [.act .sleep])))

/-- `cowfs_rmdir` of the directory `v`; `vfs_rmdir` locks it on both sides. -/
def cowfsRmdirLocks (d v : Fid) (looked : Bool) : List KernelInstr :=
  under (.upperDir d) false (lookupLocks d looked ++ under (.upperDir v) false
    (under (.lowerDir d) false (under (.lowerDir v) false [.act .sleep])))

/-- `lock_two_nondirectories`, by address. -/
def lockTwo (lock : Fid → KernelLock) (addr : Fid → ℕ) (f : Fid) (g : Option Fid)
    (body : List KernelInstr) : List KernelInstr :=
  match g with
  | none => under (lock f) false body
  | some g =>
    if f = g then under (lock f) false body
    else if addr f < addr g then under (lock f) false (under (lock g) false body)
    else under (lock g) false (under (lock f) false body)

/-- `lock_rename`: a directory above the other is locked first. -/
def lockRename (e : LockEnv) (d₁ d₂ : Fid) (body : List KernelInstr) : List KernelInstr :=
  if d₁ = d₂ then under (.upperDir d₁) false body
  else
    under .renameMutex false
      (if e.above d₂ d₁ then under (.upperDir d₂) false (under (.upperDir d₁) false body)
      else under (.upperDir d₁) false (under (.upperDir d₂) false body))

/-- `cowfs_rename` of the file `f` over `g`: neither lower directory is locked. -/
def cowfsRenameLocks (e : LockEnv) (d₁ d₂ f : Fid) (g : Option Fid) (looked₁ looked₂ : Bool)
    (x : SnapshotSteps) : List KernelInstr :=
  lockRename e d₁ d₂ (lookupLocks d₁ looked₁ ++ (lookupLocks d₂ looked₂ ++
    lockTwo .upperFile e.upper f g
      (snapshotLocks e x ++ lockTwo .lowerFile e.lower f g [.act .sleep])))

/-- The locks of `vfs_rename` on directories: the one replaced, if any; the one renamed keeps its
parent. -/
def lockReplaced (lock : Fid → KernelLock) (replaced : Option Fid) (body : List KernelInstr) :
    List KernelInstr :=
  match replaced with
  | none => body
  | some v => under (lock v) false body

/-- `cowfs_rename` of a directory within `d`. -/
def cowfsRenameDirLocks (e : LockEnv) (d : Fid) (replaced : Option Fid) (looked₁ looked₂ : Bool)
    (x : SnapshotSteps) : List KernelInstr :=
  lockRename e d d (lookupLocks d looked₁ ++ (lookupLocks d looked₂ ++
    lockReplaced .upperDir replaced
      (snapshotLocks e x ++ lockReplaced .lowerDir replaced [.act .sleep])))

/-- An inode of the mount, or the one under it. -/
def upperInodeLock (isDir : Bool) (f : Fid) : KernelLock :=
  if isDir then .upperDir f else .upperFile f

def lowerInodeLock (isDir : Bool) (f : Fid) : KernelLock :=
  if isDir then .lowerDir f else .lowerFile f

/-- `cowfs_setattr` -/
def cowfsSetattrLocks (e : LockEnv) (isDir : Bool) (f : Fid) (x : SnapshotSteps) :
    List KernelInstr :=
  under (upperInodeLock isDir f) false
    (snapshotLocks e x ++ under (lowerInodeLock isDir f) false [.act .sleep])

/-- `cowfs_write`; `x` is the snapshot, if it takes one. -/
def cowfsWriteLocks (e : LockEnv) (f : Fid) (x : Option SnapshotSteps) : List KernelInstr :=
  x.toList.flatMap (snapshotLocks e) ++ under (.lowerFile f) false [.act .sleep]

/-- `cowfs_shadow_init` of a mount on `root`. -/
def cowfsShadowInitLocks (root : Fid) : List KernelInstr :=
  .act .sleep :: under (.lowerDir root) false [.act .sleep, .act .sleep]

/-! ## The control device and the collector -/

/-- `kern_path` through the mount; `walk` are the directories in which a name is looked up. -/
def kernPathLocks (walk : List Fid) : List KernelInstr :=
  walk.flatMap fun d => cowfsLookupLocks d true

/-- `COWFS_IOC_LIST` -/
def ioctlListLocks (walk : List Fid) (ino : UInt64) (found : Bool) : List KernelInstr :=
  .act .sleep :: (kernPathLocks walk ++ (versionListLocks ino found ++ [.act .sleep]))

/-- The branches of a rollback on the type of the version. -/
inductive RollbackBranch
  | nothing
  | unlink (d : Fid) (created : Option (Fid × Option RestoreSteps))
  | data (f : Fid) (r : RestoreSteps)
  | rename (d f : Fid) (g : Option Fid)
  | renameDir (d : Fid) (replaced : Option Fid)
  deriving DecidableEq

/-- `lookup_one_len`, `vfs_create` and the restored content, with the directory locked. -/
def recreateLocks (e : LockEnv) (d : Fid) (created : Option (Fid × Option RestoreSteps)) :
    List KernelInstr :=
  under (.lowerDir d) false (.act .sleep :: created.toList.flatMap fun p =>
    .act .sleep :: p.2.toList.flatMap (shadowRestoreFileLocks e p.1))

def rollbackBranchLocks (e : LockEnv) : RollbackBranch → List KernelInstr
  | .nothing => []
  | .unlink d created => recreateLocks e d created
  | .data f r => shadowRestoreFileLocks e f r
  | .rename d f g =>
    under (.lowerDir d) false (.act .sleep :: lockTwo .lowerFile e.lower f g [.act .sleep])
  | .renameDir d replaced =>
    under (.lowerDir d) false (.act .sleep :: lockReplaced .lowerDir replaced [.act .sleep])

/-- `COWFS_IOC_ROLLBACK` on a path that resolves: the branch on the type, and the file or
directory whose attributes are put back, if any. -/
def ioctlRollbackLocks (e : LockEnv) (walk : List Fid) (ino : UInt64) (found : Bool)
    (branch : RollbackBranch) (attrs : Option (Bool × Fid)) : List KernelInstr :=
  .act .sleep :: (kernPathLocks walk ++ (versionFindLocks ino found ++
    (kernPathLocks walk ++ (rollbackBranchLocks e branch ++
      attrs.toList.flatMap fun p => under (lowerInodeLock p.1 p.2) false [.act .sleep]))))

/-- `rollback_deleted` -/
def rollbackDeletedLocks (e : LockEnv) (walk : List Fid) (inos : List UInt64) (d : Fid)
    (created : Option (Fid × Option RestoreSteps)) : List KernelInstr :=
  .act .sleep :: (kernPathLocks walk ++ (versionFindDeletedLocks inos ++
    (kernPathLocks walk ++ recreateLocks e d created)))

/-- `cowfs_version_gc` and `cowfs_versions_gc_all`: the records, then the versions unlinked. -/
def versionGcLocks (e : LockEnv) (inos : List UInt64) (freed : List (Option (Option Fid))) :
    List KernelInstr :=
  tableLocks inos ++ freed.flatMap (versionFreeLocks e)

/-! ## Calls -/

inductive KernelCall
  | lookup (d : Fid) (shared : Bool)
  | readdir (d : Fid)
  | make (d : Fid) (looked : Bool)
  | link (f d : Fid) (looked : Bool)
  | unlink (d f : Fid) (looked : Bool) (x : SnapshotSteps)
  | rmdir (d v : Fid) (looked : Bool)
  | rename (d₁ d₂ f : Fid) (g : Option Fid) (looked₁ looked₂ : Bool) (x : SnapshotSteps)
  | renameDir (d : Fid) (replaced : Option Fid) (looked₁ looked₂ : Bool) (x : SnapshotSteps)
  | setattr (isDir : Bool) (f : Fid) (x : SnapshotSteps)
  | write (f : Fid) (x : Option SnapshotSteps)
  | mount (root : Fid)
  | list (walk : List Fid) (ino : UInt64) (found : Bool)
  | rollback (walk : List Fid) (ino : UInt64) (found : Bool) (branch : RollbackBranch)
      (attrs : Option (Bool × Fid))
  | rollbackDeleted (walk : List Fid) (inos : List UInt64) (d : Fid)
      (created : Option (Fid × Option RestoreSteps))
  | gc (inos : List UInt64) (freed : List (Option (Option Fid)))
  deriving DecidableEq

def KernelCall.locks (e : LockEnv) : KernelCall → List KernelInstr
  | .lookup d shared => cowfsLookupLocks d shared
  | .readdir d => cowfsIterateSharedLocks d
  | .make d looked => cowfsMakeLocks d looked
  | .link f d looked => cowfsLinkLocks f d looked
  | .unlink d f looked x => cowfsUnlinkLocks e d f looked x
  | .rmdir d v looked => cowfsRmdirLocks d v looked
  | .rename d₁ d₂ f g looked₁ looked₂ x => cowfsRenameLocks e d₁ d₂ f g looked₁ looked₂ x
  | .renameDir d replaced looked₁ looked₂ x => cowfsRenameDirLocks e d replaced looked₁ looked₂ x
  | .setattr isDir f x => cowfsSetattrLocks e isDir f x
  | .write f x => cowfsWriteLocks e f x
  | .mount root => cowfsShadowInitLocks root
  | .list walk ino found => ioctlListLocks walk ino found
  | .rollback walk ino found branch attrs => ioctlRollbackLocks e walk ino found branch attrs
  | .rollbackDeleted walk inos d created => rollbackDeletedLocks e walk inos d created
  | .gc inos freed => versionGcLocks e inos freed

/-! ## Runs -/

/-- The state after a run of calls. -/
abbrev callsRun (e : LockEnv) (as : List (Sched KernelCall)) :
    LockThreads KernelLock KernelWork :=
  run (LockThreads.step (KernelCall.locks e)) .init as

/-- Inodes addressed by their numbers, the directory 7 in the shadow directory 0, and that in the
root 9. -/
def smallLockEnv : LockEnv where
  upper := id
  lower := id
  upper_inj := Function.injective_id
  lower_inj := Function.injective_id
  above d d' := decide (d = 9 ∧ (d' = 0 ∨ d' = 7) ∨ d = 0 ∧ d' = 7)
  above_irrefl d := by
    rw [decide_eq_false_iff_not]
    grind
  above_trans {d₁ d₂ d₃} h h' := by
    rw [decide_eq_true_iff] at *
    grind
  shadow := 0

end Cowfs
