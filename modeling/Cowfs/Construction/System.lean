import Cowfs.Construction.Ctl
import Cowfs.Framework.Run

/-!
# The system as a step function

An `Op` is one call with all its arguments, among them the results of the kernel calls inside
it that may fail and the reading of the clock.  `step` executes it; a run is `run (step env)`
over a list of calls, from the state after the module is loaded.
-/

namespace Cowfs

inductive Op
  | mount (lowerdir : CStr) (err shadowErr : Status)
  | umount
  | open (fd : Fd) (f : Fid) (writable : Bool) (err : Status)
  | release (fd : Fd)
  | write (fd : Fd) (pos : ℕ) (bytes : Content) (now : UInt64) (φ : SnapFaults) (err : Status)
  | make (type : Umode) (dir : Fid) (name : CStr) (mode : Umode) (cred : Cred)
      (ino now : UInt64) (err : Status)
  | link (f dir : Fid) (name : CStr) (err : Status)
  | rmdir (dir : Fid) (name : CStr) (err : Status)
  | unlink (dir : Fid) (name : CStr) (now : UInt64) (φ : SnapFaults) (err : Status)
  | rename (d₁ : Fid) (n₁ : CStr) (d₂ : Fid) (n₂ : CStr) (flags : RenameFlags)
      (ino now : UInt64) (φ : SnapFaults) (err : Status)
  | setattr (f : Fid) (attr : Iattr) (now : UInt64) (φ : SnapFaults) (err : Status)
  | rollback (path : CStr) (timestamp : UInt64) (φ : RollbackFaults)
  | gc (now windowSeconds : UInt64) (fail : ℕ → Bool)

/-- The result and the next state of a call. -/
def exec (env : Env) (s : State) : Op → Status × State
  | .mount lowerdir err shadowErr => cowfsMount env s lowerdir err shadowErr
  | .umount => cowfsUmount s
  | .open fd f writable err => cowfsOpen s fd f writable err
  | .release fd => cowfsRelease s fd
  | .write fd pos bytes now φ err => cowfsWrite env s fd pos bytes now φ err
  | .make type dir name mode cred ino now err =>
    cowfsMake s type dir name mode cred ino now err
  | .link f dir name err => cowfsLink s f dir name err
  | .rmdir dir name err => cowfsRmdir s dir name err
  | .unlink dir name now φ err => cowfsUnlink env s dir name now φ err
  | .rename d₁ n₁ d₂ n₂ flags ino now φ err =>
    cowfsRename env s d₁ n₁ d₂ n₂ flags ino now φ err
  | .setattr f attr now φ err => cowfsSetattr env s f attr now φ err
  | .rollback path timestamp φ => ioctlRollback env s path timestamp φ
  | .gc now windowSeconds fail =>
    (none, { s with store := s.store.versionGc now windowSeconds fail })

def step (env : Env) (s : State) (op : Op) : State := (exec env s op).2

/-- The store after the module is loaded; `shadow` are the shadow directories that are there
from earlier sessions. -/
def Store.init (shadow : Fid → Option ShadowFiles) : Store where
  table := VersionsHtable.init
  shadow := shadow
  outside := fun _ => none
  dirpath := none
  nextNode := 0

/-- The state after the module is loaded, over the lower tree `l`. -/
def State.init (l : Lower) (shadow : Fid → Option ShadowFiles) : State where
  lower := l
  store := Store.init shadow
  mount := none
  fds := fun _ => none

/-- A state some run leads to, from the module being loaded over some lower tree. -/
def Reachable (env : Env) (s : State) : Prop :=
  ∃ l shadow ops, s = run (step env) (State.init l shadow) ops

end Cowfs
