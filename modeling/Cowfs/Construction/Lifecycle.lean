import Cowfs.Framework.Run

/-!
# Loading and unloading (`cowfs_main.c`)

`cowfs_init` sets up the version caches and the worker, then the device, then the file system;
where a step fails, what was set up is taken down again.  `cowfs_exit` takes everything down.
Both run step by step among the opens, mounts and calls of user space and the passes of the worker.

The kernel lets the device be opened and the file system be mounted while the module is being
loaded, not once it is being unloaded, and it unloads a module only when no open device and no
mount refer to it.  A module whose `cowfs_init` has failed is discarded without that check.
-/

namespace Cowfs

/-- A call of `cowfs_init` or `cowfs_exit` that changes what is set up. -/
inductive ModInstr
  | createVersions | createInfos | schedule | registerDevice | registerFs
  | unregisterFs | deregisterDevice | cancelWork | gcAll | destroyVersions | destroyInfos
  deriving DecidableEq

/-- The calls of `cowfs_init` that fail. -/
structure InitFaults where
  versions : Bool
  infos : Bool
  device : Bool
  fs : Bool
  deriving DecidableEq

/-- `cowfs_versions_destroy` -/
def versionsDestroyInstrs : List ModInstr := [.cancelWork, .gcAll, .destroyVersions, .destroyInfos]

/-- `cowfs_versions_init`, where nothing fails. -/
def versionsInitInstrs : List ModInstr := [.createVersions, .createInfos, .schedule]

/-- Whether `cowfs_init` succeeds, and what it does. -/
def cowfsInit (φ : InitFaults) : Bool × List ModInstr :=
  if φ.versions then (false, [])
  else if φ.infos then (false, [.createVersions, .destroyVersions])
  else if φ.device then (false, versionsInitInstrs ++ versionsDestroyInstrs)
  else if φ.fs then
    (false, versionsInitInstrs ++ .registerDevice :: .deregisterDevice :: versionsDestroyInstrs)
  else (true, versionsInitInstrs ++ [.registerDevice, .registerFs])

/-- `cowfs_exit` -/
def cowfsExit : List ModInstr := .unregisterFs :: .deregisterDevice :: versionsDestroyInstrs

inductive Phase
  | absent
  | loading (ok : Bool)
  | live
  | unloading
  deriving DecidableEq

/-- What is set up. -/
structure Setup where
  versions : Bool
  infos : Bool
  /-- `gc_work` is queued, or running and about to queue itself. -/
  work : Bool
  device : Bool
  fs : Bool
  deriving DecidableEq

namespace Setup

def none : Setup := ⟨false, false, false, false, false⟩

def all : Setup := ⟨true, true, true, true, true⟩

def perform (s : Setup) : ModInstr → Setup
  | .createVersions => { s with versions := true }
  | .createInfos => { s with infos := true }
  | .schedule => { s with work := true }
  | .registerDevice => { s with device := true }
  | .registerFs => { s with fs := true }
  | .unregisterFs => { s with fs := false }
  | .deregisterDevice => { s with device := false }
  | .cancelWork => { s with work := false }
  | .gcAll => s
  | .destroyVersions => { s with versions := false }
  | .destroyInfos => { s with infos := false }

end Setup

structure ModState where
  phase : Phase
  /-- What `cowfs_init` or `cowfs_exit` has yet to do. -/
  todo : List ModInstr
  setup : Setup
  /-- A pass of the worker is under way. -/
  running : Bool
  /-- Open files of the device. -/
  fds : ℕ
  mounts : ℕ

inductive ModAct
  | load (φ : InitFaults)
  | unload
  | instr
  | openDevice
  | ioctl
  | closeDevice
  | mount
  | call
  | umount
  | startPass
  | endPass
  deriving DecidableEq

namespace ModState

def init : ModState := ⟨.absent, [], .none, false, 0, 0⟩

/-- The phase after the last instruction. -/
def finish (s : ModState) : ModState :=
  match s.phase with
  | .loading true => { s with phase := .live }
  | .loading false | .unloading => { s with phase := .absent }
  | .absent | .live => s

/-- The next instruction. -/
def next (s : ModState) : ModState :=
  match s.todo with
  | [] => s.finish
  | i :: rest =>
    -- cancel_delayed_work_sync waits for the pass
    if i = .cancelWork && s.running then s
    else { s with setup := s.setup.perform i, todo := rest }

def step (s : ModState) : ModAct → ModState
  | .load φ =>
    if s.phase = .absent then { s with phase := .loading (cowfsInit φ).1, todo := (cowfsInit φ).2 }
    else s
  | .unload =>
    if s.phase = .live ∧ s.fds = 0 ∧ s.mounts = 0 then
      { s with phase := .unloading, todo := cowfsExit }
    else s
  | .instr => s.next
  | .openDevice =>
    if s.setup.device ∧ s.phase ≠ .unloading then { s with fds := s.fds + 1 } else s
  | .ioctl => s
  | .closeDevice => { s with fds := s.fds - 1 }
  | .mount => if s.setup.fs ∧ s.phase ≠ .unloading then { s with mounts := s.mounts + 1 } else s
  | .call => s
  | .umount => { s with mounts := s.mounts - 1 }
  | .startPass => if s.setup.work then { s with running := true } else s
  | .endPass => { s with running := false }

end ModState

end Cowfs
