import Cowfs.Properties.SessionLog

/-!
# What the snapshot flag tells

`cowfs_write` sets `snapshot_taken` before it tries the snapshot and leaves it set when the
allocation, the copy or the insertion fails; `cowfs_setattr` sets it when `notify_change` has
succeeded, whatever became of the version it allocated before.  A set flag therefore says that a
snapshot was tried, not that there is one, and the next write does not try again.

There is a second way to lose a content: the snapshot succeeds, the write after it fails in the
lower file system, and the file is changed through another descriptor.  The first change
through the flagged descriptor then finds a content nobody has saved.
-/

namespace Cowfs

/-- After the run every flag that is set vouches for an inserted version with the content its
file had before the first change through the descriptor. -/
def FlagsTell (env : Env) (s₀ : State) (ops : List Op) : Prop :=
  ∀ fd fi, (run (step env) s₀ ops).fds fd = some fi → fi.snapshotTaken = true →
    ∃ k, (k, some (preImage (run (sessionStep env) (s₀, Sessions.start) ops) fd fi)) ∈
      dataLog env s₀ ops ((run (step env) s₀ ops).lower.inoOf fi.lowerFile)

/-- No memory for a version. -/
def noVersion : SnapFaults := { SnapFaults.clean with alloc := true }

/-- No version can be allocated at the first write, which the lower file system refuses. -/
def failedFirst : List Op :=
  [.open 0 4 true none, .write 0 0 [1] 1000 noVersion (some (.other 28))]

end Cowfs
