import Cowfs.Construction.System

/-!
# The worker (`gc_work`)

`cowfs_versions_init` and `gc_worker` queue the next pass of the collector.  The delay is
`msecs_to_jiffies(cowfs_gc_interval * 1000)`: the parameter is an `unsigned long` the
administrator may set to anything at any time, the product wraps, and `msecs_to_jiffies` takes an
`unsigned int` whose negative values stand for no timeout at all.

Time is counted in nanoseconds of the clock that stamps the versions.
-/

namespace Cowfs

/-- `MAX_JIFFY_OFFSET` -/
def maxJiffyOffset : ℕ := 2 ^ 62 - 2

/-- `HZ` and `msecs_to_jiffies`, which rounds up. -/
structure Jiffies where
  hz : ℕ
  msecsToJiffies : UInt32 → ℕ
  hz_eq : hz = 100 ∨ hz = 250 ∨ hz = 1000
  finite : ∀ m : UInt32, m.toNat < 2 ^ 31 → msecsToJiffies m = (m.toNat * hz + 999) / 1000
  infinite : ∀ m : UInt32, 2 ^ 31 ≤ m.toNat → msecsToJiffies m = maxJiffyOffset

/-- The argument of `schedule_delayed_work`. -/
def gcDelay (J : Jiffies) (gcInterval : UInt64) : ℕ :=
  J.msecsToJiffies (gcInterval * 1000).toUInt32

/-- The length of so many jiffies. -/
def Jiffies.nsecs (J : Jiffies) (n : ℕ) : ℕ := n * (10 ^ 9 / J.hz)

structure Worker where
  sys : State
  now : ℕ
  /-- `cowfs_window_seconds` -/
  windowSeconds : UInt64
  /-- `cowfs_gc_interval` -/
  gcInterval : UInt64
  /-- When the queued work is due. -/
  due : ℕ

inductive WorkerAct
  | wait (ns : ℕ)
  | call (op : Op)
  | work (fail : ℕ → Bool)
  | setWindow (seconds : UInt64)
  | setInterval (seconds : UInt64)

namespace Worker

/-- `cowfs_versions_init` at the time `now`. -/
def init (J : Jiffies) (s : State) (now : ℕ) (windowSeconds gcInterval : UInt64) : Worker :=
  ⟨s, now, windowSeconds, gcInterval, now + J.nsecs (gcDelay J gcInterval)⟩

/-- `gc_worker`, once it is due. -/
def work (J : Jiffies) (env : Env) (w : Worker) (fail : ℕ → Bool) : Worker :=
  if w.due ≤ w.now then
    { w with
      sys := Cowfs.step env w.sys (.gc (UInt64.ofNat w.now) w.windowSeconds fail)
      due := w.now + J.nsecs (gcDelay J w.gcInterval) }
  else w

def step (J : Jiffies) (env : Env) (w : Worker) : WorkerAct → Worker
  | .wait ns => { w with now := w.now + ns }
  | .call op => { w with sys := Cowfs.step env w.sys op }
  | .work fail => w.work J env fail
  | .setWindow seconds => { w with windowSeconds := seconds }
  | .setInterval seconds => { w with gcInterval := seconds }

end Worker

end Cowfs
