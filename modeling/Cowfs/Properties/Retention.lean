import Cowfs.Properties.VersionTable

/-!
# The retention window

`cowfs_version_gc` compares timestamps with `now - window_seconds * NSEC_PER_SEC`, computed in
64 bits.  Neither the product nor the difference is checked, and the parameter may be anything:
a window that reaches back beyond the epoch makes the cutoff wrap, and what it wraps to decides
which versions go, although none of them is older than the window.

`gcExact_iff` compares a pass with the one exact arithmetic asks for.  They agree when the
window does not reach back beyond the epoch, and otherwise only where the wrapped cutoff happens
to spare every version of the table.
-/

namespace Cowfs

variable {t : VersionsHtable} {now windowSeconds : UInt64}

/-- The age of `v` exceeds the window, in exact arithmetic. -/
def overdue (now windowSeconds : UInt64) (v : CowVersion) : Bool :=
  (windowSeconds.toNat * 10 ^ 9 : ℤ) < now.toNat - v.timestamp.toNat

/-- A pass removes the overdue versions and no others, keeps the rest of every list in its
order, and hands every removed version to `cowfs_version_free` once. -/
structure GcExact (t : VersionsHtable) (now windowSeconds : UInt64) : Prop where
  kept : ∀ b, ((versionGc t now windowSeconds).1 b).map
      (fun info => (info.lowerIno, info.versions)) =
    (t b).map fun info =>
      (info.lowerIno, info.versions.filter fun v => !overdue now windowSeconds v)
  freed : (versionGc t now windowSeconds).2.Perm
    ((allVersions t).filter (overdue now windowSeconds))

/-! ## The cutoff -/

lemma toNat_nsecPerSec : nsecPerSec.toNat = 10 ^ 9 := rfl

/-- The cutoff is the exact difference modulo `2 ^ 64`. -/
lemma toNat_gcCutoff (now windowSeconds : UInt64) :
    ((gcCutoff now windowSeconds).toNat : ℤ) =
      ((now.toNat : ℤ) - windowSeconds.toNat * 10 ^ 9) % 2 ^ 64 := by
  have hnow := now.toNat_lt
  rw [gcCutoff, UInt64.toNat_sub, UInt64.toNat_mul, toNat_nsecPerSec]
  generalize hp : windowSeconds.toNat * 10 ^ 9 = p
  have hcast : (windowSeconds.toNat : ℤ) * 10 ^ 9 = p := by exact_mod_cast hp
  rw [hcast]
  omega

/-- As long as the window does not reach back beyond the epoch, expired is overdue. -/
lemma expired_eq_overdue (hfits : windowSeconds.toNat * 10 ^ 9 ≤ now.toNat) (v : CowVersion) :
    expired (gcCutoff now windowSeconds) v = overdue now windowSeconds v := by
  have hcutoff := toNat_gcCutoff now windowSeconds
  have hnow := now.toNat_lt
  generalize hp : windowSeconds.toNat * 10 ^ 9 = p at hfits
  have hcast : (windowSeconds.toNat : ℤ) * 10 ^ 9 = p := by exact_mod_cast hp
  unfold expired overdue
  rw [decide_eq_decide, UInt64.lt_iff_toNat_lt, hcast]
  rw [hcast] at hcutoff
  omega

/-- A window that reaches back beyond the epoch makes nothing overdue. -/
lemma not_overdue (hwrap : ¬ windowSeconds.toNat * 10 ^ 9 ≤ now.toNat) (v : CowVersion) :
    overdue now windowSeconds v = false := by
  generalize hp : windowSeconds.toNat * 10 ^ 9 = p at hwrap
  have hcast : (windowSeconds.toNat : ℤ) * 10 ^ 9 = p := by exact_mod_cast hp
  unfold overdue
  rw [decide_eq_false_iff_not, hcast]
  omega

lemma expired_iff (v : CowVersion) :
    expired (gcCutoff now windowSeconds) v = true ↔
      (v.timestamp.toNat : ℤ) < ((now.toNat : ℤ) - windowSeconds.toNat * 10 ^ 9) % 2 ^ 64 := by
  rw [← toNat_gcCutoff, expired, decide_eq_true_iff, UInt64.lt_iff_toNat_lt, Nat.cast_lt]

/-! ## One pass -/

/-- A pass is exact when the two tests agree on every version of the table. -/
lemma gcExact_of_agree
    (h : ∀ v ∈ allVersions t, expired (gcCutoff now windowSeconds) v =
      overdue now windowSeconds v) : GcExact t now windowSeconds := by
  have hmem : ∀ b, ∀ info ∈ t b, ∀ v ∈ info.versions, v ∈ allVersions t := by
    intro b info hinfo v hv
    exact List.mem_flatMap.2
      ⟨b, List.mem_finRange b, List.mem_flatMap.2 ⟨info, hinfo, hv⟩⟩
  constructor
  · intro b
    rw [versionGc_eq, List.map_map]
    refine List.map_congr_left fun info hinfo => ?_
    have hfilter : info.versions.filter (fun v => !expired (gcCutoff now windowSeconds) v) =
        info.versions.filter fun v => !overdue now windowSeconds v := by
      refine List.filter_congr fun v hv => ?_
      rw [h v (hmem b info hinfo v hv)]
    rw [← hfilter]
    rfl
  · rw [versionGc_eq, ← List.filter_congr h]
    exact List.reverse_perm _

/-- A pass that frees nothing overdue frees nothing at all. -/
lemma not_expired_of_gcExact (hnone : ∀ v, overdue now windowSeconds v = false)
    (h : GcExact t now windowSeconds) {v : CowVersion} (hv : v ∈ allVersions t) :
    ¬ expired (gcCutoff now windowSeconds) v = true := by
  intro hexpired
  have hfreed : v ∈ (versionGc t now windowSeconds).2 := by
    rw [versionGc_eq, List.mem_reverse, List.mem_filter]
    exact ⟨hv, hexpired⟩
  have hoverdue := (List.mem_filter.1 (h.freed.mem_iff.1 hfreed)).2
  rw [hnone v] at hoverdue
  cases hoverdue

/-- **When a pass removes exactly the expired versions.**  For every table, clock reading and
window: the window does not reach back beyond the epoch, or no version of the table lies before
the wrapped cutoff. -/
theorem gcExact_iff (t : VersionsHtable) (now windowSeconds : UInt64) :
    GcExact t now windowSeconds ↔
      windowSeconds.toNat * 10 ^ 9 ≤ now.toNat ∨
        ∀ v ∈ allVersions t,
          ((now.toNat : ℤ) - windowSeconds.toNat * 10 ^ 9) % 2 ^ 64 ≤ v.timestamp.toNat := by
  by_cases hfits : windowSeconds.toNat * 10 ^ 9 ≤ now.toNat
  · exact iff_of_true (gcExact_of_agree fun v _ => expired_eq_overdue hfits v) (.inl hfits)
  have hnone := not_overdue hfits
  rw [or_iff_right hfits]
  constructor
  · intro h v hv
    exact not_lt.1 (mt (expired_iff v).2 (not_expired_of_gcExact hnone h hv))
  · intro h
    refine gcExact_of_agree fun v hv => ?_
    rw [hnone v, Bool.eq_false_iff]
    exact fun hexpired => not_lt.2 (h v hv) ((expired_iff v).1 hexpired)

/-! ## A very long window -/

/-- A version one second old. -/
def recentVersion : CowVersion := versionAlloc .write 1700000000000000000 0

/-- The table that holds it. -/
def recentTable : VersionsHtable := fun b => if b.val = 0 then [⟨10, [recentVersion], 1⟩] else []

/-- With the window `ULONG_MAX` a pass one second later frees the version. -/
theorem gc_frees_recent :
    recentVersion ∈ allVersions recentTable ∧
      (∀ v ∈ allVersions recentTable, v.timestamp ≤ 1700000001000000000) ∧
      (versionGc recentTable 1700000001000000000 18446744073709551615).2 = [recentVersion] ∧
      ¬ GcExact recentTable 1700000001000000000 18446744073709551615 := by
  have hfreed : (versionGc recentTable 1700000001000000000 18446744073709551615).2 =
      [recentVersion] := by
    rw [versionGc_eq]
    decide +kernel
  have hall : allVersions recentTable = [recentVersion] := by decide +kernel
  refine ⟨by rw [hall]; exact List.mem_singleton_self _, ?_, hfreed, fun h => ?_⟩
  · rw [hall]
    decide
  · have hmem := h.freed.mem_iff.1 (by rw [hfreed]; exact List.mem_singleton_self recentVersion)
    have hoverdue := (List.mem_filter.1 hmem).2
    have hnot : overdue 1700000001000000000 18446744073709551615 recentVersion = false := by
      decide +kernel
    rw [hnot] at hoverdue
    cases hoverdue

end Cowfs
