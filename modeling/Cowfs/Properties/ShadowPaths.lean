import Cowfs.Construction.Operations
import Cowfs.Construction.Paths

/-!
# Shadow paths and their buffers

Between the mount option and the name of a shadow file lie three buffers: `lowerdir` and
`shadow_root` of 512 bytes and the callers' `shadow_path` of 256.  No result of `snprintf` is
looked at.  What the smallest buffer holds is `lowerdir/.cowfs_shadow/ino_timestamp` when that
fits, and a prefix of it otherwise, in which the timestamp, the number or the directory is
cut off.

A path that fits is told apart from all others, since a pair of numbers is recovered from its
decimal form, and the base name is what stands behind its last `/`.
-/

namespace Cowfs

variable {env : Env} {lowerdir : CStr} {r : Fid}

/-- `lowerdir/.cowfs_shadow/ino_timestamp` -/
def wholePath (lowerdir : CStr) (p : UInt64 × UInt64) : CStr :=
  (lowerdir ++ '/' :: shadowDir) ++ '/' :: decimalPair p.1.toNat p.2.toNat

/-- What `cowfs_shadow_make_path` leaves in the callers' buffer after a mount of `lowerdir`. -/
def bufferPath (r : Fid) (lowerdir : CStr) (p : UInt64 × UInt64) : CStr :=
  shadowMakePath (fillSbInfo r lowerdir) p.1 p.2 pathBufSize

/-- The path is whole, in the buffer and in the version, and the copy opens it in the shadow
directory under the name the removal extracts. -/
structure PathWhole (env : Env) (r : Fid) (lowerdir : CStr) (p : UInt64 × UInt64) : Prop where
  buffer : bufferPath r lowerdir p = wholePath lowerdir p
  stored : strscpy pathBufSize (bufferPath r lowerdir p) = wholePath lowerdir p
  base : locate env (bufferPath r lowerdir p) = some (r, shadowBase (bufferPath r lowerdir p))

lemma shadowDir_noSlash : '/' ∉ shadowDir := by decide

lemma length_snprintf_lt {n : ℕ} (hn : 0 < n) (s : CStr) : (snprintf n s).length < n := by
  rw [snprintf, List.length_take]
  omega

lemma pathBufSize_pos : 0 < pathBufSize := by decide

lemma length_bufferPath (r : Fid) (lowerdir : CStr) (p : UInt64 × UInt64) :
    (bufferPath r lowerdir p).length < pathBufSize :=
  length_snprintf_lt pathBufSize_pos _

/-- A path that fits the smallest buffer is cut nowhere. -/
lemma bufferPath_of_lt {p : UInt64 × UInt64} (h : (wholePath lowerdir p).length < pathBufSize)
    (r : Fid) : bufferPath r lowerdir p = wholePath lowerdir p := by
  have hsize : pathBufSize < 512 := by decide
  have hroot : (lowerdir ++ '/' :: shadowDir).length < 512 := by
    rw [wholePath, List.length_append] at h
    omega
  have hfill : (fillSbInfo r lowerdir).shadowRoot = lowerdir ++ '/' :: shadowDir :=
    snprintf_of_lt hroot
  rw [bufferPath, shadowMakePath, hfill]
  exact snprintf_of_lt h

lemma locate_wholePath (hroot : env.lowerRoot lowerdir = some r) (p : UInt64 × UInt64) :
    locate env (wholePath lowerdir p) = some (r, shadowBase (wholePath lowerdir p)) := by
  have hbase : strrchr '/' (wholePath lowerdir p) =
      some (lowerdir ++ '/' :: shadowDir, decimalPair p.1.toNat p.2.toNat) :=
    strrchr_append (slash_notMem_decimalPair _ _)
  have hdir : strrchr '/' (lowerdir ++ '/' :: shadowDir) = some (lowerdir, shadowDir) :=
    strrchr_append shadowDir_noSlash
  have hne : decimalPair p.1.toNat p.2.toNat ≠ [] := by
    unfold decimalPair
    simp
  unfold locate shadowBase shadowHome
  simp only [hbase, if_neg hne, hdir, if_true, hroot, Option.map_some]

lemma wholePath_injective {p q : UInt64 × UInt64}
    (h : wholePath lowerdir p = wholePath lowerdir q) : p = q := by
  have htail := List.append_cancel_left h
  obtain ⟨hino, hts⟩ := decimalPair_injective (List.cons.inj htail).2
  exact Prod.ext (UInt64.toNat_inj.1 hino) (UInt64.toNat_inj.1 hts)

/-- The path of one pair is whole exactly when it fits the smallest buffer. -/
lemma pathWhole_iff (hroot : env.lowerRoot lowerdir = some r) (p : UInt64 × UInt64) :
    PathWhole env r lowerdir p ↔ (wholePath lowerdir p).length < pathBufSize := by
  constructor
  · intro h
    rw [← h.buffer]
    exact length_bufferPath r lowerdir p
  · intro h
    have hbuffer := bufferPath_of_lt h r
    refine ⟨hbuffer, ?_, ?_⟩
    · rw [hbuffer]
      exact strscpy_of_lt h
    · rw [hbuffer]
      exact locate_wholePath hroot p

/-- **When shadow paths are complete and unique.**  For every lower directory that a mount
accepts and any two pairs of numbers: both paths are whole, and different pairs have different
paths, if and only if both fit the 256 bytes of the callers' buffer. -/
theorem shadow_paths_iff (env : Env) (lowerdir : CStr) (r : Fid)
    (hroot : env.lowerRoot lowerdir = some r) (p q : UInt64 × UInt64) :
    (PathWhole env r lowerdir p ∧ PathWhole env r lowerdir q ∧
        (p ≠ q → bufferPath r lowerdir p ≠ bufferPath r lowerdir q)) ↔
      (wholePath lowerdir p).length < pathBufSize ∧
        (wholePath lowerdir q).length < pathBufSize := by
  rw [pathWhole_iff hroot, pathWhole_iff hroot]
  constructor
  · rintro ⟨hp, hq, -⟩
    exact ⟨hp, hq⟩
  · rintro ⟨hp, hq⟩
    refine ⟨hp, hq, fun hne h => hne ?_⟩
    rw [bufferPath_of_lt hp, bufferPath_of_lt hq] at h
    exact wholePath_injective h

/-! ## The length that is left -/

lemma length_wholePath (lowerdir : CStr) (p : UInt64 × UInt64) :
    (wholePath lowerdir p).length =
      lowerdir.length + 15 + (decimalPair p.1.toNat p.2.toNat).length := by
  have hdir : shadowDir.length = 13 := rfl
  simp only [wholePath, List.length_append, List.length_cons]
  omega

/-- The paths of all pairs are whole exactly for lower directories of at most 199
characters. -/
theorem all_whole_iff (hroot : env.lowerRoot lowerdir = some r) :
    (∀ p, PathWhole env r lowerdir p) ↔ lowerdir.length ≤ 199 := by
  have hsize : pathBufSize = 256 := rfl
  constructor
  · intro h
    have hfits := (pathWhole_iff hroot _).1 (h (18446744073709551615, 18446744073709551615))
    have hlongest : (decimalPair (18446744073709551615 : UInt64).toNat
        (18446744073709551615 : UInt64).toNat).length = 41 := by decide +kernel
    rw [length_wholePath, hlongest] at hfits
    omega
  · intro h p
    have hpair := length_decimalPair_le p.1.toNat_lt p.2.toNat_lt
    rw [pathWhole_iff hroot, length_wholePath]
    omega

/-! ## A lower directory that is too long -/

/-- A path of 230 characters. -/
def deepDir : CStr := '/' :: List.replicate 229 'd'

/-- It leads to the directory 1. -/
def deepEnv : Env := treeEnv smallEnv.hash [⟨deepDir, 0, List.replicate 229 'd', 1⟩] [['m']]

/-- Two writes of one file, a nanosecond apart. -/
def deepPairs : (UInt64 × UInt64) × (UInt64 × UInt64) :=
  ((10, 1700000000000000001), (10, 1700000000000000002))

/-- The end of the timestamp is cut off, and both paths are the same. -/
theorem shadow_paths_collide :
    deepEnv.lowerRoot deepDir = some 1 ∧ deepPairs.1 ≠ deepPairs.2 ∧
      bufferPath 1 deepDir deepPairs.1 = bufferPath 1 deepDir deepPairs.2 ∧
      bufferPath 1 deepDir deepPairs.1 ≠ wholePath deepDir deepPairs.1 := by
  refine ⟨by decide +kernel, by decide, by decide +kernel, by decide +kernel⟩

/-- Under `/l` both paths are whole. -/
theorem shadow_paths_small :
    PathWhole smallEnv 1 ['/', 'l'] deepPairs.1 ∧ PathWhole smallEnv 1 ['/', 'l'] deepPairs.2 ∧
      (deepPairs.1 ≠ deepPairs.2 →
        bufferPath 1 ['/', 'l'] deepPairs.1 ≠ bufferPath 1 ['/', 'l'] deepPairs.2) :=
  (shadow_paths_iff smallEnv ['/', 'l'] 1 (by decide +kernel) deepPairs.1 deepPairs.2).2
    ⟨by decide +kernel, by decide +kernel⟩

end Cowfs
