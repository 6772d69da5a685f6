import Cowfs.Construction.Types

/-!
# The version table (`cowfs_versions.c`)

A hash table of 256 buckets, each a list of `cow_inode_info` records, each of which owns the
list of versions of one inode number, newest first, and a separate counter of its length.
Every function is the sequential body of its C namesake: the spinlocks make each table
access one step, and what happens between the steps is the subject of another module.

`hash_for_each_possible` scans the one bucket a key hashes to and `hash_for_each` all buckets
in order.  Functions that release versions return them in the order in which the C code hands
them to `cowfs_version_free`.
-/

namespace Cowfs

/-- `struct cow_inode_info` -/
structure CowInodeInfo where
  lowerIno : UInt64
  versions : List CowVersion
  versionCount : ℤ
  deriving DecidableEq, Repr

/-- A bucket index: `VERSIONS_HASH_BITS` is 8. -/
abbrev Bucket := Fin 256

/-- `versions_htable` -/
abbrev VersionsHtable := Bucket → List CowInodeInfo

/-- The state `hash_init` leaves. -/
def VersionsHtable.init : VersionsHtable := fun _ => []

/-! ## `cowfs_version_alloc` -/

/-- `cowfs_version_alloc(op)` when the cache hands out the record at `node` and the clock
reads `now`. -/
def versionAlloc (op : CowOp) (now : UInt64) (node : ℕ) : CowVersion where
  timestamp := now
  opType := op
  shadowPath := []
  origName := []
  savedStat := Kstat.zero
  hasData := false
  node := node

/-! ## `cowfs_version_add` -/

/-- `hash_for_each_possible` up to the record with `lower_ino == ino`. -/
def findInfo (infos : List CowInodeInfo) (ino : UInt64) : Option CowInodeInfo :=
  infos.find? fun info => info.lowerIno == ino

/-- Store `info` back in place of the first record of its inode number (the C code holds a
pointer to that record). -/
def setInfo (info : CowInodeInfo) : List CowInodeInfo → List CowInodeInfo
  | [] => []
  | i :: is => if i.lowerIno == info.lowerIno then info :: is else i :: setInfo info is

/-- `find_or_create_inode_info`; `nomem` is the failure of the `GFP_ATOMIC` allocation. -/
def findOrCreateInodeInfo (hash : UInt64 → Bucket) (t : VersionsHtable) (ino : UInt64)
    (nomem : Bool) : Option (VersionsHtable × CowInodeInfo) :=
  match findInfo (t (hash ino)) ino with
  | some info => some (t, info)
  | none =>
    if nomem then none
    else
      let info : CowInodeInfo := ⟨ino, [], 0⟩
      some (Function.update t (hash ino) (info :: t (hash ino)), info)

/-- The eviction and insertion under `info->lock`: the record and the evicted version. -/
def linkVersion (v : CowVersion) (info : CowInodeInfo) : CowInodeInfo × Option CowVersion :=
  if info.versionCount ≥ maxVersions then
    ({ info with
        versions := v :: info.versions.dropLast
        versionCount := info.versionCount - 1 + 1 }, info.versions.getLast?)
  else
    ({ info with versions := v :: info.versions, versionCount := info.versionCount + 1 }, none)

/-- `cowfs_version_add`: `none` is `-ENOMEM`, otherwise the table and the version to free. -/
def versionAdd (hash : UInt64 → Bucket) (t : VersionsHtable) (ino : UInt64) (v : CowVersion)
    (nomem : Bool) : Option (VersionsHtable × Option CowVersion) :=
  match findOrCreateInodeInfo hash t ino nomem with
  | none => none
  | some (t, info) =>
    let (info, oldest) := linkVersion v info
    some (Function.update t (hash ino) (setInfo info (t (hash ino))), oldest)

/-! ## The searches -/

/-- The loop of `cowfs_version_list`, entered with `count` results written. -/
def collectVersions (maxCount : ℤ) : ℤ → List CowVersion → List CowVersion
  | _, [] => []
  | count, v :: vs =>
    if count ≥ maxCount then [] else v :: collectVersions maxCount (count + 1) vs

/-- `cowfs_version_list`: the entries written to `out`. -/
def versionList (hash : UInt64 → Bucket) (t : VersionsHtable) (ino : UInt64)
    (maxCount : ℤ) : List CowVersion :=
  match findInfo (t (hash ino)) ino with
  | none => []
  | some info => collectVersions maxCount 0 info.versions

/-- `cowfs_version_find` -/
def versionFind (hash : UInt64 → Bucket) (t : VersionsHtable) (ino timestamp : UInt64) :
    Option CowVersion :=
  match findInfo (t (hash ino)) ino with
  | none => none
  | some info => info.versions.find? fun v => timestamp == 0 || v.timestamp == timestamp

/-- The versions in the order in which `hash_for_each` and `list_for_each_entry` visit them. -/
def allVersions (t : VersionsHtable) : List CowVersion :=
  (List.finRange 256).flatMap fun b => (t b).flatMap CowInodeInfo.versions

/-- One iteration of `cowfs_version_find_deleted`. -/
def findDeletedStep (name : CStr) (timestamp : UInt64) (found : Option CowVersion)
    (v : CowVersion) : Option CowVersion :=
  if v.opType ≠ .unlink then found
  else if v.origName ≠ name then found
  else if timestamp ≠ 0 ∧ v.timestamp ≠ timestamp then found
  else
    match found with
    | none => some v
    | some w => if w.timestamp < v.timestamp then some v else found

/-- `cowfs_version_find_deleted` -/
def versionFindDeleted (t : VersionsHtable) (name : CStr) (timestamp : UInt64) :
    Option CowVersion :=
  (allVersions t).foldl (findDeletedStep name timestamp) none

/-! ## `cowfs_version_gc` -/

/-- The `u64` expression `now - (u64)cowfs_window_seconds * NSEC_PER_SEC`. -/
def gcCutoff (now windowSeconds : UInt64) : UInt64 := now - windowSeconds * nsecPerSec

/-- The inner loop over one list: the list left, the counter and `freed`, to whose head every
removed version is moved. -/
def gcScan (cutoff : UInt64) :
    List CowVersion → ℤ → List CowVersion → List CowVersion × ℤ × List CowVersion
  | [], count, freed => ([], count, freed)
  | v :: vs, count, freed =>
    if v.timestamp < cutoff then gcScan cutoff vs (count - 1) (v :: freed)
    else
      let (kept, count, freed) := gcScan cutoff vs count freed
      (v :: kept, count, freed)

/-- The loop over the records of one bucket. -/
def gcBucket (cutoff : UInt64) :
    List CowInodeInfo → List CowVersion → List CowInodeInfo × List CowVersion
  | [], freed => ([], freed)
  | info :: infos, freed =>
    let (kept, count, freed) := gcScan cutoff info.versions info.versionCount freed
    let (infos, freed) := gcBucket cutoff infos freed
    ({ info with versions := kept, versionCount := count } :: infos, freed)

/-- The loop over buckets. -/
def gcBuckets (cutoff : UInt64) :
    List Bucket → VersionsHtable → List CowVersion → VersionsHtable × List CowVersion
  | [], t, freed => (t, freed)
  | b :: bs, t, freed =>
    let (infos, freed) := gcBucket cutoff (t b) freed
    gcBuckets cutoff bs (Function.update t b infos) freed

/-- `cowfs_version_gc`: the table and the versions freed, in order. -/
def versionGc (t : VersionsHtable) (now windowSeconds : UInt64) :
    VersionsHtable × List CowVersion :=
  gcBuckets (gcCutoff now windowSeconds) (List.finRange 256) t []

/-! ## `cowfs_versions_gc_all` -/

/-- The inner loop over one list. -/
def drainVersions : List CowVersion → List CowVersion → List CowVersion
  | [], freed => freed
  | v :: vs, freed => drainVersions vs (v :: freed)

/-- The loop over the records of one bucket, each unhashed and freed. -/
def drainBucket : List CowInodeInfo → List CowVersion → List CowVersion
  | [], freed => freed
  | info :: infos, freed => drainBucket infos (drainVersions info.versions freed)

/-- The loop over buckets. -/
def drainBuckets :
    List Bucket → VersionsHtable → List CowVersion → VersionsHtable × List CowVersion
  | [], t, freed => (t, freed)
  | b :: bs, t, freed => drainBuckets bs (Function.update t b []) (drainBucket (t b) freed)

/-- `cowfs_versions_gc_all`: the table and the versions freed, in order. -/
def versionsGcAll (t : VersionsHtable) : VersionsHtable × List CowVersion :=
  drainBuckets (List.finRange 256) t []

end Cowfs
