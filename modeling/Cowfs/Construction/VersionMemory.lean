import Cowfs.Construction.Versions
import Cowfs.Framework.Rings

/-!
# The version table in memory (`cowfs_versions.c`)

The functions of the version table as they walk and change the pointers of `struct list_head` and
`struct hlist_node`.  A version is known by the address of its record, a `cow_inode_info` by a
number; both are read where the C code reads them.  A pointer that must not be followed and a
record that is not there make a function stop with `none`, and so does a walk with too little
fuel.

The list `freed` of a collector is filled and emptied within one call.
-/

namespace Cowfs

/-- A `struct list_head`. -/
inductive ListHead
  /-- `info->versions` -/
  | versions (info : ℕ)
  /-- `v->node` -/
  | node (v : ℕ)
  /-- `LIST_HEAD(freed)` -/
  | freed
  deriving DecidableEq

/-- `list_entry(head, struct cow_version, node)` -/
def ListHead.entry : ListHead → Option ℕ
  | .node v => some v
  | _ => none

/-- The numbers in a `struct cow_inode_info`. -/
structure InfoCell where
  lowerIno : UInt64
  versionCount : ℤ
  deriving DecidableEq

structure VersionMemory where
  lists : Links ListHead
  /-- `versions_htable` -/
  chains : Chains Bucket ℕ
  infos : ℕ → Option InfoCell
  versions : ℕ → Option CowVersion
  /-- Where the next `cow_inode_info` goes. -/
  nextInfo : ℕ

namespace VersionMemory

/-- The memory after `hash_init`. -/
def init : VersionMemory where
  lists := ⟨fun _ => none, fun _ => none⟩
  chains := ⟨fun _ => none, fun _ => none, fun _ => none⟩
  infos _ := none
  versions _ := none
  nextInfo := 0

def setInfo (m : VersionMemory) (i : ℕ) (info : Option InfoCell) : VersionMemory :=
  { m with infos := Function.update m.infos i info }

def setVersion (m : VersionMemory) (n : ℕ) (v : Option CowVersion) : VersionMemory :=
  { m with versions := Function.update m.versions n v }

/-- `list_del(&v->node)` -/
def listDel (m : VersionMemory) (x : ListHead) : Option VersionMemory :=
  (m.lists.del x).map fun lists => { m with lists := lists }

/-- `list_add(x, head)` -/
def listAdd (m : VersionMemory) (x head : ListHead) : Option VersionMemory :=
  (m.lists.add x head).map fun lists => { m with lists := lists }

/-- `INIT_LIST_HEAD` -/
def initListHead (m : VersionMemory) (x : ListHead) : VersionMemory :=
  { m with lists := m.lists.initHead x }

/-- `info->version_count += d` -/
def addCount (m : VersionMemory) (i : ℕ) (d : ℤ) : Option VersionMemory :=
  (m.infos i).map fun info => m.setInfo i (some { info with versionCount := info.versionCount + d })

/-- `cowfs_version_free`, as far as memory goes: the record is read and given back. -/
def versionFree (m : VersionMemory) (v : ℕ) : Option VersionMemory :=
  (m.versions v).map fun _ => m.setVersion v none

section

variable (hash : UInt64 → Bucket) (fuel : ℕ)

/-- `hash_for_each_possible` up to the record with `lower_ino == ino`. -/
def findInfo (m : VersionMemory) (ino : UInt64) : Option (Option ℕ) :=
  m.chains.find (fun i => (m.infos i).map fun info => info.lowerIno == ino) fuel
    (m.chains.first (hash ino))

/-! ## `cowfs_version_add` -/

/-- `find_or_create_inode_info`; `nomem` is the failure of the `GFP_ATOMIC` allocation. -/
def findOrCreateInodeInfo (m : VersionMemory) (ino : UInt64) (nomem : Bool) :
    Option (VersionMemory × Option ℕ) :=
  (m.findInfo hash fuel ino).map fun found =>
    match found with
    | some i => (m, some i)
    | none =>
      if nomem then (m, none)
      else
        let m' := (m.setInfo m.nextInfo (some ⟨ino, 0⟩)).initListHead (.versions m.nextInfo)
        ({ m' with
          chains := m.chains.addHead m.nextInfo (hash ino)
          nextInfo := m.nextInfo + 1 }, some m.nextInfo)

/-- The oldest version is unlinked when the list is full. -/
def evict (m : VersionMemory) (i : ℕ) : Option (VersionMemory × Option ℕ) := do
  let info ← m.infos i
  if info.versionCount ≥ maxVersions then
    let oldest ← m.lists.prev (.versions i) >>= ListHead.entry
    let m ← m.listDel (.node oldest)
    let m ← m.addCount i (-1)
    some (m, some oldest)
  else some (m, none)

/-- The eviction and insertion under `info->lock`, and the release of the evicted version, which
follows the unlocking; the versions handed to `cowfs_version_free`. -/
def linkVersion (m : VersionMemory) (i v : ℕ) : Option (List ℕ × VersionMemory) := do
  let (m, oldest) ← m.evict i
  let m ← m.listAdd (.node v) (.versions i)
  let m ← m.addCount i 1
  match oldest with
  | none => some ([], m)
  | some o => (m.versionFree o).map fun m => ([o], m)

/-- `cowfs_version_add` of a version that was allocated and filled in just before. -/
def versionAdd (m : VersionMemory) (ino : UInt64) (v : CowVersion) (nomem : Bool) :
    Option (List ℕ × VersionMemory) := do
  let m := (m.setVersion v.node (some v)).initListHead (.node v.node)
  let (m, found) ← m.findOrCreateInodeInfo hash fuel ino nomem
  match found with
  | none => some ([], m)
  | some i => m.linkVersion i v.node

/-! ## The searches -/

/-- One iteration of `cowfs_version_list`, with `count` and `out` as they stand. -/
def listVersion (maxCount : ℤ) (pos : ListHead) (acc : ℤ × List ℕ) :
    Option ((ℤ × List ℕ) × Bool) :=
  pos.entry.map fun v =>
    if acc.1 ≥ maxCount then (acc, false) else ((acc.1 + 1, acc.2 ++ [v]), true)

/-- `cowfs_version_list`: the pointers written to `out`. -/
def versionList (m : VersionMemory) (ino : UInt64) (maxCount : ℤ) : Option (List ℕ) := do
  match ← m.findInfo hash fuel ino with
  | none => some []
  | some i =>
    (m.lists.forEach (.versions i) (listVersion maxCount) fuel (0, [])).map Prod.snd

/-- One iteration of `cowfs_version_find`. -/
def findVersion (m : VersionMemory) (timestamp : UInt64) (pos : ListHead) (found : Option ℕ) :
    Option (Option ℕ × Bool) := do
  let n ← pos.entry
  let v ← m.versions n
  some (if timestamp == 0 || v.timestamp == timestamp then (some n, false) else (found, true))

/-- `cowfs_version_find` -/
def versionFind (m : VersionMemory) (ino timestamp : UInt64) : Option (Option ℕ) := do
  match ← m.findInfo hash fuel ino with
  | none => some none
  | some i => m.lists.forEach (.versions i) (m.findVersion timestamp) fuel none

/-- `hash_for_each` -/
def hashForEach {σ : Type} (mem : σ → VersionMemory) (body : ℕ → σ → Option σ) (s : σ) :
    Option σ :=
  (List.finRange 256).foldlM (fun s b =>
    Chains.walk (fun s => (mem s).chains) body fuel ((mem s).chains.first b) s) s

/-- `hash_for_each_safe` -/
def hashForEachSafe {σ : Type} (mem : σ → VersionMemory) (body : ℕ → σ → Option σ) (s : σ) :
    Option σ :=
  (List.finRange 256).foldlM (fun s b =>
    Chains.walkSafe (fun s => (mem s).chains) body fuel ((mem s).chains.first b) s) s

/-- One iteration of `cowfs_version_find_deleted`. -/
def findDeletedStep (m : VersionMemory) (name : CStr) (timestamp : UInt64) (pos : ListHead)
    (found : Option ℕ) : Option (Option ℕ) := do
  let n ← pos.entry
  let v ← m.versions n
  if v.opType ≠ .unlink then some found
  else if v.origName ≠ name then some found
  else if timestamp ≠ 0 ∧ v.timestamp ≠ timestamp then some found
  else
    match found with
    | none => some (some n)
    | some w => (m.versions w).map fun w => if w.timestamp < v.timestamp then some n else found

/-- `cowfs_version_find_deleted` -/
def versionFindDeleted (m : VersionMemory) (name : CStr) (timestamp : UInt64) :
    Option (Option ℕ) :=
  hashForEach fuel (fun _ => m) (fun i found =>
    m.lists.forEach (.versions i)
      (fun pos found => (m.findDeletedStep name timestamp pos found).map fun r => (r, true))
      fuel found) none

/-! ## The collectors -/

/-- One iteration of the inner loop of `cowfs_version_gc`. -/
def gcVersion (cutoff : UInt64) (i : ℕ) (pos : ListHead) (m : VersionMemory) :
    Option VersionMemory := do
  let v ← pos.entry >>= m.versions
  if v.timestamp < cutoff then
    let m ← m.listDel pos
    let m ← m.addCount i (-1)
    m.listAdd pos .freed
  else some m

/-- One iteration of the loop over `freed`, behind the versions released before. -/
def releaseVersion (pos : ListHead) (acc : List ℕ × VersionMemory) :
    Option (List ℕ × VersionMemory) := do
  let m ← acc.2.listDel pos
  let v ← pos.entry
  let m ← m.versionFree v
  some (acc.1 ++ [v], m)

/-- The release of the collected versions, in order. -/
def releaseFreed (m : VersionMemory) : Option (List ℕ × VersionMemory) :=
  Links.forEachSafe (fun acc : List ℕ × VersionMemory => acc.2.lists) .freed releaseVersion fuel
    ([], m)

/-- `cowfs_version_gc`: the versions released. -/
def versionGc (m : VersionMemory) (now windowSeconds : UInt64) :
    Option (List ℕ × VersionMemory) :=
  (hashForEach fuel id (fun i =>
    Links.forEachSafe lists (.versions i) (gcVersion (gcCutoff now windowSeconds) i) fuel)
    (m.initListHead .freed)).bind fun m => m.releaseFreed fuel

/-- One iteration of the inner loop of `cowfs_versions_gc_all`. -/
def drainVersion (pos : ListHead) (m : VersionMemory) : Option VersionMemory :=
  (m.listDel pos).bind fun m => m.listAdd pos .freed

/-- `hash_del` and the release of the record. -/
def freeInfo (i : ℕ) (m : VersionMemory) : Option VersionMemory := do
  let chains ← m.chains.del i
  let _ ← m.infos i
  some ({ m with chains := chains }.setInfo i none)

/-- `cowfs_versions_gc_all`: the versions released. -/
def versionsGcAll (m : VersionMemory) : Option (List ℕ × VersionMemory) :=
  (hashForEachSafe fuel id (fun i m =>
    (Links.forEachSafe lists (.versions i) drainVersion fuel m).bind (freeInfo i))
    (m.initListHead .freed)).bind fun m => m.releaseFreed fuel

end

end VersionMemory

end Cowfs
