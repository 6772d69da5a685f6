import Cowfs.Construction.Ctl
import Cowfs.Framework.Run

/-!
# Concurrent use of the version table

What any number of threads do to the version table between the sections that `versions_lock` makes
atomic.  A snapshot allocates its record with the time stamp, copies the file, and inserts the
record later; an insertion that pushes a version out of a full list and a collector pass unlink
their versions under the lock and hand them to `cowfs_version_free` one by one afterwards; a
listing or a rollback searches under the lock and reads the fields of the records found when it
has let go of it.

A record is known by its `node`.  The clock never shows one time twice.
-/

namespace Cowfs

/-- The fields of `struct cow_version` a listing or a rollback reads. -/
inductive Field
  | timestamp | opType | shadowPath | origName | savedStat | hasData
  deriving DecidableEq, Repr

/-! ## What a reader reads -/

/-- The reads of `COWFS_IOC_LIST` for one version. -/
def listReads (v : CowVersion) : List (ℕ × Field) :=
  [(v.node, .timestamp), (v.node, .opType), (v.node, .shadowPath)]

/-- The reads of a restored content: `has_data`, and the path when there is one. -/
def dataReads (v : CowVersion) : List (ℕ × Field) :=
  (v.node, .hasData) :: if v.hasData then [(v.node, .shadowPath)] else []

/-- The reads of the branches on the type of the version. -/
def branchReads (v : CowVersion) : List (ℕ × Field) :=
  if v.opType = .unlink then (v.node, .origName) :: (v.node, .savedStat) :: dataReads v
  else if v.hasData then dataReads v
  else
    (v.node, .hasData) :: (v.node, .opType) ::
      if v.opType = .rename then [(v.node, .origName)] else []

/-- The reads of `COWFS_IOC_ROLLBACK` on a version that was found. -/
def rollbackReads (v : CowVersion) : List (ℕ × Field) :=
  (v.node, .opType) :: branchReads v ++
    (v.node, .opType) :: if v.opType = .setattr then [(v.node, .savedStat)] else []

/-- The reads of `rollback_deleted`. -/
def deletedReads (v : CowVersion) : List (ℕ × Field) := (v.node, .savedStat) :: dataReads v

/-! ## The threads -/

/-- A snapshot between its allocation and its insertion; `filled` when the file is copied and the
fields are set. -/
structure PendingSnapshot where
  ino : UInt64
  version : CowVersion
  filled : Bool
  deriving DecidableEq, Repr

structure TableThreads where
  table : VersionsHtable
  /-- The last time the clock showed. -/
  clock : UInt64
  nextNode : ℕ
  taking : ℕ → Option PendingSnapshot
  /-- The versions a thread has unlinked and not yet released. -/
  freeing : ℕ → List CowVersion
  /-- The reads a thread has before it, by record and field. -/
  reading : ℕ → List (ℕ × Field)
  /-- The records `cowfs_version_free` has released. -/
  released : List ℕ

/-- One step of thread `t`. -/
inductive TableAct
  | alloc (t : ℕ) (op : CowOp) (ino now : UInt64)
  | fill (t : ℕ) (sized copied : Bool) (path name : CStr) (stat : Kstat)
  | insert (t : ℕ) (nomem : Bool)
  | gc (t : ℕ) (now windowSeconds : UInt64)
  | free (t : ℕ)
  | list (t : ℕ) (ino : UInt64) (maxCount : UInt32)
  | find (t : ℕ) (ino timestamp : UInt64)
  | findDeleted (t : ℕ) (name : CStr) (timestamp : UInt64)
  | read (t : ℕ)
  | quit (t : ℕ)
  deriving DecidableEq, Repr

/-- The fields the four operations set before they insert, `none` when the version is given up;
`sized` is a change of size, `copied` the success of the copy. -/
def fillVersion (v : CowVersion) (sized copied : Bool) (path name : CStr) (stat : Kstat) :
    Option CowVersion :=
  match v.opType with
  | .write => if copied then some { v with shadowPath := path, hasData := true, savedStat := stat }
      else none
  | .unlink =>
    if copied then
      some { v with shadowPath := path, origName := name, hasData := true, savedStat := stat }
    else none
  | .rename => some { v with origName := name, savedStat := stat, hasData := false }
  | .setattr =>
    if sized && copied then
      some { v with savedStat := stat, shadowPath := path, hasData := true }
    else some { v with savedStat := stat, hasData := false }

namespace TableThreads

/-- The module is loaded. -/
def init : TableThreads where
  table := VersionsHtable.init
  clock := 0
  nextNode := 0
  taking _ := none
  freeing _ := []
  reading _ := []
  released := []

/-- A thread that can start a call. -/
def idle (s : TableThreads) (t : ℕ) : Bool :=
  (s.taking t).isNone && (s.freeing t).isEmpty && (s.reading t).isEmpty

/-- `cowfs_version_alloc` -/
def alloc (s : TableThreads) (t : ℕ) (op : CowOp) (ino now : UInt64) : TableThreads :=
  if s.idle t && s.clock < now then
    { s with
      clock := now
      nextNode := s.nextNode + 1
      taking := Function.update s.taking t (some ⟨ino, versionAlloc op now s.nextNode, false⟩) }
  else s

def fill (s : TableThreads) (t : ℕ) (sized copied : Bool) (path name : CStr) (stat : Kstat) :
    TableThreads :=
  match s.taking t with
  | none => s
  | some sn =>
    if sn.filled then s
    else
      match fillVersion sn.version sized copied path name stat with
      | some v => { s with taking := Function.update s.taking t (some ⟨sn.ino, v, true⟩) }
      | none =>
        { s with
          taking := Function.update s.taking t none
          freeing := Function.update s.freeing t [sn.version] }

/-- `cowfs_version_add` up to the release of the evicted version. -/
def insert (hash : UInt64 → Bucket) (s : TableThreads) (t : ℕ) (nomem : Bool) : TableThreads :=
  match s.taking t with
  | none => s
  | some sn =>
    if !sn.filled then s
    else
      match versionAdd hash s.table sn.ino sn.version nomem with
      | none => { s with taking := Function.update s.taking t none }
      | some (table, oldest) =>
        { s with
          table := table
          taking := Function.update s.taking t none
          freeing := Function.update s.freeing t oldest.toList }

/-- `cowfs_version_gc` up to the release of what it collected. -/
def gc (s : TableThreads) (t : ℕ) (now windowSeconds : UInt64) : TableThreads :=
  if s.idle t then
    { s with
      table := (versionGc s.table now windowSeconds).1
      freeing := Function.update s.freeing t (versionGc s.table now windowSeconds).2 }
  else s

/-- `cowfs_version_free` of the next version. -/
def free (s : TableThreads) (t : ℕ) : TableThreads :=
  match s.freeing t with
  | [] => s
  | v :: vs =>
    { s with
      freeing := Function.update s.freeing t vs
      released := v.node :: s.released }

/-- `cowfs_versions_destroy`, when no thread is left: the whole table is unlinked and released. -/
def destroy (s : TableThreads) : TableThreads :=
  { s with
    table := (versionsGcAll s.table).1
    released := ((versionsGcAll s.table).2.map CowVersion.node).reverse ++ s.released }

/-- A search has found records and the lock is released. -/
def search (s : TableThreads) (t : ℕ) (reads : List (ℕ × Field)) : TableThreads :=
  if s.idle t then { s with reading := Function.update s.reading t reads } else s

def step (hash : UInt64 → Bucket) (s : TableThreads) : TableAct → TableThreads
  | .alloc t op ino now => s.alloc t op ino now
  | .fill t sized copied path name stat => s.fill t sized copied path name stat
  | .insert t nomem => s.insert hash t nomem
  | .gc t now windowSeconds => s.gc t now windowSeconds
  | .free t => s.free t
  | .list t ino maxCount =>
    s.search t ((versionList hash s.table ino (listCount maxCount)).flatMap listReads)
  | .find t ino timestamp =>
    s.search t ((versionFind hash s.table ino timestamp).toList.flatMap rollbackReads)
  | .findDeleted t name timestamp =>
    s.search t ((versionFindDeleted s.table name timestamp).toList.flatMap deletedReads)
  | .read t => { s with reading := Function.update s.reading t (s.reading t).tail }
  | .quit t => { s with reading := Function.update s.reading t [] }

end TableThreads

end Cowfs
