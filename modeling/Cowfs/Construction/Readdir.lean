import Cowfs.Construction.Types

/-!
# Directory reads (`cowfs_dir.c`)

A directory of the lower file system is a list of entries, each at an offset of its own; reading
from a position gives the entries at that offset or later, in order.  An open directory of the
mount has two positions, that of the upper file and that of the lower one.  `iterate_dir` runs on
both levels: above it starts from the upper `f_pos` and stores the position it is handed back,
below it starts from the lower `f_pos` whatever position the caller's context holds.

How much fits a caller's buffer is up to the caller's actor, which may decide by everything it
was given before.
-/

namespace Cowfs

/-- What a directory read delivers of one name. -/
structure DirEntry where
  name : CStr
  ino : UInt64
  dType : ℕ
  deriving DecidableEq, Repr

/-- The entries of a lower directory with their offsets, and the offset of its end. -/
structure DirData where
  entries : List (ℕ × DirEntry)
  sorted : entries.Pairwise fun e e' => e.1 < e'.1
  endPos : ℕ
  bounded : ∀ e ∈ entries, e.1 < endPos

/-- The entries at `pos` and later. -/
def DirData.entriesFrom (d : DirData) (pos : ℕ) : List (ℕ × DirEntry) :=
  d.entries.filter fun e => decide (pos ≤ e.1)

/-- The loop of the lower `iterate_shared`: each entry is handed to the actor, a refused one stays
for the next call.  The position is that of the refused entry or `endPos`. -/
def emitEntries {σ : Type} (actor : σ → DirEntry → Bool × σ) (endPos : ℕ) :
    List (ℕ × DirEntry) → σ → σ × ℕ
  | [], acc => (acc, endPos)
  | e :: es, acc =>
    match actor acc e.2 with
    | (false, acc) => (acc, e.1)
    | (true, acc) => emitEntries actor endPos es acc

/-- `iterate_dir` on a lower file at `fPos`: what the actor collected and the new `f_pos`. -/
def iterateDir {σ : Type} (d : DirData) (fPos : ℕ) (actor : σ → DirEntry → Bool × σ) (acc : σ) :
    σ × ℕ :=
  emitEntries actor (max fPos d.endPos) (d.entriesFrom fPos) acc

/-- What a caller was given: entries with the offset handed over with each. -/
abbrev Delivered := List (ℕ × DirEntry)

/-- The actor of a caller: whether the next entry still fits. -/
abbrev Room := Delivered → DirEntry → Bool

/-- `dir_emit` with the caller's context, whose position is `pos`. -/
def dirEmit (room : Room) (pos : ℕ) (delivered : Delivered) (e : DirEntry) : Bool × Delivered :=
  if room delivered e then (true, delivered ++ [(pos, e)]) else (false, delivered)

/-- `cowfs_filldir` -/
def cowfsFilldir (room : Room) (pos : ℕ) (delivered : Delivered) (e : DirEntry) :
    Bool × Delivered :=
  if e.name.length = shadowDir.length ∧ e.name.take e.name.length = shadowDir.take e.name.length
  then (true, delivered)
  else dirEmit room pos delivered e

/-- An open directory of the mount: the `f_pos` of the upper and of the lower file. -/
structure OpenDir where
  fPos : ℕ
  lowerPos : ℕ
  deriving DecidableEq, Repr

/-- `cowfs_iterate_shared` for a caller's context at `pos`: what is delivered, the position of the
context after, and the files. -/
def cowfsIterateShared (d : DirData) (f : OpenDir) (pos : ℕ) (room : Room) :
    Delivered × ℕ × OpenDir :=
  -- the position in the context made for the lower file is overwritten by iterate_dir
  let (delivered, lowerPos) := iterateDir d f.lowerPos (cowfsFilldir room pos) []
  (delivered, lowerPos, { fPos := lowerPos, lowerPos := lowerPos })

/-- A call on an open directory: a read, or a seek to an offset. -/
inductive DirCall
  | read (room : Room)
  | seek (offset : ℕ)

/-- A read is `iterate_dir` on the upper file, a seek `generic_file_llseek` on it. -/
def dirExec (d : DirData) (f : OpenDir) : DirCall → Delivered × OpenDir
  | .read room =>
    let (delivered, pos, f) := cowfsIterateShared d f f.fPos room
    (delivered, { f with fPos := pos })
  | .seek offset => ([], { f with fPos := offset })

/-- The open directory after a call. -/
def dirStep (d : DirData) (f : OpenDir) (call : DirCall) : OpenDir := (dirExec d f call).2

/-- The entries a call delivers. -/
def dirSeen (d : DirData) (f : OpenDir) (call : DirCall) : List DirEntry :=
  (dirExec d f call).1.map Prod.snd

/-- A directory just opened (`cowfs_dir_open`). -/
def OpenDir.opened : OpenDir := ⟨0, 0⟩

end Cowfs
