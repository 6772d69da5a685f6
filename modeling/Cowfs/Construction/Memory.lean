import Cowfs.Construction.Operations
import Cowfs.Construction.References

/-!
# Mount options and blocks of memory (`cowfs_super.c`)

`parse_options` splits the data of a mount at its commas and duplicates the value of every
`lowerdir` option it meets; the last one is the lower directory.  The other blocks the module takes
with `kzalloc` and `kmalloc` belong to a superblock, to the dentries, to the open files, or to a
call that is in progress.

Blocks are numbered in the order they are handed out.  What is not freed is not followed any
further: a pointer that is overwritten or goes out of scope leaves its block behind.
-/

namespace Cowfs

/-- The blocks handed out are those below `next`. -/
structure Heap where
  next : ℕ
  freed : List ℕ

namespace Heap

/-- `kzalloc`, `kmalloc` and `match_strdup`; `NULL` is `none`. -/
def alloc (h : Heap) (fails : Bool) : Option ℕ × Heap :=
  if fails then (none, h) else (some h.next, { h with next := h.next + 1 })

/-- `kfree` -/
def free (h : Heap) (block : ℕ) : Heap := { h with freed := block :: h.freed }

/-- A block that is taken and given back within a call. -/
def borrow (h : Heap) (fails : Bool) : Heap :=
  match h.alloc fails with
  | (none, h) => h
  | (some block, h) => h.free block

end Heap

/-! ## Options -/

/-- `"lowerdir="` -/
def lowerdirEq : CStr := ['l', 'o', 'w', 'e', 'r', 'd', 'i', 'r', '=']

/-- `match_token(p, cowfs_tokens, args)`: the text behind `lowerdir=`, which `%s` takes unless it
is empty; `none` is `OPT_ERR`. -/
def matchToken (p : CStr) : Option CStr :=
  if lowerdirEq.isPrefixOf p && !(p.drop lowerdirEq.length).isEmpty then
    some (p.drop lowerdirEq.length)
  else none

/-- The loop of `parse_options`, with `lowerdir` as it stands; `fails n` is the result of
`match_strdup` for the option with `n` fields behind it. -/
def parseFields (fails : ℕ → Bool) :
    List CStr → Heap → Option (ℕ × CStr) → Option (ℕ × CStr) × Heap
  | [], h, lowerdir => (lowerdir, h)
  | p :: ps, h, lowerdir =>
    if p = [] then parseFields fails ps h lowerdir
    else
      match matchToken p with
      | none => parseFields fails ps h lowerdir
      | some text =>
        let (block, h) := h.alloc (fails ps.length)
        parseFields fails ps h (block.map fun b => (b, text))

/-- `parse_options`; `NULL` data has no fields. -/
def parseOptions (fails : ℕ → Bool) (data : Option CStr) (h : Heap) : Option (ℕ × CStr) × Heap :=
  match data with
  | none => (none, h)
  | some data => parseFields fails (data.splitOn ',') h none

/-- `cowfs_show_options` -/
def showOptions (sbi : SbInfo) : CStr := ',' :: (lowerdirEq ++ sbi.lowerdir)

/-! ## Blocks -/

structure MemState where
  heap : Heap
  /-- `sb->s_fs_info` -/
  sbi : Option ℕ
  /-- `d_fsdata` of the root. -/
  rootInfo : Option ℕ
  /-- `d_fsdata` of the other dentries. -/
  infos : List (ℕ × ℕ)
  /-- `private_data` of the open files and directories. -/
  files : List (ℕ × ℕ)

/-- The results of the calls of `cowfs_fill_super`, in order. -/
structure FillFaults where
  strdup : ℕ → Bool
  sbi : Bool
  kernPath : Status
  inode : Status
  makeRoot : Bool
  info : Bool

namespace MemState

def init : MemState := ⟨⟨0, []⟩, none, none, [], []⟩

/-- `cowfs_fill_super` -/
def fillSuper (s : MemState) (data : Option CStr) (φ : FillFaults) : Status × MemState :=
  let (lowerdir, heap) := parseOptions φ.strdup data s.heap
  match lowerdir with
  | none => (some .einval, { s with heap := heap })
  | some (str, _) =>
    match heap.alloc φ.sbi with
    | (none, heap) => (some .enomem, { s with heap := heap.free str })
    | (some sbi, heap) =>
      match φ.kernPath with
      -- err_sbi
      | some e => (some e, { s with heap := heap.free sbi })
      | none =>
        let heap := heap.free str
        match φ.inode with
        -- err_mnt
        | some e => (some e, { s with heap := heap.free sbi })
        | none =>
          if φ.makeRoot then (some .enomem, { s with heap := heap.free sbi })
          else
            match heap.alloc φ.info with
            | (none, heap) => (some .enomem, { s with heap := heap.free sbi })
            | (some info, heap) =>
              (none, { s with heap := heap, sbi := some sbi, rootInfo := some info })

/-- `cowfs_lookup` for the dentry `id`. -/
def lookup (s : MemState) (id : ℕ) : LookupOutcome → MemState
  | .lookupFails => s
  | .kzallocFails _ => { s with heap := s.heap.borrow true }
  | .inodeFails _ => { s with heap := s.heap.borrow false }
  | .found _ =>
    { s with
      heap := (s.heap.alloc false).2
      infos := (id, s.heap.next) :: s.infos }

/-- `cowfs_d_release` -/
def dRelease (s : MemState) (id : ℕ) : MemState :=
  match s.infos.find? fun i => i.1 = id with
  | none => s
  | some i =>
    { s with
      heap := s.heap.free i.2
      infos := s.infos.eraseP fun i => i.1 = id }

/-- `cowfs_open`, `cowfs_dir_open` -/
def open_ (s : MemState) (fd : ℕ) (kzalloc dentryOpen : Bool) : MemState :=
  match s.heap.alloc kzalloc with
  | (none, _) => s
  | (some fi, heap) =>
    if dentryOpen then { s with heap := heap.free fi }
    else { s with heap := heap, files := (fd, fi) :: s.files }

/-- `cowfs_release`, `cowfs_dir_release` -/
def release (s : MemState) (fd : ℕ) : MemState :=
  match s.files.find? fun i => i.1 = fd with
  | none => s
  | some i =>
    { s with
      heap := s.heap.free i.2
      files := s.files.eraseP fun i => i.1 = fd }

/-- The unmount: the dentries are freed, the root without `cowfs_d_release`, then
`cowfs_put_super` runs. -/
def umount (s : MemState) (sbi : ℕ) : MemState :=
  { s with
    heap := (s.infos.foldl (fun h i => h.free i.2) s.heap).free sbi
    infos := []
    rootInfo := none
    sbi := none }

end MemState

inductive MemAct
  | mount (data : Option CStr) (φ : FillFaults)
  | umount
  | lookup (id : ℕ) (outcome : LookupOutcome)
  | release (id : ℕ)
  | «open» (fd : ℕ) (kzalloc dentryOpen : Bool)
  | close (fd : ℕ)
  /-- The request of a listing, or the buffer of a copy. -/
  | borrow (fails : Bool)

/-- One call; a second mount waits for the first to go, and an open file keeps it. -/
def memStep (s : MemState) : MemAct → MemState
  | .mount data φ => if s.sbi.isSome then s else (s.fillSuper data φ).2
  | .umount =>
    match s.sbi with
    | none => s
    | some sbi => if s.files = [] then s.umount sbi else s
  | .lookup id outcome => if s.sbi.isSome then s.lookup id outcome else s
  | .release id => s.dRelease id
  | .open fd kzalloc dentryOpen => if s.sbi.isSome then s.open_ fd kzalloc dentryOpen else s
  | .close fd => s.release fd
  | .borrow fails => { s with heap := s.heap.borrow fails }

end Cowfs
