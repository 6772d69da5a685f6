import Cowfs.Construction.Readdir
import Cowfs.Construction.Upper

/-!
# Lookup in the whole lower tree (`cowfs_lookup`)

`Lower` holds the lower tree without the shadow directories, whose files are in the store.  To
`lookup_one_len` and `iterate_dir` there is one tree: an object of it is a node of `Lower`, the
shadow directory in a node, or a file in a shadow directory.
-/

namespace Cowfs

/-- An object of the lower file system. -/
inductive LowerObject
  | node (f : Fid)
  | shadowDir (r : Fid)
  | shadowFile (r : Fid) (base : CStr)
  deriving DecidableEq, Repr

/-- The shadow directories and what is in them. -/
def LowerObject.isShadow : LowerObject → Bool
  | .node _ => false
  | _ => true

/-- What a lower directory has under a name. -/
def State.lowerEntry (s : State) : LowerObject → CStr → Option LowerObject
  | .node dir, name =>
    if name = shadowDir ∧ (s.store.shadow dir).isSome then some (.shadowDir dir)
    else (s.lower.entries dir name).map .node
  | .shadowDir r, base =>
    ((s.store.shadow r).bind fun files => files base).map fun _ => .shadowFile r base
  | .shadowFile _ _, _ => none

/-- The answer of `cowfs_lookup`: an error, or a dentry, which is positive when it stands for an
object. -/
def State.cowfsLookup (s : State) (dir : LowerObject) (name : CStr) (φ : Upper.LookupFaults) :
    Except Errno (Option LowerObject) :=
  match φ.lookup with
  | some e => .error e
  | none =>
    if φ.kzalloc then .error .enomem
    else
      match s.lowerEntry dir name with
      | none => .ok none
      | some o => if φ.inode then .error .enomem else .ok (some o)

/-- Lookups one after the other, each in the directory found before; all have to give positive
dentries. -/
def State.lookups (s : State) : LowerObject → List (CStr × Upper.LookupFaults) →
    Option LowerObject
  | o, [] => some o
  | o, (name, φ) :: walk =>
    match s.cowfsLookup o name φ with
    | .ok (some o') => s.lookups o' walk
    | _ => none

/-- `d` is what the lower file system delivers of the directory `dir`: its names, and the two
dots. -/
def DirData.Of (s : State) (dir : LowerObject) (d : DirData) : Prop :=
  ∀ name, name ≠ ['.'] → name ≠ ['.', '.'] →
    ((∃ e ∈ d.entries, e.2.name = name) ↔ (s.lowerEntry dir name).isSome)

end Cowfs
