import Cowfs.Construction.Types
import Cowfs.Framework.LockProgram

/-!
# Directory locks

Which locks each namespace operation holds while it changes a lower directory.  A directory of
the mount and the lower directory under it have one `Fid` and two locks, the `i_rwsem` of the
upper and of the lower inode; `enter` and `leave` bracket the lower `vfs_*` call that changes the
directories named.

The VFS locks the upper directories of a call (`lock_rename` those of a rename).  `cowfs_unlink`
and `cowfs_rmdir` lock the lower directory as well, the others do not; a rollback runs from the
control device and locks the lower directory alone.  The snapshot of an unlink or a rename may add
and remove files of the shadow directory before the change itself, each under the lower lock.
-/

namespace Cowfs

inductive DirLock
  | upper (d : Fid)
  | lower (d : Fid)
  deriving DecidableEq, Repr

abbrev DirInstr := Instr DirLock Fid

/-- A namespace operation; `shadow` lists the directories in which its snapshot adds or removes
a shadow file, `found` tells whether the lookup of the name succeeded. -/
inductive NsOp
  | create (d : Fid)
  | mkdir (d : Fid)
  | symlink (d : Fid)
  | link (d : Fid)
  | unlink (d : Fid) (shadow : List Fid)
  | rmdir (d : Fid)
  | rename (d₁ d₂ : Fid) (shadow : List Fid)
  | rollbackDeleted (d : Fid) (found : Bool)
  | rollbackUnlink (d : Fid) (found : Bool)
  | rollbackRename (d : Fid) (found : Bool)
  | rollbackSetattr (f : Fid)
  deriving DecidableEq, Repr

/-- No operation yet. -/
instance : Inhabited NsOp := ⟨.rollbackSetattr 0⟩

/-! ## The shapes -/

/-- A change under the lock of the lower directory. -/
def lowerChange (d : Fid) : List DirInstr :=
  [.lock (.lower d), .enter [d], .leave, .unlock (.lower d)]

/-- The call of the VFS on an upper directory it has locked. -/
def underUpper (d : Fid) (body : List DirInstr) : List DirInstr :=
  .lock (.upper d) :: body ++ [.unlock (.upper d)]

/-- The files a snapshot adds to or removes from shadow directories. -/
def snapshotChanges (shadow : List Fid) : List DirInstr := shadow.flatMap lowerChange

/-- `inode_lock`, `lookup_one_len` and, when it succeeds, the change. -/
def rollbackChange (d : Fid) (found : Bool) : List DirInstr :=
  if found then lowerChange d else [.lock (.lower d), .unlock (.lower d)]

/-! ## The operations -/

def cowfsCreateSteps (d : Fid) : List DirInstr := underUpper d [.enter [d], .leave]

def cowfsMkdirSteps (d : Fid) : List DirInstr := underUpper d [.enter [d], .leave]

def cowfsSymlinkSteps (d : Fid) : List DirInstr := underUpper d [.enter [d], .leave]

def cowfsLinkSteps (d : Fid) : List DirInstr := underUpper d [.enter [d], .leave]

def cowfsUnlinkSteps (d : Fid) (shadow : List Fid) : List DirInstr :=
  underUpper d (snapshotChanges shadow ++ lowerChange d)

def cowfsRmdirSteps (d : Fid) : List DirInstr := underUpper d (lowerChange d)

/-- Neither lower directory is locked around `vfs_rename`. -/
def cowfsRenameSteps (d₁ d₂ : Fid) (shadow : List Fid) : List DirInstr :=
  if d₁ = d₂ then underUpper d₁ (snapshotChanges shadow ++ [.enter [d₁], .leave])
  else
    underUpper d₁ (underUpper d₂ (snapshotChanges shadow ++ [.enter [d₁, d₂], .leave]))

def rollbackDeletedSteps (d : Fid) (found : Bool) : List DirInstr := rollbackChange d found

/-- The `COW_OP_UNLINK` branch. -/
def rollbackUnlinkSteps (d : Fid) (found : Bool) : List DirInstr := rollbackChange d found

/-- The `COW_OP_RENAME` branch. -/
def rollbackRenameSteps (d : Fid) (found : Bool) : List DirInstr := rollbackChange d found

/-- The `COW_OP_SETATTR` branch locks the file itself and changes no directory. -/
def rollbackSetattrSteps (f : Fid) : List DirInstr := [.lock (.lower f), .unlock (.lower f)]

def NsOp.steps : NsOp → List DirInstr
  | .create d => cowfsCreateSteps d
  | .mkdir d => cowfsMkdirSteps d
  | .symlink d => cowfsSymlinkSteps d
  | .link d => cowfsLinkSteps d
  | .unlink d shadow => cowfsUnlinkSteps d shadow
  | .rmdir d => cowfsRmdirSteps d
  | .rename d₁ d₂ shadow => cowfsRenameSteps d₁ d₂ shadow
  | .rollbackDeleted d found => rollbackDeletedSteps d found
  | .rollbackUnlink d found => rollbackUnlinkSteps d found
  | .rollbackRename d found => rollbackRenameSteps d found
  | .rollbackSetattr f => rollbackSetattrSteps f

end Cowfs
