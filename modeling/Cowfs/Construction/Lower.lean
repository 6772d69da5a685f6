import Cowfs.Construction.Types

/-!
# The lower file system

The part of the kernel the module stands on: inode objects, directory entries, and the `vfs_*`
calls, after their documented behaviour.  A call that can fail for reasons of its own (no
space, no permission, an I/O error) takes its failure as an argument, `err`; the failures that
follow from the arguments (a name in use, a directory in the place of a file) are computed.

`Lower` carries the two facts every tree satisfies: an object not yet allocated is absent, and
a directory entry leads to an object that exists.  Several lower file systems are parts of one
`Lower`; their inode numbers may coincide, as the identity of an object is its `Fid`.
-/

namespace Cowfs

/-- The fields of a lower `struct inode`, with the file's content. -/
structure Inode where
  ino : UInt64
  mode : Umode
  uid : UInt32
  gid : UInt32
  mtime : ℕ
  data : Content
  deriving DecidableEq, Repr

structure Lower where
  inodes : Fid → Option Inode
  entries : Fid → CStr → Option Fid
  next : Fid
  fresh : ∀ f, next ≤ f → inodes f = none
  linked : ∀ d n f, entries d n = some f → (inodes f).isSome

namespace Lower

/-- The content of a file; empty for an object that does not exist. -/
def content (l : Lower) (f : Fid) : Content := ((l.inodes f).map Inode.data).getD []

/-- `vfs_getattr` -/
def getattr (l : Lower) (f : Fid) : Kstat :=
  ((l.inodes f).map fun i => (⟨i.mode, i.uid, i.gid, i.mtime⟩ : Kstat)).getD Kstat.zero

def isDir (l : Lower) (f : Fid) : Bool :=
  ((l.inodes f).map fun i => isDirMode i.mode).getD false

/-! ## Elementary changes -/

/-- Change the inode of `f`. -/
def modify (l : Lower) (f : Fid) (g : Inode → Inode) : Lower where
  inodes := Function.update l.inodes f ((l.inodes f).map g)
  entries := l.entries
  next := l.next
  fresh f' h := by
    by_cases he : f' = f
    · subst he
      simp [l.fresh f' h]
    · simp [he, l.fresh f' h]
  linked d n f' h := by
    have := l.linked d n f' h
    by_cases he : f' = f
    · subst he
      simpa using this
    · simpa [he] using this

/-- Let the entry `name` of `dir` be `o`. -/
def setEntry (l : Lower) (dir : Fid) (name : CStr) (o : Option Fid)
    (ho : ∀ f, o = some f → (l.inodes f).isSome) : Lower where
  inodes := l.inodes
  entries d n := if d = dir ∧ n = name then o else l.entries d n
  next := l.next
  fresh := l.fresh
  linked d n f h := by
    split at h
    · exact ho f h
    · exact l.linked d n f h

/-- Allocate the object `l.next` with inode `i`. -/
def alloc (l : Lower) (i : Inode) : Lower where
  inodes := Function.update l.inodes l.next (some i)
  entries := l.entries
  next := l.next + 1
  fresh f h := by
    have hne : f ≠ l.next := Nat.ne_of_gt h
    simp [hne, l.fresh f (Nat.le_of_succ_le h)]
  linked d n f h := by
    have := l.linked d n f h
    by_cases he : f = l.next
    · simp [he]
    · simpa [he] using this

/-- A new object under `name` in `dir`. -/
def addNode (l : Lower) (dir : Fid) (name : CStr) (i : Inode) : Lower :=
  (l.alloc i).setEntry dir name (some l.next) fun f h => by
    obtain rfl := Option.some.inj h
    simp [alloc]

/-- Drop the entry `name` of `dir`. -/
def dropEntry (l : Lower) (dir : Fid) (name : CStr) : Lower :=
  l.setEntry dir name none (by simp)

@[simp] theorem modify_entries (l : Lower) (f : Fid) (g : Inode → Inode) :
    (l.modify f g).entries = l.entries := rfl

@[simp] theorem modify_next (l : Lower) (f : Fid) (g : Inode → Inode) :
    (l.modify f g).next = l.next := rfl

@[simp] theorem modify_inodes_self (l : Lower) (f : Fid) (g : Inode → Inode) :
    (l.modify f g).inodes f = (l.inodes f).map g := by
  simp [modify]

theorem modify_inodes_of_ne {l : Lower} {f f' : Fid} (h : f' ≠ f) (g : Inode → Inode) :
    (l.modify f g).inodes f' = l.inodes f' := by
  simp [modify, h]

@[simp] theorem setEntry_inodes (l : Lower) (dir : Fid) (name : CStr) (o : Option Fid)
    (ho : ∀ f, o = some f → (l.inodes f).isSome) :
    (l.setEntry dir name o ho).inodes = l.inodes := rfl

theorem setEntry_entries (l : Lower) (dir : Fid) (name : CStr) (o : Option Fid)
    (ho : ∀ f, o = some f → (l.inodes f).isSome) (d : Fid) (n : CStr) :
    (l.setEntry dir name o ho).entries d n =
      if d = dir ∧ n = name then o else l.entries d n := rfl

theorem alloc_inodes_of_ne {l : Lower} {f : Fid} (h : f ≠ l.next) (i : Inode) :
    (l.alloc i).inodes f = l.inodes f := by
  simp [alloc, h]

theorem addNode_inodes_of_ne {l : Lower} {f : Fid} (h : f ≠ l.next) (dir : Fid) (name : CStr)
    (i : Inode) : (l.addNode dir name i).inodes f = l.inodes f :=
  alloc_inodes_of_ne h i

@[simp] theorem addNode_inodes_next (l : Lower) (dir : Fid) (name : CStr) (i : Inode) :
    (l.addNode dir name i).inodes l.next = some i := by
  simp [addNode, alloc]

theorem addNode_entries (l : Lower) (dir : Fid) (name : CStr) (i : Inode) (d : Fid) (n : CStr) :
    (l.addNode dir name i).entries d n =
      if d = dir ∧ n = name then some l.next else l.entries d n := rfl

@[simp] theorem dropEntry_inodes (l : Lower) (dir : Fid) (name : CStr) :
    (l.dropEntry dir name).inodes = l.inodes := rfl

theorem dropEntry_entries (l : Lower) (dir : Fid) (name : CStr) (d : Fid) (n : CStr) :
    (l.dropEntry dir name).entries d n =
      if d = dir ∧ n = name then none else l.entries d n := rfl

/-- An existing object is not the next one to be allocated. -/
theorem ne_next_of_isSome {l : Lower} {f : Fid} (h : (l.inodes f).isSome) : f ≠ l.next := by
  rintro rfl
  rw [l.fresh _ le_rfl] at h
  cases h

/-- Replace the content of `f`, at time `now`. -/
def setData (l : Lower) (f : Fid) (data : Content) (now : ℕ) : Lower :=
  l.modify f fun i => { i with data := data, mtime := now }

theorem setData_content {l : Lower} {f : Fid} (h : (l.inodes f).isSome) (data : Content)
    (now : ℕ) : (l.setData f data now).content f = data := by
  obtain ⟨i, hi⟩ := Option.isSome_iff_exists.1 h
  simp [content, setData, hi]

end Lower

/-! ## File contents -/

/-- Write `bytes` at position `pos`: the gap in front of it, if any, is zero. -/
def writeAt (data : Content) (pos : ℕ) (bytes : Content) : Content :=
  if bytes = [] then data
  else
    data.take pos ++ List.replicate (pos - data.length) 0 ++ bytes ++
      data.drop (pos + bytes.length)

/-- The content after a change of size. -/
def resize (data : Content) (size : ℕ) : Content :=
  data.take size ++ List.replicate (size - data.length) 0

theorem writeAt_end (data bytes : Content) : writeAt data data.length bytes = data ++ bytes := by
  by_cases h : bytes = []
  · simp [writeAt, h]
  · simp [writeAt, h]

/-! ## Creating and removing names -/

/-- The credentials of the calling process that a new inode depends on. -/
structure Cred where
  fsuid : UInt32
  fsgid : UInt32
  umask : Umode
  deriving DecidableEq, Repr

/-- The inode of a new object in `dir` (`vfs_prepare_mode`, `inode_init_owner`): the caller's
umask is stripped, and a set-group-ID directory hands its group down. -/
def newInode (l : Lower) (dir : Fid) (type mode : Umode) (cred : Cred) (ino : UInt64)
    (now : ℕ) : Inode where
  ino := ino
  mode := (mode &&& ~~~cred.umask) &&& sIALLUGO ||| type
  uid := cred.fsuid
  gid := if (l.getattr dir).mode &&& sISGID = sISGID then (l.getattr dir).gid else cred.fsgid
  mtime := now
  data := []

/-- `vfs_create`, `vfs_mkdir` and `vfs_symlink` differ in the type of the object made. -/
def vfsMake (type : Umode) (l : Lower) (dir : Fid) (name : CStr) (mode : Umode) (cred : Cred)
    (ino : UInt64) (now : ℕ) (err : Status) : Status × Lower :=
  if (l.entries dir name).isSome then (some .eexist, l)
  else
    match err with
    | some e => (some e, l)
    | none => (none, l.addNode dir name (newInode l dir type mode cred ino now))

/-- `vfs_create` -/
def vfsCreate : Lower → Fid → CStr → Umode → Cred → UInt64 → ℕ → Status → Status × Lower :=
  vfsMake sIFREG

/-- `vfs_link` -/
def vfsLink (l : Lower) (f dir : Fid) (name : CStr) (err : Status) : Status × Lower :=
  if (l.entries dir name).isSome then (some .eexist, l)
  else
    match err with
    | some e => (some e, l)
    | none =>
      if h : (l.inodes f).isSome then
        (none, l.setEntry dir name (some f) fun _ hf => Option.some.inj hf ▸ h)
      else (some .enoent, l)

/-- `vfs_unlink` -/
def vfsUnlink (l : Lower) (dir : Fid) (name : CStr) (err : Status) : Status × Lower :=
  match l.entries dir name with
  | none => (some .enoent, l)
  | some f =>
    if l.isDir f then (some .eisdir, l)
    else
      match err with
      | some e => (some e, l)
      | none => (none, l.dropEntry dir name)

/-- `vfs_rmdir`; that the directory is empty is left to `err`. -/
def vfsRmdir (l : Lower) (dir : Fid) (name : CStr) (err : Status) : Status × Lower :=
  match l.entries dir name with
  | none => (some .enoent, l)
  | some f =>
    if l.isDir f then
      match err with
      | some e => (some e, l)
      | none => (none, l.dropEntry dir name)
    else (some .enotdir, l)

/-! ## Renaming -/

/-- The flags of `renameat2`. -/
structure RenameFlags where
  noreplace : Bool
  exchange : Bool
  whiteout : Bool
  deriving DecidableEq, Repr

/-- No flag. -/
def RenameFlags.zero : RenameFlags := ⟨false, false, false⟩

/-- Move the entry of `f` from `(d₁, n₁)` to `(d₂, n₂)`, over whatever is there. -/
def Lower.moveEntry (l : Lower) (d₁ : Fid) (n₁ : CStr) (d₂ : Fid) (n₂ : CStr) (f : Fid)
    (h : (l.inodes f).isSome) : Lower :=
  (l.dropEntry d₁ n₁).setEntry d₂ n₂ (some f) fun _ hf => Option.some.inj hf ▸ h

theorem Lower.moveEntry_entries (l : Lower) (d₁ : Fid) (n₁ : CStr) (d₂ : Fid) (n₂ : CStr)
    (f : Fid) (h : (l.inodes f).isSome) (d : Fid) (n : CStr) :
    (l.moveEntry d₁ n₁ d₂ n₂ f h).entries d n =
      if d = d₂ ∧ n = n₂ then some f
      else if d = d₁ ∧ n = n₁ then none else l.entries d n := rfl

@[simp] theorem Lower.moveEntry_inodes (l : Lower) (d₁ : Fid) (n₁ : CStr) (d₂ : Fid)
    (n₂ : CStr) (f : Fid) (h : (l.inodes f).isSome) :
    (l.moveEntry d₁ n₁ d₂ n₂ f h).inodes = l.inodes := rfl

/-- Let `(d₁, n₁)` lead to `g` and `(d₂, n₂)` to `f`. -/
def Lower.swapEntries (l : Lower) (d₁ : Fid) (n₁ : CStr) (d₂ : Fid) (n₂ : CStr) (f g : Fid)
    (hf : (l.inodes f).isSome) (hg : (l.inodes g).isSome) : Lower :=
  (l.setEntry d₁ n₁ (some g) fun _ h => Option.some.inj h ▸ hg).setEntry d₂ n₂ (some f)
    fun _ h => Option.some.inj h ▸ hf

/-- What `vfs_rename` refuses before it asks the file system: a missing source or (for an
exchange) target, a target in spite of `RENAME_NOREPLACE`, flags that exclude each other, a
directory in the place of a file or a file in the place of a directory. -/
def renameRefused (l : Lower) (f : Fid) (target : Option Fid) (flags : RenameFlags) : Status :=
  if flags.exchange && (flags.noreplace || flags.whiteout) then some .einval
  else
    match target with
    | none => if flags.exchange then some .enoent else none
    | some g =>
      if flags.noreplace then some .eexist
      else if flags.exchange then none
      else if l.isDir f && !l.isDir g then some .enotdir
      else if !l.isDir f && l.isDir g then some .eisdir
      else none

/-- The inode of the whiteout `RENAME_WHITEOUT` leaves behind. -/
def whiteoutInode (ino : UInt64) (now : ℕ) : Inode := ⟨ino, sIFCHR, 0, 0, now, []⟩

/-- `vfs_rename`.  When source and target are links of one file it does nothing and returns 0;
that a replaced directory is empty is left to `err`. -/
def vfsRename (l : Lower) (d₁ : Fid) (n₁ : CStr) (d₂ : Fid) (n₂ : CStr) (flags : RenameFlags)
    (ino : UInt64) (now : ℕ) (err : Status) : Status × Lower :=
  match h₁ : l.entries d₁ n₁ with
  | none => (some .enoent, l)
  | some f =>
    if l.entries d₂ n₂ = some f then (none, l)
    else
      match renameRefused l f (l.entries d₂ n₂) flags, err with
      | some e, _ => (some e, l)
      | none, some e => (some e, l)
      | none, none =>
        if flags.exchange then
          match h₂ : l.entries d₂ n₂ with
          | none => (some .enoent, l)
          | some g =>
            (none, l.swapEntries d₁ n₁ d₂ n₂ f g (l.linked _ _ _ h₁) (l.linked _ _ _ h₂))
        else
          let moved := l.moveEntry d₁ n₁ d₂ n₂ f (l.linked _ _ _ h₁)
          if flags.whiteout then (none, moved.addNode d₁ n₁ (whiteoutInode ino now))
          else (none, moved)

/-! ## Changing a file -/

/-- The mode `notify_change` leaves, after `ATTR_MODE`, `ATTR_KILL_SUID` and
`ATTR_KILL_SGID`. -/
def notifyMode (mode : Umode) (attr : Iattr) : Umode :=
  let m := attr.iaMode.getD mode
  let m := if attr.killSuid then m &&& ~~~sISUID else m
  if attr.killSgid then m &&& ~~~sISGID else m

/-- An inode after a change request. -/
def setattrInode (attr : Iattr) (now : ℕ) (i : Inode) : Inode where
  ino := i.ino
  mode := notifyMode i.mode attr
  uid := attr.iaUid.getD i.uid
  gid := attr.iaGid.getD i.gid
  mtime := attr.iaMtime.getD (if attr.iaSize.isSome then now else i.mtime)
  data := (attr.iaSize.map (resize i.data)).getD i.data

/-- `notify_change` -/
def notifyChange (l : Lower) (f : Fid) (attr : Iattr) (now : ℕ) (err : Status) :
    Status × Lower :=
  match err with
  | some e => (some e, l)
  | none => (none, l.modify f (setattrInode attr now))

/-- `vfs_iter_write`; `bytes` are the bytes the lower file accepts. -/
def vfsIterWrite (l : Lower) (f : Fid) (pos : ℕ) (bytes : Content) (now : ℕ) (err : Status) :
    Status × Lower :=
  match err with
  | some e => (some e, l)
  | none => (none, l.setData f (writeAt (l.content f) pos bytes) now)

end Cowfs
