import Cowfs.Construction.Shadow

/-!
# Resolving paths in a mounted tree

`Env` leaves `kern_path` open, since most results hold for any path walk that leads to entries
of the mounted tree.  This module gives the plain one: an absolute path is walked through the
directories of the mount, one component at a time, without symbolic links and without other
mounts below.  `treeEnv` is the environment it yields for a list of lower directories that may
be mounted in turn at one place, so every result about an arbitrary `Env` applies to it.
-/

namespace Cowfs

/-- The components of a path; `acc` holds the one being read, backwards. -/
def componentsFrom : CStr → CStr → List CStr
  | acc, [] => if acc = [] then [] else [acc.reverse]
  | acc, c :: cs =>
    if c = '/' then
      if acc = [] then componentsFrom [] cs else acc.reverse :: componentsFrom [] cs
    else componentsFrom (c :: acc) cs

def components (path : CStr) : List CStr := componentsFrom [] path

/-- Walk the components from the directory `d`. -/
def Lower.walk (l : Lower) : Fid → List CStr → Except Errno Target
  | _, [] => .error .enoent
  | d, [n] =>
    match l.entries d n with
    | none => .error .enoent
    | some f => .ok (.cowfs d n f)
  | d, n :: n' :: rest =>
    match l.entries d n with
    | none => .error .enoent
    | some f => if l.isDir f then l.walk f (n' :: rest) else .error .enotdir

/-- A directory `lowerdir=` may name: its path, its place in the tree and its object. -/
structure LowerDir where
  path : CStr
  home : Fid
  name : CStr
  root : Fid

/-- The dentry at the mount point itself. -/
def LowerDir.target (d : LowerDir) (l : Lower) : Except Errno Target :=
  if l.entries d.home d.name = some d.root then .ok (.cowfs d.home d.name d.root)
  else .error .enoent

/-- `kern_path` when the tree under `r` is mounted at `point`. -/
def resolveAt (dirs : List LowerDir) (point : List CStr) (r : Fid) (l : Lower) (path : CStr) :
    Except Errno Target :=
  match (components path).dropPrefix? point with
  | none => .ok .foreign
  | some [] =>
    match dirs.find? fun d => d.root = r with
    | none => .error .enoent
    | some d => d.target l
  | some (n :: rest) => l.walk r (n :: rest)

lemma walk_entry {l : Lower} {d : Fid} {ns : List CStr} {d' : Fid} {n' : CStr} {f : Fid}
    (h : l.walk d ns = .ok (.cowfs d' n' f)) : l.entries d' n' = some f := by
  induction ns generalizing d with
  | nil => cases h
  | cons n rest ih =>
    cases rest with
    | nil =>
      unfold Lower.walk at h
      cases he : l.entries d n with
      | none => simp [he] at h
      | some g =>
        simp only [he, Except.ok.injEq, Target.cowfs.injEq] at h
        obtain ⟨rfl, rfl, rfl⟩ := h
        exact he
    | cons m rest =>
      unfold Lower.walk at h
      cases he : l.entries d n with
      | none => simp [he] at h
      | some g =>
        simp only [he] at h
        split at h
        · exact ih h
        · cases h

lemma resolveAt_entry {dirs : List LowerDir} {point : List CStr} {r : Fid} {l : Lower}
    {path : CStr} {d : Fid} {n : CStr} {f : Fid}
    (h : resolveAt dirs point r l path = .ok (.cowfs d n f)) : l.entries d n = some f := by
  unfold resolveAt at h
  split at h
  · cases h
  · split at h
    · cases h
    · unfold LowerDir.target at h
      split at h
      · next he =>
        simp only [Except.ok.injEq, Target.cowfs.injEq] at h
        obtain ⟨rfl, rfl, rfl⟩ := h
        exact he
      · cases h
  · exact walk_entry h

/-- Making a file at a path, in one of these directories or nowhere. -/
def createIn (dirs : List LowerDir) (path : CStr) : Status :=
  match strrchr '/' path with
  | none => some .enoent
  | some (dir, name) =>
    if name ∈ [['.'], ['.', '.']] then some .eisdir
    else if dirs.any fun d => d.path = dir then none
    else some .enoent

/-- The environment in which the directories of `dirs` can be mounted at `point`. -/
def treeEnv (hash : UInt64 → Bucket) (dirs : List LowerDir) (point : List CStr) : Env where
  hash := hash
  lowerRoot path := (dirs.find? fun d => d.path = path).map LowerDir.root
  create := createIn dirs
  kernPath mounted l path :=
    match mounted with
    | none => .ok .foreign
    | some r => resolveAt dirs point r l path
  kernPath_entry r l path d n f h := by
    cases r with
    | none => cases h
    | some r => exact resolveAt_entry h
  kernPath_unmounted l path d n f h := by cases h

/-! ## A small tree -/

/-- Nothing is allocated yet. -/
def Lower.empty : Lower where
  inodes _ := none
  entries _ _ := none
  next := 0
  fresh _ _ := rfl
  linked _ _ _ h := by cases h

def dirInode (ino : UInt64) : Inode := ⟨ino, sIFDIR ||| 0x1ED#16, 0, 0, 0, []⟩

/-- The root directory 0 with the lower directory 1, called `l`, and its subdirectories 2 and
3, called `a` and `b`. -/
def smallTree : Lower :=
  (((Lower.empty.alloc (dirInode 1)).addNode 0 ['l'] (dirInode 2)).addNode 1 ['a']
    (dirInode 3)).addNode 1 ['b'] (dirInode 4)

/-- The lower directory `/l` mounted at `/m`. -/
def smallEnv : Env := treeEnv (fun _ => 0) [⟨['/', 'l'], 0, ['l'], 1⟩] [['m']]

end Cowfs
