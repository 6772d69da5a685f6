import Cowfs.Properties.Rollback

/-!
# A rollback in which nothing fails

`RollbackFaults.Fine` says that every kernel call of a request does its part.  Such a request,
for a version of the file at a path, restores exactly what the version saved: its content, its
attributes, or its name.  `rollback_of_fine` gives the lower tree it leaves.
-/

namespace Cowfs

variable {env : Env} {s : State} {l : Lower} {st : Store}

/-- Every call of a copy does its part, whatever the content. -/
structure CopyFaults.Fine (φ : CopyFaults) : Prop where
  cred : φ.cred = false
  openSrc : φ.openSrc = none
  openDst : φ.openDst = none
  truncate : φ.truncate = none
  kmalloc : φ.kmalloc = false
  io : ∀ src, copyAll φ.io src = (none, src)

/-- Every call of a request does its part. -/
structure RollbackFaults.Fine (φ : RollbackFaults) : Prop where
  copyIn : φ.copyIn = false
  path : φ.path = none
  path₂ : φ.path₂ = none
  parent : φ.parent = none
  lookup : φ.lookup = none
  create : φ.create = none
  restore : φ.restore.Fine
  rename : φ.rename = none
  notify : φ.notify = none

lemma CopyFaults.clean_fine : CopyFaults.clean.Fine := ⟨rfl, rfl, rfl, rfl, rfl, copyAll_clean⟩

lemma RollbackFaults.clean_fine (cred : Cred) (ino : UInt64) (now : ℕ) :
    (RollbackFaults.clean cred ino now).Fine :=
  ⟨rfl, rfl, rfl, rfl, rfl, rfl, CopyFaults.clean_fine, rfl, rfl⟩

lemma restore_of_fine {φ : CopyFaults} {path : CStr} {c : Content} (hφ : φ.Fine)
    (hc : st.shadowAt env path = some c) (l : Lower) (f : Fid) (now : ℕ) :
    shadowRestoreFile env st l path f now φ = (none, l.setData f c now) := by
  unfold shadowRestoreFile
  simp only [hφ.cred, hφ.openSrc, hφ.openDst, hφ.truncate, hφ.kmalloc, hc, hφ.io,
    Bool.false_eq_true, if_false]

/-- A version is the first with its timestamp, when timestamps tell versions apart. -/
lemma find_timestamp {vs : List CowVersion} {v : CowVersion}
    (hnd : (vs.map CowVersion.timestamp).Nodup) (hv : v ∈ vs) (hne : v.timestamp ≠ 0) :
    (vs.find? fun w => v.timestamp == 0 || w.timestamp == v.timestamp) = some v := by
  cases hfind : vs.find? fun w => v.timestamp == 0 || w.timestamp == v.timestamp with
  | none =>
    rw [List.find?_eq_none] at hfind
    exact absurd (hfind v hv) (by simp)
  | some w =>
    have hw := List.mem_of_find?_eq_some hfind
    have hp := List.find?_some hfind
    have hts : w.timestamp = v.timestamp := by simpa [hne] using hp
    rw [List.inj_on_of_nodup_map hnd hw hv hts]

/-- The version a request finds is the one asked for. -/
lemma versionFind_of_mem {st : Store} {ino : UInt64} {v : CowVersion}
    (hnd : ((tableView env.hash st.table ino).map CowVersion.timestamp).Nodup)
    (hv : v ∈ tableView env.hash st.table ino) (hne : v.timestamp ≠ 0) :
    versionFind env.hash st.table ino v.timestamp = some v := by
  rw [versionFind_eq]
  exact find_timestamp hnd hv hne

/-- What a request acts on whose path leads to a file with the version asked for. -/
lemma rollback_found {path : CStr} {timestamp : UInt64} {φ : RollbackFaults} {p : Place}
    {v : CowVersion} (hφ : φ.Fine) (hpath : cowfsPath env s path none = .ok p)
    (hfind : versionFind env.hash s.store.table (s.lower.inoOf p.file) timestamp = some v) :
    ioctlRollback env s path timestamp φ = rollbackVersion env s p v φ := by
  have hino := pathToLowerIno_of_place hpath
  unfold ioctlRollback
  simp only [hφ.copyIn, hφ.path, hφ.path₂, hino, hfind, hpath, Bool.false_eq_true, if_false]

/-- The tree after the content or the name that `v` saved is restored. -/
def restoredTree (l : Lower) (p : Place) (v : CowVersion) (c : Content) (now : ℕ)
    (h : (l.inodes p.file).isSome) : Lower :=
  if v.hasData then l.setData p.file c now
  else if v.opType = .rename then l.moveEntry p.dir p.name p.dir v.origName p.file h
  else l

/-- **What a rollback without failures does** to the file at `p`, for a version that is not one
of a removal and whose old name, if it saves one, is free. -/
theorem rollback_of_fine {p : Place} {v : CowVersion} {c : Content} {φ : RollbackFaults}
    (hφ : φ.Fine) (hp : s.lower.entries p.dir p.name = some p.file) (hop : v.opType ≠ .unlink)
    (hdata : v.hasData = true → s.store.shadowAt env v.shadowPath = some c)
    (hname : v.opType = .rename → s.lower.entries p.dir v.origName = none) :
    rollbackVersion env s p v φ =
      (none, { s with
        lower :=
          if v.opType = .setattr then
            (restoredTree s.lower p v c φ.now (s.lower.linked _ _ _ hp)).modify p.file
              (setattrInode (savedAttr v) φ.now)
          else restoredTree s.lower p v c φ.now (s.lower.linked _ _ _ hp) }) := by
  have hdispatch : rollbackDispatch env s p v φ =
      (none, restoredTree s.lower p v c φ.now (s.lower.linked _ _ _ hp)) := by
    unfold rollbackDispatch restoredTree
    rw [if_neg hop]
    split
    · next hd => exact restore_of_fine hφ.restore (hdata hd) _ _ _
    · split
      · next hr =>
        have hfree := hname hr
        have hmove : vfsRename s.lower p.dir p.name p.dir v.origName RenameFlags.zero φ.ino
            φ.now none = (none, s.lower.moveEntry p.dir p.name p.dir v.origName p.file
              (s.lower.linked _ _ _ hp)) :=
          vfsRename_of_allowed φ.ino φ.now hp (by rw [hfree]; simp) (by rw [hfree]; rfl)
        unfold rollbackRename
        simp only [hφ.lookup, hφ.rename]
        exact hmove
      · rfl
  unfold rollbackVersion
  rw [hdispatch]
  by_cases ha : v.opType = .setattr
  · simp only [ha, and_self, if_true, hφ.notify, notifyChange]
  · simp only [ha, and_false, if_false]

end Cowfs
