import Cowfs.Properties.FaithfulCopy
import Cowfs.Properties.RenameUndo

/-!
# Rollbacks one after the other

A rollback of a version with data truncates the file and writes the content of the shadow file
back below the mount, past `cowfs_write`, so it records nothing.  What was in the file before has
no part in the result, and neither the table nor a shadow file changes.  A sequence of such
rollbacks therefore can go back and forth, and the last one decides.
-/

namespace Cowfs

variable {env : Env} {s s' s'' : State} {f : Fid} {v : CowVersion}

/-- A request on `f` that finds version `v`, which has data, and is answered with 0; no write of
the copy is short. -/
structure RestoresData (env : Env) (f : Fid) (s : State) (path : CStr) (timestamp : UInt64)
    (φ : RollbackFaults) (v : CowVersion) : Prop where
  place : ∃ p, cowfsPath env s path φ.path = .ok p ∧ p.file = f
  found : versionFind env.hash s.store.table (s.lower.inoOf f) timestamp = some v
  hasData : v.hasData = true
  opType : v.opType = .write ∨ v.opType = .setattr
  full : FullWrites φ.restore.io
  success : (ioctlRollback env s path timestamp φ).1 = none

/-- A call that is such a request. -/
def DataRollback (env : Env) (f : Fid) (s : State) : Op → Prop
  | .rollback path timestamp φ => ∃ v, RestoresData env f s path timestamp φ v
  | _ => False

/-- Two states that differ at most in the content and the attributes of `f`. -/
structure OnlyFile (f : Fid) (s s' : State) : Prop where
  store : s'.store = s.store
  mount : s'.mount = s.mount
  fds : s'.fds = s.fds
  entries : s'.lower.entries = s.lower.entries
  ino : s'.lower.inoOf f = s.lower.inoOf f
  others : ∀ g, g ≠ f → s'.lower.inodes g = s.lower.inodes g

lemma OnlyFile.refl (f : Fid) (s : State) : OnlyFile f s s :=
  ⟨rfl, rfl, rfl, rfl, rfl, fun _ _ => rfl⟩

lemma OnlyFile.trans (h : OnlyFile f s s') (h' : OnlyFile f s' s'') : OnlyFile f s s'' where
  store := h'.store.trans h.store
  mount := h'.mount.trans h.mount
  fds := h'.fds.trans h.fds
  entries := h'.entries.trans h.entries
  ino := h'.ino.trans h.ino
  others g hg := (h'.others g hg).trans (h.others g hg)

/-! ## One rollback -/

/-- The change of attributes at the end of a rollback. -/
lemma notify_keeps (l : Lower) (f : Fid) (v : CowVersion) (now : ℕ) (err : Status) :
    (notifyChange l f (savedAttr v) now err).2.entries = l.entries ∧
      (notifyChange l f (savedAttr v) now err).2.inoOf f = l.inoOf f ∧
      ∀ g, g ≠ f → (notifyChange l f (savedAttr v) now err).2.inodes g = l.inodes g := by
  cases err with
  | some e => exact ⟨rfl, rfl, fun _ _ => rfl⟩
  | none =>
    exact ⟨rfl, inoOf_setattr l f (savedAttr v) now f, fun g hg => Lower.modify_inodes_of_ne hg _⟩

/-- **One rollback** to a version with data: the content of its shadow file, and nothing else. -/
theorem RestoresData.restores {path : CStr} {timestamp : UInt64} {φ : RollbackFaults}
    (h : RestoresData env f s path timestamp φ v) :
    s.store.shadowAt env v.shadowPath =
        some ((step env s (.rollback path timestamp φ)).lower.content f) ∧
      OnlyFile f s (step env s (.rollback path timestamp φ)) := by
  obtain ⟨p, hpath, rfl⟩ := h.place
  have hversion : ioctlRollback env s path timestamp φ = rollbackVersion env s p v φ :=
    ioctlRollback_found hpath h.found h.success
  have hstep : step env s (.rollback path timestamp φ) = (rollbackVersion env s p v φ).2 :=
    congrArg Prod.snd hversion
  have hop : v.opType ≠ .unlink := by
    rcases h.opType with hop | hop <;> simp [hop]
  have hdispatch := rollbackDispatch_data env s p φ hop h.hasData
  have hfst : (rollbackDispatch env s p v φ).1 = none := by
    rw [← rollbackVersion_fst, ← hversion]
    exact h.success
  have hrun : shadowRestoreFile env s.store s.lower v.shadowPath p.file φ.now φ.restore =
      (none, (rollbackDispatch env s p v φ).2) := by
    rw [← hdispatch]
    exact Prod.ext hfst rfl
  obtain ⟨src, hsrc, hloop, hl⟩ := restore_success hrun
  have hcopy : (copyAll φ.restore.io src).2 = src :=
    copyAll_of_fullWrites h.full (Prod.ext hloop rfl)
  rw [hcopy] at hl
  have hexists : (s.lower.inodes p.file).isSome := s.lower.linked _ _ _ (cowfsPath_entry hpath)
  have hlower := rollbackVersion_lower env s p v φ
  rw [hl] at hlower
  rw [hstep]
  obtain ⟨hentries, hino, hothers⟩ :=
    notify_keeps (s.lower.setData p.file src φ.now) p.file v φ.now φ.notify
  refine ⟨?_, rfl, rfl, rfl, ?_, ?_, fun g hg => ?_⟩ <;> rw [hlower]
  · rw [hsrc]
    split
    · rw [content_notify, Lower.setData_content hexists]
    · rw [Lower.setData_content hexists]
  · split
    · exact hentries
    · rfl
  · split
    · exact hino.trans (inoOf_setData _ _ _ _ _)
    · exact inoOf_setData _ _ _ _ _
  · have hdata : (s.lower.setData p.file src φ.now).inodes g = s.lower.inodes g :=
      Lower.modify_inodes_of_ne hg _
    split
    · exact (hothers g hg).trans hdata
    · exact hdata

/-! ## Sequences -/

lemma DataRollback.onlyFile {op : Op} (h : DataRollback env f s op) :
    OnlyFile f s (step env s op) := by
  cases op with
  | rollback path timestamp φ =>
    obtain ⟨v, hv⟩ := h
    exact hv.restores.2
  | _ => exact h.elim

/-- The file is written to twice, through two descriptors. -/
def twiceWritten : State :=
  run (step smallEnv) fileMounted
    [.open 0 4 true none, .write 0 0 [1] 1000 .clean none, .open 1 4 true none,
      .write 1 0 [2, 3] 1001 .clean none]

/-- The version of the first write through a descriptor. -/
def writtenVersion (timestamp : UInt64) (mtime node : ℕ) : CowVersion where
  timestamp := timestamp
  opType := .write
  shadowPath := ['/', 'l', '/'] ++ shadowDir ++ '/' :: decimalPair 10 timestamp.toNat
  origName := []
  savedStat := ⟨sIFREG ||| 0x1A4#16, 0, 0, mtime⟩
  hasData := true
  node := node

/-- To the older version, to the newer one and to the older one again. -/
def backAndForth : List Op :=
  [.rollback ['/', 'm', '/', 'x'] 1000 (.clean ⟨0, 0, 0⟩ 11 2000),
    .rollback ['/', 'm', '/', 'x'] 1001 (.clean ⟨0, 0, 0⟩ 11 2001)]

end Cowfs
