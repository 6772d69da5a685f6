import Cowfs.Properties.LowerTree
import Cowfs.Properties.Snapshots

/-!
# What the calls on an open file do

One inversion lemma for each of `cowfs_open`, `cowfs_write` and `cowfs_setattr`: the call fails
and does nothing, or it reaches its file, and then `WriteEffect` and `SetattrEffect` say what it
does to the lower tree, to the open files and to the table.  The result of the lower call is
still open there, because the snapshot is taken before it.
-/

namespace Cowfs

variable {env : Env} {s : State}

lemma cowfsOpen_cases (s : State) (fd : Fd) (f : Fid) (writable : Bool) (err : Status) :
    ((cowfsOpen s fd f writable err).1 ≠ none ∧ (cowfsOpen s fd f writable err).2 = s) ∨
      cowfsOpen s fd f writable err =
        (none, { s with fds := Function.update s.fds fd (some ⟨f, writable, false⟩) }) := by
  unfold cowfsOpen
  split
  · exact .inl ⟨by simp, rfl⟩
  · exact .inl ⟨by simp, rfl⟩
  · exact .inl ⟨by simp, rfl⟩
  · exact .inr rfl

lemma markSnapshot_self {fds : Fd → Option CowfsFileInfo} {fd : Fd} {fi : CowfsFileInfo}
    (h : fds fd = some fi) :
    markSnapshot fds fd fd = some { fi with snapshotTaken := true } := by
  simp [markSnapshot, h]

/-- An open file that is marked was open before. -/
lemma markSnapshot_eq_some {fds : Fd → Option CowfsFileInfo} {fd : Fd} {fi : CowfsFileInfo}
    (h : markSnapshot fds fd fd = some fi) :
    ∃ fi₀, fds fd = some fi₀ ∧ fi = { fi₀ with snapshotTaken := true } := by
  cases hopen : fds fd with
  | none => simp [markSnapshot, hopen] at h
  | some fi₀ =>
    rw [markSnapshot_self hopen] at h
    exact ⟨fi₀, rfl, (Option.some.inj h).symm⟩

lemma markSnapshot_of_ne {fds : Fd → Option CowfsFileInfo} {fd fd' : Fd} (h : fd' ≠ fd) :
    markSnapshot fds fd fd' = fds fd' := by
  simp [markSnapshot, h]

/-- A file whose flag is set already is left as it is. -/
lemma markSnapshot_of_taken {fds : Fd → Option CowfsFileInfo} {fd : Fd} {fi : CowfsFileInfo}
    (h : fds fd = some fi) (ht : fi.snapshotTaken = true) : markSnapshot fds fd = fds := by
  have hfi : { fi with snapshotTaken := true } = fi := by rw [← ht]
  rw [markSnapshot, h, Option.map_some, hfi, ← h, Function.update_eq_self]

/-- What a write that reaches its file does; the lower write may still fail. -/
structure WriteEffect (env : Env) (s : State) (fd : Fd) (pos : ℕ) (bytes : Content)
    (now : UInt64) (φ : SnapFaults) (err : Status) (sbi : SbInfo) (fi : CowfsFileInfo)
    (i : Inode) : Prop where
  mounted : s.mount = some sbi
  opened : s.fds fd = some fi
  writable : fi.writable = true
  exists_ : s.lower.inodes fi.lowerFile = some i
  status : (cowfsWrite env s fd pos bytes now φ err).1 = err
  fds : (cowfsWrite env s fd pos bytes now φ err).2.fds = markSnapshot s.fds fd
  lower : (cowfsWrite env s fd pos bytes now φ err).2.lower =
    if err = none then
      s.lower.setData fi.lowerFile (writeAt (s.lower.content fi.lowerFile) pos bytes) now.toNat
    else s.lower
  snapshot : snapshotOf s (.write fd pos bytes now φ err) =
    if fi.snapshotTaken then none else some ⟨.write, fi.lowerFile, i, sbi, now, φ⟩

/-- A write does nothing and fails, or it reaches its file. -/
lemma cowfsWrite_cases (env : Env) (s : State) (fd : Fd) (pos : ℕ) (bytes : Content)
    (now : UInt64) (φ : SnapFaults) (err : Status) :
    (cowfsWrite env s fd pos bytes now φ err).2 = s ∧
        (cowfsWrite env s fd pos bytes now φ err).1 ≠ none ∨
      ∃ sbi fi i, WriteEffect env s fd pos bytes now φ err sbi fi i := by
  cases hm : s.mount with
  | none => exact .inl (by simp [cowfsWrite, hm])
  | some sbi =>
    cases hfd : s.fds fd with
    | none => exact .inl (by simp [cowfsWrite, hm, hfd])
    | some fi =>
      cases hi : s.lower.inodes fi.lowerFile with
      | none => exact .inl (by simp [cowfsWrite, hm, hfd, hi])
      | some i =>
        cases hw : fi.writable with
        | false => exact .inl (by simp [cowfsWrite, hm, hfd, hi, hw])
        | true =>
          refine .inr ⟨sbi, fi, i, hm, hfd, hw, hi, ?_, ?_, ?_, ?_⟩
          · cases ht : fi.snapshotTaken <;> cases err <;>
              simp [cowfsWrite, hm, hfd, hi, hw, ht, vfsIterWrite]
          · cases ht : fi.snapshotTaken with
            | false => simp [cowfsWrite, hm, hfd, hi, hw, ht]
            | true => simp [cowfsWrite, hm, hfd, hi, hw, ht, markSnapshot_of_taken hfd ht]
          · cases ht : fi.snapshotTaken <;> cases err <;>
              simp [cowfsWrite, hm, hfd, hi, hw, ht, vfsIterWrite]
          · cases ht : fi.snapshotTaken <;> simp [snapshotOf, hm, hfd, hi, hw, ht]

/-- A write that returns 0. -/
lemma cowfsWrite_success {fd : Fd} {pos : ℕ} {bytes : Content} {now : UInt64} {φ : SnapFaults}
    {err : Status} (h : (cowfsWrite env s fd pos bytes now φ err).1 = none) :
    ∃ sbi fi i, s.mount = some sbi ∧ s.fds fd = some fi ∧ s.lower.inodes fi.lowerFile = some i ∧
      (cowfsWrite env s fd pos bytes now φ err).2.lower =
        s.lower.setData fi.lowerFile (writeAt (s.lower.content fi.lowerFile) pos bytes)
          now.toNat ∧
      ((fi.snapshotTaken = true ∧ snapshotOf s (.write fd pos bytes now φ err) = none ∧
          (cowfsWrite env s fd pos bytes now φ err).2.fds = s.fds) ∨
        (snapshotOf s (.write fd pos bytes now φ err) =
            some ⟨.write, fi.lowerFile, i, sbi, now, φ⟩ ∧
          (cowfsWrite env s fd pos bytes now φ err).2.fds = markSnapshot s.fds fd)) := by
  rcases cowfsWrite_cases env s fd pos bytes now φ err with ⟨-, hno⟩ | ⟨sbi, fi, i, w⟩
  · exact absurd h hno
  have herr : err = none := w.status.symm.trans h
  refine ⟨sbi, fi, i, w.mounted, w.opened, w.exists_, by rw [w.lower, if_pos herr], ?_⟩
  cases ht : fi.snapshotTaken with
  | true => exact .inl ⟨rfl, by rw [w.snapshot, ht, if_pos rfl],
      w.fds.trans (markSnapshot_of_taken w.opened ht)⟩
  | false => exact .inr ⟨by rw [w.snapshot, ht, if_neg Bool.false_ne_true], w.fds⟩

/-- The descriptor through which a request changes the size. -/
def Iattr.sizedFile (attr : Iattr) : Option Fd := if attr.iaSize.isSome then attr.iaFile else none

/-- What a change of attributes that reaches its file does; the lower call may still fail. -/
structure SetattrEffect (env : Env) (s : State) (f : Fid) (attr : Iattr) (now : UInt64)
    (φ : SnapFaults) (err : Status) (sbi : SbInfo) (i : Inode) : Prop where
  mounted : s.mount = some sbi
  exists_ : s.lower.inodes f = some i
  status : (cowfsSetattr env s f attr now φ err).1 = err
  fds : (cowfsSetattr env s f attr now φ err).2.fds =
    if err = none then attr.sizedFile.elim s.fds (markSnapshot s.fds) else s.fds
  lower : (cowfsSetattr env s f attr now φ err).2.lower =
    (notifyChange s.lower f { attr with iaFile := none, attrOpen := false } now.toNat err).2
  snapshot : snapshotOf s (.setattr f attr now φ err) =
    some ⟨.setattr attr.iaSize.isSome, f, i, sbi, now, φ⟩

lemma cowfsSetattr_cases (env : Env) (s : State) (f : Fid) (attr : Iattr) (now : UInt64)
    (φ : SnapFaults) (err : Status) :
    (cowfsSetattr env s f attr now φ err).2 = s ∧
        (cowfsSetattr env s f attr now φ err).1 ≠ none ∨
      ∃ sbi i, SetattrEffect env s f attr now φ err sbi i := by
  cases hm : s.mount with
  | none => exact .inl (by simp [cowfsSetattr, hm])
  | some sbi =>
    cases hi : s.lower.inodes f with
    | none => exact .inl (by simp [cowfsSetattr, hm, hi])
    | some i =>
      refine .inr ⟨sbi, i, hm, hi, ?_, ?_, ?_, by simp [snapshotOf, hm, hi]⟩
      · cases err <;> simp [cowfsSetattr, hm, hi, notifyChange]
      · unfold Iattr.sizedFile
        cases err <;> cases hsize : attr.iaSize <;> cases hfile : attr.iaFile <;>
          simp [cowfsSetattr, hm, hi, notifyChange, hsize, hfile]
      · simp [cowfsSetattr, hm, hi]

/-- The lower tree after a change of attributes. -/
lemma SetattrEffect.lower_eq {f : Fid} {attr : Iattr} {now : UInt64} {φ : SnapFaults}
    {err : Status} {sbi : SbInfo} {i : Inode} (w : SetattrEffect env s f attr now φ err sbi i) :
    (cowfsSetattr env s f attr now φ err).2.lower =
      if err = none then s.lower.modify f
        (setattrInode { attr with iaFile := none, attrOpen := false } now.toNat)
      else s.lower := by
  rw [w.lower]
  cases err <;> rfl

/-- A change of attributes that returns 0. -/
lemma cowfsSetattr_success {g : Fid} {attr : Iattr} {now : UInt64} {φ : SnapFaults}
    {err : Status} (h : (cowfsSetattr env s g attr now φ err).1 = none) :
    ∃ sbi i, s.mount = some sbi ∧ s.lower.inodes g = some i ∧
      snapshotOf s (.setattr g attr now φ err) =
        some ⟨.setattr attr.iaSize.isSome, g, i, sbi, now, φ⟩ ∧
      (cowfsSetattr env s g attr now φ err).2.lower =
        s.lower.modify g (setattrInode { attr with iaFile := none, attrOpen := false }
          now.toNat) ∧
      ((cowfsSetattr env s g attr now φ err).2.fds = s.fds ∨
        (attr.iaSize.isSome = true ∧ ∃ fd,
          (cowfsSetattr env s g attr now φ err).2.fds = markSnapshot s.fds fd)) := by
  rcases cowfsSetattr_cases env s g attr now φ err with ⟨-, hno⟩ | ⟨sbi, i, w⟩
  · exact absurd h hno
  have herr : err = none := w.status.symm.trans h
  refine ⟨sbi, i, w.mounted, w.exists_, w.snapshot, by rw [w.lower_eq, if_pos herr], ?_⟩
  rw [w.fds, if_pos herr, Iattr.sizedFile]
  split
  · next hsize =>
    cases attr.iaFile with
    | none => exact .inl rfl
    | some fd => exact .inr ⟨hsize, fd, rfl⟩
  · exact .inl rfl

end Cowfs
