import Cowfs.Construction.Ctl

/-!
# What the calls of the lower file system do

One inversion lemma for each `vfs_*` call whose effect the later modules reason about: every
way in which the call can return, with the tree it leaves.  `vfs_rename` has five: it is
refused, it finds two links of one file and does nothing, it exchanges two entries, it moves
an entry, or it moves it and leaves a whiteout.
-/

namespace Cowfs

variable {l l' : Lower}

/-- A successful `vfs_create` (or `vfs_mkdir`, `vfs_symlink`) fills a free name. -/
lemma vfsMake_success {type : Umode} {dir : Fid} {name : CStr} {mode : Umode} {cred : Cred}
    {ino : UInt64} {now : ℕ} {err : Status}
    (h : vfsMake type l dir name mode cred ino now err = (none, l')) :
    l.entries dir name = none ∧ err = none ∧
      l' = l.addNode dir name (newInode l dir type mode cred ino now) := by
  unfold vfsMake at h
  split at h
  · cases h
  next hent =>
    split at h
    · cases h
    · cases h
      exact ⟨by simpa using hent, rfl, rfl⟩

lemma vfsMake_failure {type : Umode} {dir : Fid} {name : CStr} {mode : Umode} {cred : Cred}
    {ino : UInt64} {now : ℕ} {err : Status} {e : Errno}
    (h : vfsMake type l dir name mode cred ino now err = (some e, l')) : l' = l := by
  unfold vfsMake at h
  split at h
  · cases h
    rfl
  · split at h
    · cases h
      rfl
    · cases h

/-- The ways in which `vfs_rename` returns. -/
inductive Renamed (l : Lower) (d₁ : Fid) (n₁ : CStr) (d₂ : Fid) (n₂ : CStr)
    (flags : RenameFlags) (ino : UInt64) (now : ℕ) (err : Status) : Status → Lower → Prop
  | refused (e : Errno) : Renamed l d₁ n₁ d₂ n₂ flags ino now err (some e) l
  | linked {f : Fid} (h₁ : l.entries d₁ n₁ = some f) (h₂ : l.entries d₂ n₂ = some f) :
      Renamed l d₁ n₁ d₂ n₂ flags ino now err none l
  | exchanged {f g : Fid} (h₁ : l.entries d₁ n₁ = some f) (h₂ : l.entries d₂ n₂ = some g)
      (hne : g ≠ f) (hflag : flags.exchange = true) (herr : err = none) :
      Renamed l d₁ n₁ d₂ n₂ flags ino now err none
        (l.swapEntries d₁ n₁ d₂ n₂ f g (l.linked _ _ _ h₁) (l.linked _ _ _ h₂))
  | moved {f : Fid} (h₁ : l.entries d₁ n₁ = some f) (hne : l.entries d₂ n₂ ≠ some f)
      (hok : renameRefused l f (l.entries d₂ n₂) flags = none)
      (hflag : flags.exchange = false) (hwhite : flags.whiteout = false) (herr : err = none) :
      Renamed l d₁ n₁ d₂ n₂ flags ino now err none
        (l.moveEntry d₁ n₁ d₂ n₂ f (l.linked _ _ _ h₁))
  | whitened {f : Fid} (h₁ : l.entries d₁ n₁ = some f) (hne : l.entries d₂ n₂ ≠ some f)
      (hok : renameRefused l f (l.entries d₂ n₂) flags = none)
      (hflag : flags.exchange = false) (hwhite : flags.whiteout = true) (herr : err = none) :
      Renamed l d₁ n₁ d₂ n₂ flags ino now err none
        ((l.moveEntry d₁ n₁ d₂ n₂ f (l.linked _ _ _ h₁)).addNode d₁ n₁ (whiteoutInode ino now))

/-- **What `vfs_rename` can do.** -/
theorem vfsRename_cases (l : Lower) (d₁ : Fid) (n₁ : CStr) (d₂ : Fid) (n₂ : CStr)
    (flags : RenameFlags) (ino : UInt64) (now : ℕ) (err : Status) :
    Renamed l d₁ n₁ d₂ n₂ flags ino now err (vfsRename l d₁ n₁ d₂ n₂ flags ino now err).1
      (vfsRename l d₁ n₁ d₂ n₂ flags ino now err).2 := by
  unfold vfsRename
  split
  · exact .refused _
  next f h₁ =>
    split
    · next h₂ => exact .linked h₁ h₂
    next hne =>
      split
      · exact .refused _
      · exact .refused _
      next hok =>
        split
        · next hflag =>
          split
          · exact .refused _
          · next g h₂ =>
            have hg : g ≠ f := fun he => hne (he ▸ h₂)
            exact .exchanged h₁ h₂ hg hflag rfl
        · next hflag =>
          have hflag' : flags.exchange = false := by simpa using hflag
          dsimp only
          split
          · next hwhite => exact .whitened h₁ hne hok hflag' hwhite rfl
          · next hwhite =>
            have hwhite' : flags.whiteout = false := by simpa using hwhite
            exact .moved h₁ hne hok hflag' hwhite' rfl

/-- Without flags and failures, what is not refused moves. -/
lemma vfsRename_of_allowed {d₁ : Fid} {n₁ : CStr} {d₂ : Fid} {n₂ : CStr} {f : Fid} (ino : UInt64)
    (now : ℕ) (h₁ : l.entries d₁ n₁ = some f) (hne : l.entries d₂ n₂ ≠ some f)
    (hok : renameRefused l f (l.entries d₂ n₂) RenameFlags.zero = none) :
    vfsRename l d₁ n₁ d₂ n₂ RenameFlags.zero ino now none =
      (none, l.moveEntry d₁ n₁ d₂ n₂ f (l.linked _ _ _ h₁)) := by
  unfold vfsRename
  split
  · next hnone =>
    rw [h₁] at hnone
    cases hnone
  · next g hg =>
    obtain rfl : f = g := Option.some.inj (h₁.symm.trans hg)
    rw [if_neg hne]
    simp only [hok]
    rfl

/-- A failed call leaves the tree alone. -/
lemma vfsRename_failure {d₁ : Fid} {n₁ : CStr} {d₂ : Fid} {n₂ : CStr} {flags : RenameFlags}
    {ino : UInt64} {now : ℕ} {err : Status}
    (h : (vfsRename l d₁ n₁ d₂ n₂ flags ino now err).1 ≠ none) :
    (vfsRename l d₁ n₁ d₂ n₂ flags ino now err).2 = l := by
  have hcases := vfsRename_cases l d₁ n₁ d₂ n₂ flags ino now err
  generalize (vfsRename l d₁ n₁ d₂ n₂ flags ino now err).1 = r at hcases h
  generalize (vfsRename l d₁ n₁ d₂ n₂ flags ino now err).2 = l' at hcases ⊢
  cases hcases with
  | refused => rfl
  | linked => rfl
  | exchanged => exact absurd rfl h
  | moved => exact absurd rfl h
  | whitened => exact absurd rfl h

/-- Within one directory and without flags a rename that returns 0 leaves the file under its
new name, and it keeps all inodes. -/
lemma vfsRename_plain {d : Fid} {n₁ n₂ : CStr} {f : Fid} {ino : UInt64} {now : ℕ} {err : Status}
    (hf : l.entries d n₁ = some f)
    (h : (vfsRename l d n₁ d n₂ RenameFlags.zero ino now err).1 = none) :
    (vfsRename l d n₁ d n₂ RenameFlags.zero ino now err).2.entries d n₂ = some f ∧
      (vfsRename l d n₁ d n₂ RenameFlags.zero ino now err).2.inodes = l.inodes := by
  have hcases := vfsRename_cases l d n₁ d n₂ RenameFlags.zero ino now err
  generalize (vfsRename l d n₁ d n₂ RenameFlags.zero ino now err).1 = r at hcases h
  generalize (vfsRename l d n₁ d n₂ RenameFlags.zero ino now err).2 = l' at hcases ⊢
  cases hcases with
  | refused => cases h
  | linked h₁ h₂ => exact ⟨h₂.trans (h₁.symm.trans hf), rfl⟩
  | exchanged _ _ _ hflag _ => cases hflag
  | @moved g h₁ =>
    obtain rfl : f = g := Option.some.inj (hf.symm.trans h₁)
    exact ⟨by rw [Lower.moveEntry_entries, if_pos ⟨rfl, rfl⟩], rfl⟩
  | whitened _ _ _ _ hwhite _ => cases hwhite

/-! ## Changing a file -/

lemma inoOf_eq {l : Lower} {f : Fid} {i : Inode} (h : l.inodes f = some i) : l.inoOf f = i.ino := by
  rw [Lower.inoOf, h]
  rfl

lemma content_eq {l : Lower} {f : Fid} {i : Inode} (h : l.inodes f = some i) :
    l.content f = i.data := by
  rw [Lower.content, h]
  rfl

lemma getattr_eq {l : Lower} {f : Fid} {i : Inode} (h : l.inodes f = some i) :
    l.getattr f = ⟨i.mode, i.uid, i.gid, i.mtime⟩ := by
  rw [Lower.getattr, h]
  rfl

lemma inoOf_modify {l : Lower} {g : Inode → Inode} (hg : ∀ i, (g i).ino = i.ino) (f f' : Fid) :
    (l.modify f g).inoOf f' = l.inoOf f' := by
  unfold Lower.inoOf
  by_cases he : f' = f
  · subst he
    cases hi : l.inodes f' <;> simp [hi, hg]
  · rw [Lower.modify_inodes_of_ne he]

lemma content_modify_of_ne {f f' : Fid} (h : f' ≠ f) (g : Inode → Inode) :
    (l.modify f g).content f' = l.content f' := by
  unfold Lower.content
  rw [Lower.modify_inodes_of_ne h]

lemma inoOf_setData (l : Lower) (f : Fid) (data : Content) (now : ℕ) (g : Fid) :
    (l.setData f data now).inoOf g = l.inoOf g :=
  inoOf_modify (g := fun i => { i with data := data, mtime := now }) (fun _ => rfl) f g

lemma content_setData_of_ne {f g : Fid} (h : g ≠ f) (data : Content) (now : ℕ) :
    (l.setData f data now).content g = l.content g :=
  content_modify_of_ne h _

lemma inoOf_setattr (l : Lower) (f : Fid) (attr : Iattr) (now : ℕ) (g : Fid) :
    (l.modify f (setattrInode attr now)).inoOf g = l.inoOf g :=
  inoOf_modify (g := setattrInode attr now) (fun _ => rfl) f g

/-- A change of attributes without a size keeps the contents. -/
lemma content_setattr_of_unsized (l : Lower) (f g : Fid) {attr : Iattr} (now : ℕ)
    (h : attr.iaSize = none) : (l.modify f (setattrInode attr now)).content g = l.content g := by
  by_cases hg : g = f
  · subst hg
    unfold Lower.content
    cases hi : l.inodes g <;> simp [hi, setattrInode, h]
  · exact content_modify_of_ne hg _

/-- A change of content keeps modes and owners. -/
lemma setData_getattr (l : Lower) (f : Fid) (data : Content) (now : ℕ) (g : Fid) :
    ((l.setData f data now).getattr g).mode = (l.getattr g).mode ∧
      ((l.setData f data now).getattr g).uid = (l.getattr g).uid ∧
      ((l.setData f data now).getattr g).gid = (l.getattr g).gid := by
  by_cases hg : g = f
  · subst hg
    cases hi : l.inodes g <;> simp [Lower.getattr, Lower.setData, hi, Kstat.zero]
  · have hi : (l.setData f data now).inodes g = l.inodes g := Lower.modify_inodes_of_ne hg _
    simp [Lower.getattr, hi]

end Cowfs
