import Cowfs.Properties.Rollback

/-!
# What a call does to the files of the lower tree

For results about the identity and the attributes of files it is enough to know, of any call, that
the files there keep their inode numbers, that no file gets its names back once it has none, that
at most one file is made and with which number, and whose attributes may have changed.  `TreeKept`
is the part about the files there, `TreeEffect` adds the new one, and `step_effect` proves it of
every call.
-/

namespace Cowfs

variable {env : Env} {s : State} {l l' l'' : Lower} {A : Fid → Prop}

/-- The modes and owners agree. -/
structure Inode.SameOwner (i j : Inode) : Prop where
  mode : i.mode = j.mode
  uid : i.uid = j.uid
  gid : i.gid = j.gid

lemma Inode.SameOwner.refl (i : Inode) : i.SameOwner i := ⟨rfl, rfl, rfl⟩

lemma Inode.SameOwner.trans {i j k : Inode} (h : i.SameOwner j) (h' : j.SameOwner k) :
    i.SameOwner k :=
  ⟨h.mode.trans h'.mode, h.uid.trans h'.uid, h.gid.trans h'.gid⟩

/-- Some name leads to `f`. -/
def Linked (l : Lower) (f : Fid) : Prop := ∃ d n, l.entries d n = some f

/-- The files of `l` keep their numbers and, outside of `A`, their modes and owners; no other file
gets a name. -/
structure TreeKept (A : Fid → Prop) (l l' : Lower) : Prop where
  linked : ∀ f, Linked l' f → Linked l f
  inodes : ∀ f i, l.inodes f = some i →
    ∃ i', l'.inodes f = some i' ∧ i'.ino = i.ino ∧ (¬ A f → i'.SameOwner i)

/-- As `TreeKept`, with at most one new file, whose number is the one given. -/
inductive TreeEffect (A : Fid → Prop) (l : Lower) (ino : Option UInt64) : Lower → Prop
  | kept {l' : Lower} (h : TreeKept A l l') : TreeEffect A l ino l'
  | made {l₁ l' : Lower} (h : TreeKept A l l₁) (dir : Fid) (name : CStr) (i : Inode)
      (hino : ino = some i.ino) (hafter : TreeKept A (l₁.addNode dir name i) l') :
      TreeEffect A l ino l'

/-! ## Elementary changes -/

lemma TreeKept.refl (A : Fid → Prop) (l : Lower) : TreeKept A l l :=
  ⟨fun _ h => h, fun _ i h => ⟨i, h, rfl, fun _ => .refl i⟩⟩

lemma TreeKept.trans (h : TreeKept A l l') (h' : TreeKept A l' l'') : TreeKept A l l'' where
  linked f hf := h.linked f (h'.linked f hf)
  inodes f i hi := by
    obtain ⟨i', hi', hino, hup⟩ := h.inodes f i hi
    obtain ⟨i'', hi'', hino', hup'⟩ := h'.inodes f i' hi'
    exact ⟨i'', hi'', hino'.trans hino, fun hA => (hup' hA).trans (hup hA)⟩

/-- A change of entries that gives a name only to files that have one. -/
lemma TreeKept.of_entries (hinodes : l'.inodes = l.inodes)
    (hlinked : ∀ d n f, l'.entries d n = some f → Linked l f) : TreeKept A l l' where
  linked := fun f ⟨d, n, h⟩ => hlinked d n f h
  inodes f i hi := ⟨i, by rw [hinodes, hi], rfl, fun _ => .refl i⟩

lemma TreeKept.modify {f : Fid} {g : Inode → Inode} (hino : ∀ i, (g i).ino = i.ino)
    (hup : ¬ A f → ∀ i, l.inodes f = some i → (g i).SameOwner i) :
    TreeKept A l (l.modify f g) where
  linked _ h := h
  inodes f' i hi := by
    by_cases hf : f' = f
    · subst hf
      exact ⟨g i, by rw [Lower.modify_inodes_self, hi]; rfl, hino i, fun hA => hup hA i hi⟩
    · exact ⟨i, by rw [Lower.modify_inodes_of_ne hf, hi], rfl, fun _ => .refl i⟩

lemma TreeKept.setData (f : Fid) (data : Content) (now : ℕ) :
    TreeKept A l (l.setData f data now) :=
  .modify (fun _ => rfl) fun _ _ _ => ⟨rfl, rfl, rfl⟩

lemma TreeKept.dropEntry (dir : Fid) (name : CStr) : TreeKept A l (l.dropEntry dir name) := by
  refine .of_entries rfl fun d n f h => ?_
  rw [Lower.dropEntry_entries] at h
  split at h
  · cases h
  · exact ⟨d, n, h⟩

lemma TreeKept.moveEntry {d₁ d₂ : Fid} {n₁ n₂ : CStr} {f : Fid} (h₁ : l.entries d₁ n₁ = some f) :
    TreeKept A l (l.moveEntry d₁ n₁ d₂ n₂ f (l.linked _ _ _ h₁)) := by
  refine .of_entries rfl fun d n g h => ?_
  rw [Lower.moveEntry_entries] at h
  split at h
  · exact ⟨d₁, n₁, h₁.trans h⟩
  split at h
  · cases h
  · exact ⟨d, n, h⟩

lemma Lower.swapEntries_entries (l : Lower) (d₁ : Fid) (n₁ : CStr) (d₂ : Fid) (n₂ : CStr)
    (f g : Fid) (hf : (l.inodes f).isSome) (hg : (l.inodes g).isSome) (d : Fid) (n : CStr) :
    (l.swapEntries d₁ n₁ d₂ n₂ f g hf hg).entries d n =
      if d = d₂ ∧ n = n₂ then some f
      else if d = d₁ ∧ n = n₁ then some g else l.entries d n := rfl

lemma TreeKept.swapEntries {d₁ d₂ : Fid} {n₁ n₂ : CStr} {f g : Fid}
    (h₁ : l.entries d₁ n₁ = some f) (h₂ : l.entries d₂ n₂ = some g) :
    TreeKept A l
      (l.swapEntries d₁ n₁ d₂ n₂ f g (l.linked _ _ _ h₁) (l.linked _ _ _ h₂)) := by
  refine .of_entries rfl fun d n k h => ?_
  rw [Lower.swapEntries_entries] at h
  split at h
  · exact ⟨d₁, n₁, h₁.trans h⟩
  split at h
  · exact ⟨d₂, n₂, h₂.trans h⟩
  · exact ⟨d, n, h⟩

/-! ## The calls of the lower file system -/

/-- The number a rollback may give to a new file. -/
def RollbackFaults.newIno (φ : RollbackFaults) : Option UInt64 :=
  if φ.create = none then some φ.ino else none

/-- The number a call may give to a new file. -/
def Op.newIno : Op → Option UInt64
  | .make _ _ _ _ _ ino _ err => if err = none then some ino else none
  | .rename _ _ _ _ flags ino _ _ err =>
    if flags.whiteout = true ∧ err = none then some ino else none
  | .rollback _ _ φ => φ.newIno
  | _ => none

/-- Saved attributes that are those of the file. -/
def Kstat.OwnerOf (k : Kstat) (i : Inode) : Prop := k.mode = i.mode ∧ k.uid = i.uid ∧ k.gid = i.gid

/-- The files whose mode and owner a call may change. -/
def Op.Touches (env : Env) (s : State) (op : Op) (f : Fid) : Prop :=
  match op with
  | .setattr g _ _ _ err => f = g ∧ err = none
  | .rollback path timestamp φ =>
    ∃ p v, chosen env s path timestamp φ = .ok (.found p v) ∧ v.opType = .setattr ∧
      φ.notify = none ∧ f = p.file ∧ ∀ i, s.lower.inodes f = some i → ¬ v.savedStat.OwnerOf i
  | _ => False

variable {o : Option UInt64}

lemma TreeEffect.same : TreeEffect A l o l := .kept (.refl A l)

lemma TreeEffect.trans (h : TreeEffect A l o l') (h' : TreeKept A l' l'') :
    TreeEffect A l o l'' := by
  cases h with
  | kept h => exact .kept (h.trans h')
  | made h dir name i hino hafter => exact .made h dir name i hino (hafter.trans h')

lemma TreeEffect.inodes (h : TreeEffect A l o l') {f : Fid} {i : Inode}
    (hi : l.inodes f = some i) :
    ∃ i', l'.inodes f = some i' ∧ i'.ino = i.ino ∧ (¬ A f → i'.SameOwner i) := by
  cases h with
  | kept h => exact h.inodes f i hi
  | @made l₁ _ h dir name j _ hafter =>
    obtain ⟨i₁, hi₁, hino₁, hsame₁⟩ := h.inodes f i hi
    have hne : f ≠ l₁.next := Lower.ne_next_of_isSome (by simp [hi₁])
    obtain ⟨i', hi', hino', hsame'⟩ := hafter.inodes f i₁ (by
      rw [Lower.addNode_inodes_of_ne hne, hi₁])
    exact ⟨i', hi', hino'.trans hino₁, fun hA => (hsame' hA).trans (hsame₁ hA)⟩

lemma effect_vfsMake (type : Umode) (dir : Fid) (name : CStr) (mode : Umode) (cred : Cred)
    (ino : UInt64) (now : ℕ) (err : Status) :
    TreeEffect A l (if err = none then some ino else none)
      (vfsMake type l dir name mode cred ino now err).2 := by
  rcases h : vfsMake type l dir name mode cred ino now err with ⟨_ | e, l'⟩
  · obtain ⟨-, rfl, rfl⟩ := vfsMake_success h
    exact .made (.refl A l) dir name _ rfl (.refl A _)
  · rw [vfsMake_failure h]
    exact .same

lemma effect_vfsRename (d₁ : Fid) (n₁ : CStr) (d₂ : Fid) (n₂ : CStr) (flags : RenameFlags)
    (ino : UInt64) (now : ℕ) (err : Status) :
    TreeEffect A l (if flags.whiteout = true ∧ err = none then some ino else none)
      (vfsRename l d₁ n₁ d₂ n₂ flags ino now err).2 := by
  have h := vfsRename_cases l d₁ n₁ d₂ n₂ flags ino now err
  generalize (vfsRename l d₁ n₁ d₂ n₂ flags ino now err).1 = r at h
  generalize (vfsRename l d₁ n₁ d₂ n₂ flags ino now err).2 = l' at h ⊢
  cases h with
  | refused => exact .same
  | linked => exact .same
  | exchanged h₁ h₂ => exact .kept (.swapEntries h₁ h₂)
  | moved h₁ => exact .kept (.moveEntry h₁)
  | whitened h₁ _ _ _ hwhite herr =>
    exact .made (.moveEntry h₁) d₁ n₁ (whiteoutInode ino now)
      (by simp [hwhite, herr, whiteoutInode]) (.refl A _)

lemma kept_restore (env : Env) (st : Store) (l : Lower) (path : CStr) (f : Fid) (now : ℕ)
    (φ : CopyFaults) : TreeKept A l (shadowRestoreFile env st l path f now φ).2 := by
  rcases restore_frame env st l path f now φ with h | ⟨data, h⟩
  · rw [h]
    exact .refl A l
  · rw [h]
    exact .setData f data now

lemma kept_notify {f : Fid} {attr : Iattr} {now : ℕ} {err : Status}
    (hf : ¬ A f → err = none → ∀ i, l.inodes f = some i → (setattrInode attr now i).SameOwner i) :
    TreeKept A l (notifyChange l f attr now err).2 := by
  cases err with
  | some e => exact .refl A l
  | none => exact .modify (fun _ => rfl) fun hA => hf hA rfl

lemma effect_recreate (env : Env) (s : State) (dir : Fid) (name : CStr) (v : CowVersion)
    (φ : RollbackFaults) :
    TreeEffect A s.lower φ.newIno (recreate env s dir name v φ).2 := by
  cases herr : (recreate env s dir name v φ).1 with
  | some e =>
    rw [recreate_failure (by simp [herr])]
    exact .same
  | none =>
    obtain ⟨-, hcreate, hlower⟩ := recreate_success herr
    rw [hlower, RollbackFaults.newIno, if_pos hcreate]
    have hmade : TreeEffect A s.lower (some φ.ino) (withNewFile s.lower dir name v φ) :=
      .made (.refl A _) dir name _ rfl (.refl A _)
    split
    · exact hmade.trans (kept_restore _ _ _ _ _ _ _)
    · exact hmade

lemma kept_vfsLink {f : Fid} (hf : Linked l f) (dir : Fid) (name : CStr) (err : Status) :
    TreeKept A l (vfsLink l f dir name err).2 := by
  unfold vfsLink
  split
  · exact .refl A l
  split
  · exact .refl A l
  split
  · refine .of_entries rfl fun d n g h => ?_
    rw [Lower.setEntry_entries] at h
    split at h
    · exact Option.some.inj h ▸ hf
    · exact ⟨d, n, h⟩
  · exact .refl A l

lemma kept_vfsUnlink (dir : Fid) (name : CStr) (err : Status) :
    TreeKept A l (vfsUnlink l dir name err).2 := by
  unfold vfsUnlink
  repeat' split
  all_goals first | exact .refl A l | exact .dropEntry dir name

lemma kept_vfsRmdir (dir : Fid) (name : CStr) (err : Status) :
    TreeKept A l (vfsRmdir l dir name err).2 := by
  unfold vfsRmdir
  repeat' split
  all_goals first | exact .refl A l | exact .dropEntry dir name

/-- A write changes the content of one file. -/
lemma cowfsWrite_lower (env : Env) (s : State) (fd : Fd) (pos : ℕ) (bytes : Content)
    (now : UInt64) (φ : SnapFaults) (err : Status) :
    (cowfsWrite env s fd pos bytes now φ err).2.lower = s.lower ∨
      ∃ f data, (cowfsWrite env s fd pos bytes now φ err).2.lower =
        s.lower.setData f data now.toNat := by
  unfold cowfsWrite
  split
  · next sbi fi _ _ =>
    split
    · exact .inl rfl
    · by_cases hw : fi.writable
      · rw [if_pos hw]
        cases err with
        | some e => split_ifs <;> exact .inl rfl
        | none => split_ifs <;> exact .inr ⟨_, _, rfl⟩
      · rw [if_neg hw]
        split_ifs <;> exact .inl rfl
  · exact .inl rfl

/-! ## The calls of the mount -/

lemma effect_dispatch (env : Env) (s : State) (p : Place) (v : CowVersion) (φ : RollbackFaults) :
    TreeEffect A s.lower φ.newIno (rollbackDispatch env s p v φ).2 := by
  unfold rollbackDispatch
  split
  · rw [rollbackUnlink_eq]
    cases φ.lookup with
    | some e => exact .same
    | none => exact effect_recreate env s p.dir v.origName v φ
  split
  · exact .kept (kept_restore _ _ _ _ _ _ _)
  split
  · unfold rollbackRename
    cases φ.lookup with
    | some e => exact .same
    | none =>
      -- without a whiteout no file is made
      have h : TreeEffect A s.lower none _ := effect_vfsRename p.dir p.name p.dir v.origName
        RenameFlags.zero φ.ino φ.now φ.rename
      cases h with
      | kept h => exact .kept h
      | made _ _ _ _ hino => cases hino
  · exact .same

lemma effect_act {path : CStr} {timestamp : UInt64} {φ : RollbackFaults} {c : Choice}
    (hc : chosen env s path timestamp φ = .ok c) :
    TreeEffect (Op.Touches env s (.rollback path timestamp φ)) s.lower φ.newIno
      (act env s φ c).2.lower := by
  cases c with
  | deleted dir base v =>
    unfold act
    cases φ.lookup with
    | some e => exact .same
    | none => exact effect_recreate env s dir base v φ
  | found p v =>
    show TreeEffect _ _ _ (rollbackVersion env s p v φ).2.lower
    rw [rollbackVersion_lower]
    split
    · next h =>
      refine (effect_dispatch env s p v φ).trans (kept_notify fun hA hnotify i' hi' => ?_)
      -- the saved attributes are those the file has
      have hsaved : ∃ i, s.lower.inodes p.file = some i ∧ v.savedStat.OwnerOf i := by
        by_contra hno
        push Not at hno
        exact hA ⟨p, v, hc, h.2, hnotify, rfl, hno⟩
      obtain ⟨i, hi, hmode, huid, hgid⟩ := hsaved
      have hkept : TreeEffect (fun _ => False) s.lower _ _ := effect_dispatch env s p v φ
      obtain ⟨j, hj, -, hsame⟩ := hkept.inodes hi
      obtain rfl := Option.some.inj (hj.symm.trans hi')
      have hij := hsame id
      exact ⟨hmode.trans hij.mode.symm, huid.trans hij.uid.symm, hgid.trans hij.gid.symm⟩
    · exact effect_dispatch env s p v φ

/-- A link is made of a file that has a name. -/
def Op.LinksNamed (l : Lower) : Op → Prop
  | .link f _ _ _ => Linked l f
  | _ => True

/-- **The effect of a call on the files.** -/
theorem step_effect (env : Env) (s : State) (op : Op) (hlink : op.LinksNamed s.lower) :
    TreeEffect (op.Touches env s) s.lower op.newIno (step env s op).lower := by
  cases op with
  | mount lowerdir err shadowErr =>
    show TreeEffect _ _ _ (cowfsMount env s lowerdir err shadowErr).2.lower
    unfold cowfsMount
    repeat' split
    all_goals exact .same
  | umount => exact .same
  | «open» fd f writable err =>
    show TreeEffect _ _ _ (cowfsOpen s fd f writable err).2.lower
    unfold cowfsOpen
    split <;> exact .same
  | release fd => exact .same
  | write fd pos bytes now φ err =>
    show TreeEffect _ _ _ (cowfsWrite env s fd pos bytes now φ err).2.lower
    rcases cowfsWrite_lower env s fd pos bytes now φ err with h | ⟨f, data, h⟩
    · rw [h]
      exact .same
    · rw [h]
      exact .kept (.setData f data now.toNat)
  | make type dir name mode cred ino now err =>
    show TreeEffect _ _ _ (cowfsMake s type dir name mode cred ino now err).2.lower
    unfold cowfsMake
    cases s.mount with
    | none => exact .same
    | some sbi => exact effect_vfsMake type dir name mode cred ino now.toNat err
  | link f dir name err =>
    show TreeEffect _ _ _ (cowfsLink s f dir name err).2.lower
    unfold cowfsLink
    cases s.mount with
    | none => exact .same
    | some sbi => exact .kept (kept_vfsLink hlink dir name err)
  | rmdir dir name err =>
    show TreeEffect _ _ _ (cowfsRmdir s dir name err).2.lower
    unfold cowfsRmdir
    cases s.mount with
    | none => exact .same
    | some sbi => exact .kept (kept_vfsRmdir dir name err)
  | unlink dir name now φ err =>
    show TreeEffect _ _ _ (cowfsUnlink env s dir name now φ err).2.lower
    unfold cowfsUnlink
    split
    · exact .kept (kept_vfsUnlink dir name err)
    · exact .same
  | rename d₁ n₁ d₂ n₂ flags ino now φ err =>
    show TreeEffect _ _ _ (cowfsRename env s d₁ n₁ d₂ n₂ flags ino now φ err).2.lower
    unfold cowfsRename
    split
    · exact effect_vfsRename d₁ n₁ d₂ n₂ flags ino now.toNat err
    · exact .same
  | setattr f attr now φ err =>
    show TreeEffect _ _ _ (cowfsSetattr env s f attr now φ err).2.lower
    unfold cowfsSetattr
    split
    · exact .kept (kept_notify fun hA herr => absurd ⟨rfl, herr⟩ hA)
    · exact .same
  | rollback path timestamp φ =>
    show TreeEffect _ _ _ (ioctlRollback env s path timestamp φ).2.lower
    rw [ioctlRollback_eq]
    cases hc : chosen env s path timestamp φ with
    | error e => exact .same
    | ok c => exact effect_act hc
  | gc now windowSeconds fail =>
    rw [step_gc]
    exact .same

/-! ## Numbers -/

/-- The files that have a name, and those kept without one. -/
def Alive (P : Fid → Prop) (l : Lower) (f : Fid) : Prop := Linked l f ∨ P f

/-- The files there have different numbers. -/
def DistinctNumbers (P : Fid → Prop) (l : Lower) : Prop :=
  ∀ f g, Alive P l f → Alive P l g → l.inoOf f = l.inoOf g → f = g

/-- No file there has the number `n`. -/
def Unused (P : Fid → Prop) (l : Lower) (n : UInt64) : Prop := ∀ f, Alive P l f → l.inoOf f ≠ n

variable {P P' : Fid → Prop}

lemma Linked.isSome {f : Fid} (h : Linked l f) : (l.inodes f).isSome := by
  obtain ⟨d, n, h⟩ := h
  exact l.linked d n f h

lemma Alive.isSome (hP : ∀ f, P f → (l.inodes f).isSome) {f : Fid} (h : Alive P l f) :
    (l.inodes f).isSome :=
  h.elim Linked.isSome (hP f)

lemma Alive.lt_next (hP : ∀ f, P f → (l.inodes f).isSome) {f : Fid}
    (h : Alive P l f) : f < l.next := by
  by_contra hle
  have hsome := h.isSome hP
  rw [l.fresh f (not_lt.1 hle)] at hsome
  cases hsome

/-- A file that is there keeps its number. -/
lemma TreeEffect.inoOf (h : TreeEffect A l o l') {f : Fid} (hf : (l.inodes f).isSome) :
    l'.inoOf f = l.inoOf f := by
  obtain ⟨i, hi⟩ := Option.isSome_iff_exists.1 hf
  obtain ⟨i', hi', hino, -⟩ := h.inodes hi
  simp [Lower.inoOf, hi, hi', hino]

/-- A file with a name had one, or is the new file. -/
lemma TreeEffect.linked (h : TreeEffect A l o l') :
    ∃ new, ∀ f, Linked l' f → Linked l f ∨
      (f = new ∧ l.inodes f = none ∧ o = some (l'.inoOf f)) := by
  cases h with
  | kept h => exact ⟨0, fun f hf => .inl (h.linked f hf)⟩
  | @made l₁ _ h dir name i hino hafter =>
    refine ⟨l₁.next, fun f hf => ?_⟩
    obtain ⟨d, n, hentry⟩ := hafter.linked f hf
    rw [Lower.addNode_entries] at hentry
    split at hentry
    · obtain rfl := Option.some.inj hentry
      obtain ⟨i', hi', hino', -⟩ := hafter.inodes l₁.next i (l₁.addNode_inodes_next dir name i)
      refine .inr ⟨rfl, ?_, by simp [hino, Lower.inoOf, hi', hino']⟩
      by_contra hsome
      obtain ⟨j, hj⟩ := Option.ne_none_iff_exists'.1 hsome
      obtain ⟨j', hj', -⟩ := h.inodes _ j hj
      simp [l₁.fresh l₁.next le_rfl] at hj'
    · exact .inl (h.linked f ⟨d, n, hentry⟩)

lemma TreeEffect.alive (h : TreeEffect A l o l') (hP : ∀ f, P' f → Alive P l f) :
    ∃ new, ∀ f, Alive P' l' f → Alive P l f ∨
      (f = new ∧ l.inodes f = none ∧ o = some (l'.inoOf f)) := by
  obtain ⟨new, hnew⟩ := h.linked
  refine ⟨new, fun f hf => ?_⟩
  rcases hf with hf | hf
  · exact (hnew f hf).imp_left .inl
  · exact .inl (hP f hf)

lemma TreeEffect.distinct (h : TreeEffect A l o l') (hP : ∀ f, P' f → Alive P l f)
    (hthere : ∀ f, P f → (l.inodes f).isSome) (hd : DistinctNumbers P l)
    (hunused : ∀ n, o = some n → Unused P l n) : DistinctNumbers P' l' := by
  obtain ⟨new, hnew⟩ := h.alive hP
  intro f g hf hg he
  rcases hnew f hf with hf' | ⟨rfl, -, hof⟩ <;> rcases hnew g hg with hg' | ⟨rfl, -, hog⟩
  · refine hd f g hf' hg' ?_
    rwa [h.inoOf (hf'.isSome hthere), h.inoOf (hg'.isSome hthere)] at he
  · exact absurd ((h.inoOf (hf'.isSome hthere)).symm.trans he) (hunused _ hog f hf')
  · exact absurd ((h.inoOf (hg'.isSome hthere)).symm.trans he.symm) (hunused _ hof g hg')
  · rfl

end Cowfs
