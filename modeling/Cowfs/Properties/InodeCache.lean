import Cowfs.Properties.NameCache

/-!
# Permission fields of the cached inodes

`generic_permission` decides by the mode and the owner of the upper inode.  They are copied from
the lower inode in two places: by `cowfs_get_inode` for an inode new to the cache, and by
`cowfs_setattr` when it succeeds.  Three things change the one side without the other: a new lower
file gets a number whose upper inode is still cached (`cowfs_unlink` does not touch the link count,
so the inode of a removed file stays), the rollback of a `COW_OP_SETATTR` version changes the lower
inode alone, after its path walk has brought the upper one into the cache, and the attributes of a
symbolic link are set in the upper inode alone, because `cowfs_symlink_iops` has no `setattr`.
`inSync_run` says that there is no other way, as long as no directory gets a second dentry.
-/

namespace Cowfs

open Upper

variable {env : Env} {s : Upper} {d : Fid} {n : CStr}

/-! ## Statement -/

/-- The upper inode has the type, mode and owner of the lower one. -/
structure UpperInode.Matches (u : UpperInode) (i : Inode) : Prop where
  mode : u.mode = i.mode
  uid : u.uid = i.uid
  gid : u.gid = i.gid

/-- The inodes bound to cached names, and that of the root, match the lower ones; and no directory
has two dentries, the names below which the cache could not tell apart. -/
structure InSync (s : Upper) : Prop where
  names : ∀ d n ino, s.dcache d n = some (some ino) → ∃ f i u,
    s.sys.lower.entries d n = some f ∧ s.sys.lower.inodes f = some i ∧ i.ino = ino ∧
      s.icache ino = some u ∧ u.Matches i
  root : ∀ sbi i, s.sys.mount = some sbi → s.sys.lower.inodes sbi.lowerRoot = some i →
    ∃ u, s.icache i.ino = some u ∧ u.Matches i
  single : ∀ f, ¬ s.aliased f

/-- `f` is the lower directory of the mounted root. -/
def IsRoot (s : State) (f : Fid) : Prop := ∃ sbi, s.mount = some sbi ∧ sbi.lowerRoot = f

/-- A lower tree as it is found: the root is there, and no two files have one number. -/
structure SoundTree (s : State) : Prop where
  root : ∀ f, IsRoot s f → (s.lower.inodes f).isSome
  distinct : DistinctNumbers (IsRoot s) s.lower

/-- The number the lower file system gives to a new file. -/
def UpperOp.newIno : UpperOp → Option UInt64
  | .create _ _ _ _ ino _ err _ => if err = none then some ino else none
  | .mkdir _ _ _ _ ino _ err _ => if err = none then some ino else none
  | .symlink _ _ _ _ ino _ err => if err = none then some ino else none
  | .rename _ _ _ _ flags ino _ _ err =>
    if flags.whiteout = true ∧ err = none then some ino else none
  | .rollback _ _ φ _ => φ.newIno
  | _ => none

/-- What the lower file system and the VFS keep to: a new file does not get the number of a file
that is there, and an inode in use is not evicted. -/
structure Lawful (s : Upper) (op : UpperOp) : Prop where
  number : ∀ ino ∈ op.newIno, Unused (IsRoot s.sys) s.sys.lower ino
  evict : ∀ ino, op = .evict ino → (∀ d n, s.dcache d n ≠ some (some ino)) ∧
    ∀ f, IsRoot s.sys f → s.sys.lower.inoOf f ≠ ino

/-- No inode is cached under the number of a new file; a rollback to a `COW_OP_SETATTR` version
finds the attributes as they were saved; a setattr of a symbolic link finds those it asks for; and
no rollback gives a directory a second dentry. -/
structure KeepsFields (env : Env) (s : Upper) (op : UpperOp) : Prop where
  number : ∀ ino ∈ op.newIno, s.icache ino = none
  rollback : ∀ path timestamp φ opened, op = .rollback path timestamp φ opened →
    ∀ f, ¬ Op.Touches env s.sys (.rollback path timestamp φ) f
  aliases : ∀ path timestamp φ opened, op = .rollback path timestamp φ opened →
    ∀ f, ¬ s.rollbackAliases env path timestamp φ opened f
  symlink : ∀ dentry attr now φ, op = .setattr dentry attr now φ none →
    ∀ f ino u, s.resolve dentry = some (f, ino) → s.icache ino = some u → u.iops = .symlink →
      u.setattr attr = u

/-! ## The invariant -/

/-- Every cached inode matches the file that has its number, if one is there; files in `A` are
left out. -/
def MatchesBut (A : Fid → Prop) (s : Upper) : Prop :=
  ∀ f i u, Alive (IsRoot s.sys) s.sys.lower f → ¬ A f → s.sys.lower.inodes f = some i →
    s.icache i.ino = some u → u.Matches i

structure CacheInv (s : Upper) : Prop where
  tree : SoundTree s.sys
  positive : ∀ d n, AgreesAt False s d n
  bound : ∀ d n ino, s.dcache d n = some (some ino) → (s.icache ino).isSome
  root : ∀ f, IsRoot s.sys f → (s.icache (s.sys.lower.inoOf f)).isSome
  fields : MatchesBut (fun _ => False) s
  single : ∀ f, ¬ s.aliased f

lemma CacheInv.inSync (h : CacheInv s) : InSync s where
  names d n ino hd := by
    have hentry := h.positive d n (some ino) (by simp) hd
    obtain ⟨f, hf, hino⟩ := Option.map_eq_some_iff.1 hentry.symm
    obtain ⟨i, hi⟩ := Option.isSome_iff_exists.1 (s.sys.lower.linked d n f hf)
    rw [inoOf_eq hi] at hino
    obtain ⟨u, hu⟩ := Option.isSome_iff_exists.1 (h.bound d n ino hd)
    exact ⟨f, i, u, hf, hi, hino, hu,
      h.fields f i u (.inl ⟨d, n, hf⟩) id hi (by rw [hino, hu])⟩
  root sbi i hmount hi := by
    have hroot : IsRoot s.sys sbi.lowerRoot := ⟨sbi, hmount, rfl⟩
    have hsome := h.root sbi.lowerRoot hroot
    rw [inoOf_eq hi] at hsome
    obtain ⟨u, hu⟩ := Option.isSome_iff_exists.1 hsome
    exact ⟨u, hu, h.fields sbi.lowerRoot i u (.inr hroot) id hi hu⟩
  single := h.single

/-- Two files that are there with one number are one. -/
lemma SoundTree.eq_of_ino {s : State} (h : SoundTree s) {f g : Fid} {i j : Inode}
    (hf : Alive (IsRoot s) s.lower f) (hg : Alive (IsRoot s) s.lower g)
    (hi : s.lower.inodes f = some i) (hj : s.lower.inodes g = some j) (hino : j.ino = i.ino) :
    g = f :=
  h.distinct g f hg hf (by rw [inoOf_eq hi, inoOf_eq hj, hino])

/-! ## Calls below the caches -/

/-- The calls passed down leave the mount alone, link only files that have a name and use the
numbers they are given. -/
lemma call_spec (env : Env) {op : UpperOp} {o : Op} (h : op.call s = some o) :
    (step env s.sys o).mount = s.sys.mount ∧ o.LinksNamed s.sys.lower ∧
      o.newIno = op.newIno := by
  have hmake : ∀ type dir name mode cred ino now err,
      (step env s.sys (.make type dir name mode cred ino now err)).mount = s.sys.mount := by
    intro type dir name mode cred ino now err
    simp only [step, exec, cowfsMake]
    split <;> rfl
  cases op with
  | create | mkdir | symlink =>
    obtain rfl := Option.some.inj h
    exact ⟨hmake .., trivial, rfl⟩
  | link oldDir old dir name err =>
    obtain ⟨f, hf, rfl⟩ := Option.map_eq_some_iff.1 h
    refine ⟨?_, ⟨oldDir, old, hf⟩, rfl⟩
    simp only [step, exec, Cowfs.cowfsLink]
    split <;> rfl
  | unlink dir name now φ err =>
    obtain rfl := Option.some.inj h
    refine ⟨?_, trivial, rfl⟩
    simp only [step, exec, Cowfs.cowfsUnlink]
    split <;> rfl
  | rmdir dir name err =>
    obtain rfl := Option.some.inj h
    refine ⟨?_, trivial, rfl⟩
    simp only [step, exec, Cowfs.cowfsRmdir]
    split <;> rfl
  | rename d₁ n₁ d₂ n₂ flags ino now φ err =>
    obtain rfl := Option.some.inj h
    refine ⟨?_, trivial, rfl⟩
    simp only [step, exec, Cowfs.cowfsRename]
    split <;> rfl
  | setattr dentry attr now φ err =>
    obtain ⟨⟨f, ino⟩, -, rfl⟩ := Option.map_eq_some_iff.1 h
    refine ⟨?_, trivial, rfl⟩
    simp only [step, exec, Cowfs.cowfsSetattr]
    split <;> rfl
  | rollback path timestamp φ opened =>
    obtain rfl := Option.some.inj h
    obtain ⟨l, hl⟩ := ioctlRollback_frame env s.sys path timestamp φ
    refine ⟨?_, trivial, rfl⟩
    show (ioctlRollback env s.sys path timestamp φ).2.mount = _
    rw [hl]
  | lookup | lookupShadow | drop | dropShadow | evict => cases h

section Below

variable {o : Op}

lemma isRoot_below (hmount : (step env s.sys o).mount = s.sys.mount) {f : Fid} :
    IsRoot (s.below env o).2.sys f ↔ IsRoot s.sys f := by
  show (∃ sbi, (step env s.sys o).mount = some sbi ∧ _) ↔ _
  rw [hmount]
  rfl

lemma SoundTree.below (h : SoundTree s.sys) (hmount : (step env s.sys o).mount = s.sys.mount)
    (hlink : o.LinksNamed s.sys.lower)
    (hnew : ∀ ino ∈ o.newIno, Unused (IsRoot s.sys) s.sys.lower ino) :
    SoundTree (s.below env o).2.sys where
  root f hf := by
    obtain ⟨i, hi⟩ := Option.isSome_iff_exists.1 (h.root f ((isRoot_below hmount).1 hf))
    obtain ⟨i', hi', -⟩ := (step_effect env s.sys o hlink).inodes hi
    exact Option.isSome_iff_exists.2 ⟨i', hi'⟩
  distinct := (step_effect env s.sys o hlink).distinct
    (fun _ hf => .inr ((isRoot_below hmount).1 hf)) h.root h.distinct hnew

/-- After a call the cached inodes match, but for those of the files it touches. -/
lemma CacheInv.below (h : CacheInv s) (hmount : (step env s.sys o).mount = s.sys.mount)
    (hlink : o.LinksNamed s.sys.lower) (hnew : ∀ ino ∈ o.newIno, s.icache ino = none) :
    MatchesBut (o.Touches env s.sys) (s.below env o).2 := by
  have heffect := step_effect env s.sys o hlink
  have hroots : ∀ f, IsRoot (s.below env o).2.sys f → Alive (IsRoot s.sys) s.sys.lower f :=
    fun _ hf => .inr ((isRoot_below hmount).1 hf)
  obtain ⟨new, halive⟩ := heffect.alive hroots
  intro f i' u hf hA hi' hu
  replace hi' : (step env s.sys o).lower.inodes f = some i' := hi'
  replace hu : s.icache i'.ino = some u := hu
  rcases halive f hf with hf' | ⟨rfl, -, hino⟩
  · obtain ⟨i, hi⟩ := Option.isSome_iff_exists.1 (hf'.isSome h.tree.root)
    obtain ⟨j, hj, hino, hsame⟩ := heffect.inodes hi
    obtain rfl := Option.some.inj (hj.symm.trans hi')
    rw [hino] at hu
    have hmatch := h.fields f i u hf' id hi hu
    have hij := hsame hA
    exact ⟨hmatch.mode.trans hij.mode.symm, hmatch.uid.trans hij.uid.symm,
      hmatch.gid.trans hij.gid.symm⟩
  · -- the number of a new file was not cached
    rw [inoOf_eq hi'] at hino
    rw [hnew _ hino] at hu
    cases hu

lemma MatchesBut.mono {A B : Fid → Prop} (h : MatchesBut A s) (hAB : ∀ f, A f → B f) :
    MatchesBut B s :=
  fun f i u hf hB => h f i u hf fun hA => hB (hAB f hA)

lemma MatchesBut.same {A : Fid → Prop} {s' : Upper} (h : MatchesBut A s)
    (hlower : s'.sys.lower = s.sys.lower) (hmount : s'.sys.mount = s.sys.mount)
    (hicache : s'.icache = s.icache) : MatchesBut A s' := by
  intro f i u hf hA hi hu
  have hroot : IsRoot s'.sys = IsRoot s.sys := by
    unfold IsRoot
    rw [hmount]
  rw [hroot, hlower] at hf
  rw [hlower] at hi
  rw [hicache] at hu
  exact h f i u hf hA hi hu

end Below

/-! ## The caches grow -/

/-- No inode leaves the cache, and an inode newly bound to a name is in it. -/
structure Grows (s s' : Upper) : Prop where
  icache : ∀ ino, (s.icache ino).isSome → (s'.icache ino).isSome
  dcache : ∀ d n ino, s'.dcache d n = some (some ino) →
    (∃ d' n', s.dcache d' n' = some (some ino)) ∨ (s'.icache ino).isSome

lemma Grows.refl (s : Upper) : Grows s s := ⟨fun _ h => h, fun d n _ h => .inl ⟨d, n, h⟩⟩

lemma Grows.trans {s' s'' : Upper} (h : Grows s s') (h' : Grows s' s'') : Grows s s'' := by
  refine ⟨fun ino hino => h'.icache ino (h.icache ino hino), fun d n ino hd => ?_⟩
  rcases h'.dcache d n ino hd with ⟨d', n', hd'⟩ | hino
  · exact (h.dcache d' n' ino hd').imp_right (h'.icache ino)
  · exact .inr hino

/-- A call below the caches leaves them alone. -/
lemma Grows.below (env : Env) (s : Upper) (o : Op) : Grows s (s.below env o).2 :=
  ⟨fun _ h => h, fun d n _ h => .inl ⟨d, n, h⟩⟩

/-- Dentries may come to be negative or unhashed. -/
lemma Grows.of_dcache {s' : Upper} (hicache : s'.icache = s.icache)
    (hdcache : ∀ d n ino, s'.dcache d n = some (some ino) →
      ∃ d' n', s.dcache d' n' = some (some ino)) : Grows s s' :=
  ⟨fun _ h => hicache ▸ h, fun d n ino h => .inl (hdcache d n ino h)⟩

lemma Grows.setDentry (s : Upper) (d : Fid) (n : CStr) {o : Option Dentry} (ho : o.join = none) :
    Grows s (s.setDentry d n o) := by
  refine .of_dcache rfl fun d' n' ino h => ?_
  by_cases hat : d' = d ∧ n' = n
  · obtain ⟨rfl, rfl⟩ := hat
    rw [setDentry_self] at h
    simp [h] at ho
  · exact ⟨d', n', (setDentry_of_ne hat s o).symm.trans h⟩

lemma Grows.moveDentry (s : Upper) (d₁ : Fid) (n₁ : CStr) (d₂ : Fid) (n₂ : CStr)
    (exchange : Bool) : Grows s (s.moveDentry d₁ n₁ d₂ n₂ exchange) := by
  refine .of_dcache ?_ fun d n ino h => ?_
  · unfold Upper.moveDentry
    split <;> rfl
  · rw [moveDentry_dcache] at h
    split_ifs at h
    · exact ⟨d₂, n₂, h⟩
    · exact ⟨d₁, n₁, h⟩
    · exact ⟨d, n, h⟩

lemma Grows.drops (drops : List (Fid × CStr)) (s : Upper) :
    Grows s (drops.foldl (fun s p => s.setDentry p.1 p.2 none) s) := by
  obtain ⟨-, hicache, hdcache⟩ := drops_frame drops s
  refine .of_dcache hicache fun d n ino h => ⟨d, n, ?_⟩
  rw [hdcache] at h
  split at h
  · cases h
  · exact h

lemma isSome_update {icache : UInt64 → Option UpperInode} {ino ino' : UInt64}
    {o : Option UpperInode} (ho : (icache ino).isSome → o.isSome)
    (h : (icache ino').isSome) : (Function.update icache ino o ino').isSome := by
  by_cases hino : ino' = ino
  · subst hino
    rw [Function.update_self]
    exact ho h
  · rwa [Function.update_of_ne hino]

lemma Grows.instantiate (s : Upper) (d : Fid) (n : CStr) (nomem : Bool) :
    Grows s (s.instantiate d n nomem) := by
  cases nomem with
  | true =>
    rw [instantiate_nomem]
    exact .refl s
  | false =>
    cases hentry : s.sys.lower.entries d n with
    | none =>
      rw [instantiate_absent hentry]
      exact .refl s
    | some f =>
      obtain ⟨i, hi⟩ := Option.isSome_iff_exists.1 (s.sys.lower.linked d n f hentry)
      rw [instantiate_eq hentry hi, if_neg Bool.false_ne_true]
      refine ⟨fun ino h => isSome_update (fun _ => rfl) h, fun d' n' ino h => ?_⟩
      by_cases hat : d' = d ∧ n' = n
      · obtain ⟨rfl, rfl⟩ := hat
        rw [setDentry_self] at h
        obtain rfl := Option.some.inj (Option.some.inj h)
        right
        simp [Upper.setDentry]
      · rw [setDentry_of_ne hat] at h
        exact .inl ⟨d', n', h⟩

lemma Grows.lookup (s : Upper) (d : Fid) (n : CStr) (φ : LookupFaults) :
    Grows s (s.cowfsLookup d n φ) :=
  cowfsLookup_elim (P := Grows s) (.refl s) (fun _ _ => .setDentry s d n rfl)
    fun _ _ => .instantiate s d n φ.inode

/-- The path walks of a rollback, and the dentries it drops. -/
lemma Grows.rollback (env : Env) (s : Upper) (path : CStr) (timestamp : UInt64)
    (φ : RollbackFaults) (opened : Fid → Bool) :
    Grows s (s.rollback env path timestamp φ opened) := by
  have hwalked : Grows s (s.lookUp (rollbackPlaces env s.sys path timestamp φ)) :=
    lookUp_induct (P := Grows s)
      (fun t d n ht => ht.trans (.lookup t d n LookupFaults.clean)) (.refl s) _
  obtain ⟨-, -, hicache, hdcache⟩ := rollbackWalked_frame env
    (s.lookUp (rollbackPlaces env s.sys path timestamp φ)) path timestamp φ
  refine hwalked.trans (.of_dcache hicache fun d n ino h => ⟨d, n, ?_⟩)
  replace h := (hdcache d n).symm.trans h
  split at h
  · cases h
  · exact h

lemma Grows.syncAttrs {f : Fid} (h : (s.sys.lower.inodes f).isSome) (ino : UInt64) :
    Grows s (s.syncAttrs f ino) := by
  refine ⟨fun ino' h' => isSome_update (fun hino => ?_) h', fun d n _ h => .inl ⟨d, n, h⟩⟩
  obtain ⟨u, hu⟩ := Option.isSome_iff_exists.1 hino
  obtain ⟨i, hi⟩ := Option.isSome_iff_exists.1 h
  simp [hu, hi]

lemma Grows.simpleSetattr (s : Upper) (ino : UInt64) (attr : Iattr) (err : Status) :
    Grows s (s.simpleSetattr ino attr err) := by
  cases err with
  | some e => exact .refl s
  | none =>
    refine ⟨fun ino' h' => isSome_update (fun hino => ?_) h', fun d n _ h => .inl ⟨d, n, h⟩⟩
    simpa using hino

/-- What a dentry resolves to. -/
lemma CacheInv.resolve (h : CacheInv s) {dentry : Option (Fid × CStr)} {f : Fid} {ino : UInt64}
    (hdentry : s.resolve dentry = some (f, ino)) :
    Alive (IsRoot s.sys) s.sys.lower f ∧ ∃ i, s.sys.lower.inodes f = some i ∧ i.ino = ino := by
  cases dentry with
  | none =>
    obtain ⟨sbi, hmount, hroot⟩ := Option.bind_eq_some_iff.1 hdentry
    obtain ⟨i, hi, hpair⟩ := Option.map_eq_some_iff.1 hroot
    obtain ⟨rfl, rfl⟩ := Prod.mk.inj hpair
    exact ⟨.inr ⟨sbi, hmount, rfl⟩, i, hi, rfl⟩
  | some p =>
    obtain ⟨d, n⟩ := p
    simp only [Upper.resolve] at hdentry
    split at hdentry
    · next g m hentry hjoin =>
      obtain ⟨rfl, rfl⟩ := Prod.mk.inj (Option.some.inj hdentry)
      obtain ⟨i, hi⟩ := Option.isSome_iff_exists.1 (s.sys.lower.linked d n _ hentry)
      refine ⟨.inl ⟨d, n, hentry⟩, i, hi, ?_⟩
      have hd : s.dcache d n = some (some _) := Option.join_eq_some_iff.1 hjoin
      have hagree := h.positive d n _ (by simp) hd
      rw [hentry, Option.map_some, inoOf_eq hi] at hagree
      exact (Option.some.inj hagree).symm
    · cases hdentry

/-! ## Every operation -/

lemma Grows.edit {t : Upper} (e : CacheEdit)
    (hsync : ∀ f ino, e = .sync f ino → (t.sys.lower.inodes f).isSome) : Grows t (e.apply t) := by
  cases e with
  | keep => exact .refl t
  | instantiate dir name nomem => exact .instantiate t dir name nomem
  | drop names => exact .drops names t
  | move d₁ n₁ d₂ n₂ exchange => exact .moveDentry t d₁ n₁ d₂ n₂ exchange
  | sync f ino => exact .syncAttrs (hsync f ino rfl) ino

lemma onSuccess_sync {e : CacheEdit} {r : Status} {f : Fid} {ino : UInt64}
    (h : e.onSuccess r = .sync f ino) : e = .sync f ino := by
  cases r with
  | none => exact h
  | some _ => cases h

/-- Only a setattr copies attributes up. -/
lemma edit_sync {op : UpperOp} {r : Status} {f : Fid} {ino : UInt64}
    (h : op.edit s r = .sync f ino) : ∃ dentry attr now φ err,
      op = .setattr dentry attr now φ err ∧ s.resolve dentry = some (f, ino) := by
  cases op with
  | setattr dentry attr now φ err =>
    replace h := onSuccess_sync h
    cases hdentry : s.resolve dentry with
    | none =>
      rw [hdentry] at h
      cases h
    | some p =>
      rw [hdentry] at h
      obtain ⟨rfl, rfl⟩ := CacheEdit.sync.inj h
      exact ⟨dentry, attr, now, φ, err, rfl, hdentry⟩
  | create | mkdir | unlink | rmdir | rename => cases onSuccess_sync h
  | symlink | link | rollback | lookup | lookupShadow | drop | dropShadow | evict => cases h

lemma upperStep_grows (env : Env) (h : CacheInv s) {op : UpperOp}
    (hevict : ∀ ino, op ≠ .evict ino) : Grows s (upperStep env s op) := by
  have houtcome := upperStep_outcome env s op
  generalize upperStep env s op = s' at houtcome
  cases houtcome with
  | refused => exact .refl s
  | @passed _ o hcall hadmitted =>
    refine (Grows.below env s o).trans (.edit _ fun f ino hedit => ?_)
    obtain ⟨dentry, attr, now, φ, err, rfl, hdentry⟩ := edit_sync hedit
    obtain ⟨-, i, hi, -⟩ := h.resolve hdentry
    obtain ⟨i', hi', -⟩ := (step_effect env s.sys o (call_spec env hcall).2.1).inodes hi
    exact Option.isSome_iff_exists.2 ⟨i', hi'⟩
  | rollback path timestamp φ opened => exact .rollback env s path timestamp φ opened
  | lookup dir name φ => exact .lookup s dir name φ
  | simpleSetattr attr now φ err => exact .simpleSetattr s _ attr err
  | drop dir name => exact .setDentry s dir name rfl
  | lookupShadow | dropShadow => exact .of_dcache rfl fun d n _ h => ⟨d, n, h⟩
  | evict ino => exact absurd rfl (hevict ino)

/-- `cowfs_get_inode` for the file of a name. -/
lemma MatchesBut.instantiate (h : MatchesBut (fun _ => False) s) (htree : SoundTree s.sys)
    (d : Fid) (n : CStr) (nomem : Bool) :
    MatchesBut (fun _ => False) (s.instantiate d n nomem) := by
  cases nomem with
  | true =>
    rw [instantiate_nomem]
    exact h
  | false =>
    cases hentry : s.sys.lower.entries d n with
    | none =>
      rw [instantiate_absent hentry]
      exact h
    | some f =>
      obtain ⟨i, hi⟩ := Option.isSome_iff_exists.1 (s.sys.lower.linked d n f hentry)
      rw [instantiate_eq hentry hi, if_neg Bool.false_ne_true]
      intro g j u hg _ hj hu
      replace hu : Function.update s.icache i.ino (some ((s.icache i.ino).getD i.upper)) j.ino =
          some u := hu
      by_cases hino : j.ino = i.ino
      · obtain rfl := htree.eq_of_ino (.inl ⟨d, n, hentry⟩) hg hi hj hino
        obtain rfl := Option.some.inj (hi.symm.trans hj)
        rw [Function.update_self] at hu
        obtain rfl := Option.some.inj hu
        cases hcached : s.icache i.ino with
        | none => exact ⟨rfl, rfl, rfl⟩
        | some u => exact h g i u hg id hi hcached
      · rw [Function.update_of_ne hino] at hu
        exact h g j u hg id hj hu

/-- `cowfs_setattr` brings the one file left out back into step. -/
lemma MatchesBut.syncAttrs {f : Fid} {i : Inode} (h : MatchesBut (fun g => g = f) s)
    (htree : SoundTree s.sys) (hf : Alive (IsRoot s.sys) s.sys.lower f)
    (hi : s.sys.lower.inodes f = some i) :
    MatchesBut (fun _ => False) (s.syncAttrs f i.ino) := by
  intro g j u hg _ hj hu
  replace hu : Function.update s.icache i.ino ((s.icache i.ino).bind fun u =>
      (s.sys.lower.inodes f).map fun i => { u with mode := i.mode, uid := i.uid, gid := i.gid })
        j.ino = some u := hu
  by_cases hino : j.ino = i.ino
  · obtain rfl := htree.eq_of_ino hf hg hi hj hino
    replace hj : s.sys.lower.inodes g = some j := hj
    rw [hino, Function.update_self, hj] at hu
    obtain ⟨u₀, -, hu⟩ := Option.bind_eq_some_iff.1 hu
    obtain rfl := Option.some.inj hu
    exact ⟨rfl, rfl, rfl⟩
  · rw [Function.update_of_ne hino] at hu
    refine h g j u hg ?_ hj hu
    rintro rfl
    obtain rfl := Option.some.inj (hi.symm.trans hj)
    exact hino rfl

/-- A setattr that fails leaves the tree alone. -/
lemma step_setattr_failure {sys : State} {f : Fid} {attr : Iattr} {now : UInt64} {φ : SnapFaults}
    {err : Status} (h : (exec env sys (.setattr f attr now φ err)).1 ≠ none) :
    (step env sys (.setattr f attr now φ err)).lower = sys.lower := by
  simp only [step, exec, Cowfs.cowfsSetattr] at h ⊢
  split
  · next sbi i hmount hi =>
    rw [hmount, hi] at h
    cases err with
    | none => exact absurd rfl h
    | some e => rfl
  · rfl

/-- The edits other than that of a setattr. -/
lemma MatchesBut.edit {t : Upper} (h : MatchesBut (fun _ => False) t) (htree : SoundTree t.sys)
    {e : CacheEdit} (hsync : ∀ f ino, e ≠ .sync f ino) :
    MatchesBut (fun _ => False) (e.apply t) := by
  cases e with
  | keep => exact h
  | instantiate dir name nomem => exact h.instantiate htree dir name nomem
  | drop names =>
    obtain ⟨hrest, hicache, -⟩ := drops_frame names t
    exact h.same (congrArg State.lower hrest.sys) (congrArg State.mount hrest.sys) hicache
  | move d₁ n₁ d₂ n₂ exchange =>
    have hsys := moveDentry_sys t d₁ n₁ d₂ n₂ exchange
    exact h.same (congrArg State.lower hsys) (congrArg State.mount hsys) (moveDentry_icache ..)
  | sync f ino => exact absurd rfl (hsync f ino)

/-- `cowfs_setattr` with the copying up. -/
lemma fields_setattr (h : CacheInv s) {dentry : Option (Fid × CStr)} {attr : Iattr}
    {now : UInt64} {φ : SnapFaults} {err : Status} {o : Op}
    (hcall : (UpperOp.setattr dentry attr now φ err).call s = some o) :
    MatchesBut (fun _ => False)
      (((UpperOp.setattr dentry attr now φ err).edit s (exec env s.sys o).1).apply
        (s.below env o).2) := by
  obtain ⟨hmount, hlink, -⟩ := call_spec env hcall
  obtain ⟨⟨f, ino⟩, hdentry, rfl⟩ := Option.map_eq_some_iff.1 hcall
  obtain ⟨hf, i, hi, rfl⟩ := h.resolve hdentry
  simp only [UpperOp.edit, hdentry, Option.elim_some]
  refine CacheEdit.onSuccess_elim (P := MatchesBut fun _ => False) (fun _ => ?_) (fun hfail => ?_)
  · have hbelow : MatchesBut (fun g => g = f) (s.below env (.setattr f attr now φ err)).2 :=
      (h.below hmount hlink fun _ hnew => by cases hnew).mono fun g hg => hg.1
    obtain ⟨i', hi', hino, -⟩ := (step_effect env s.sys (.setattr f attr now φ err) hlink).inodes hi
    rw [← hino]
    refine hbelow.syncAttrs (h.tree.below hmount hlink fun _ hnew => by cases hnew) ?_ hi'
    rcases hf with ⟨d, n, hentry⟩ | hroot
    · exact .inl ⟨d, n, (congrArg (fun e => e d n) (step_setattr_entries ..)).trans hentry⟩
    · exact .inr ((isRoot_below hmount).2 hroot)
  · exact h.fields.same (step_setattr_failure hfail) hmount rfl

/-- No call but a setattr and a rollback touches a file. -/
lemma not_touches {op : UpperOp} {o : Op} (hcall : op.call s = some o) (hadmitted : op.Admitted s)
    (hset : ∀ dentry attr now φ err, op ≠ .setattr dentry attr now φ err) (f : Fid) :
    ¬ o.Touches env s.sys f := by
  cases op with
  | setattr dentry attr now φ err => exact absurd rfl (hset dentry attr now φ err)
  | rollback => exact hadmitted.elim
  | link =>
    obtain ⟨g, -, rfl⟩ := Option.map_eq_some_iff.1 hcall
    exact id
  | create | mkdir | symlink | unlink | rmdir | rename =>
    obtain rfl := Option.some.inj hcall
    exact id
  | lookup | lookupShadow | drop | dropShadow | evict => cases hcall

/-- The calls that are passed down, with the edits after them. -/
lemma fields_passed (h : CacheInv s) {op : UpperOp} {o : Op} (hcall : op.call s = some o)
    (hadmitted : op.Admitted s) (hlaw : Lawful s op) (hok : KeepsFields env s op) :
    MatchesBut (fun _ => False)
      ((op.edit s (exec env s.sys o).1).apply (s.below env o).2) := by
  by_cases hset : ∃ dentry attr now φ err, op = .setattr dentry attr now φ err
  · obtain ⟨dentry, attr, now, φ, err, rfl⟩ := hset
    exact fields_setattr h hcall
  · push Not at hset
    obtain ⟨hmount, hlink, hino⟩ := call_spec env hcall
    have hbelow : MatchesBut (fun _ => False) (s.below env o).2 :=
      (h.below hmount hlink (hino ▸ hok.number)).mono fun f hf =>
        not_touches hcall hadmitted hset f hf
    refine hbelow.edit (h.tree.below hmount hlink (hino ▸ hlaw.number)) fun f ino hedit => ?_
    obtain ⟨dentry, attr, now, φ, err, rfl, -⟩ := edit_sync hedit
    exact hset dentry attr now φ err rfl

/-! ## Rollback -/

/-- A lookup keeps the invariant. -/
lemma CacheInv.lookup (h : CacheInv s) (d : Fid) (n : CStr) (φ : LookupFaults) :
    CacheInv (s.cowfsLookup d n φ) := by
  have hrest := cowfsLookup_frame s d n φ
  have hgrows := Grows.lookup s d n φ
  refine ⟨?_, fun d' n' => agreesAt_lookup h.positive d n φ d' n', fun d' n' ino hd => ?_,
    fun f hf => ?_, ?_, ?_⟩
  · rw [hrest.sys]
    exact h.tree
  · rcases hgrows.dcache d' n' ino hd with ⟨d₀, n₀, hd₀⟩ | hino
    · exact hgrows.icache ino (h.bound d₀ n₀ ino hd₀)
    · exact hino
  · rw [hrest.sys] at hf ⊢
    exact hgrows.icache _ (h.root f hf)
  · exact cowfsLookup_elim (P := MatchesBut fun _ => False) h.fields
      (fun _ _ => h.fields.same rfl rfl rfl) fun _ _ => h.fields.instantiate h.tree d n φ.inode
  · rw [hrest.aliased]
    exact h.single

/-- Lookups cache no inode under a number no file has. -/
lemma icache_lookup {d : Fid} {n : CStr} {φ : LookupFaults} {ino : UInt64}
    (hunused : Unused (IsRoot s.sys) s.sys.lower ino) (h : s.icache ino = none) :
    (s.cowfsLookup d n φ).icache ino = none := by
  refine cowfsLookup_elim (P := fun t => t.icache ino = none) h (fun _ _ => h) fun _ hentry => ?_
  obtain ⟨f, hf⟩ := Option.isSome_iff_exists.1 hentry
  obtain ⟨i, hi⟩ := Option.isSome_iff_exists.1 (s.sys.lower.linked d n f hf)
  rw [instantiate_eq hf hi]
  split
  · exact h
  · have hne : ino ≠ i.ino := by
      intro he
      exact hunused f (.inl ⟨d, n, hf⟩) (by rw [inoOf_eq hi, he])
    exact (Function.update_of_ne hne ..).trans h

/-- A rollback behind its path walks. -/
lemma fields_rollbackWalked (h : CacheInv s) {path : CStr} {timestamp : UInt64}
    {φ : RollbackFaults} (hnew : ∀ ino ∈ φ.newIno, s.icache ino = none)
    (htouch : ∀ f, ¬ Op.Touches env s.sys (.rollback path timestamp φ) f) :
    MatchesBut (fun _ => False) (s.rollbackWalked env path timestamp φ) := by
  have hcall : (UpperOp.rollback path timestamp φ fun _ => false).call s =
      some (.rollback path timestamp φ) := rfl
  obtain ⟨hmount, hlink, -⟩ := call_spec env hcall
  obtain ⟨hsys, -, hicache, -⟩ := rollbackWalked_frame env s path timestamp φ
  have hbelow : MatchesBut (fun _ => False) (s.below env (.rollback path timestamp φ)).2 :=
    (h.below hmount hlink hnew).mono htouch
  exact hbelow.same (congrArg State.lower hsys) (congrArg State.mount hsys) hicache

lemma fields_rollback (h : CacheInv s) {path : CStr} {timestamp : UInt64} {φ : RollbackFaults}
    {opened : Fid → Bool} (hlaw : Lawful s (.rollback path timestamp φ opened))
    (hok : KeepsFields env s (.rollback path timestamp φ opened)) :
    MatchesBut (fun _ => False) (s.rollback env path timestamp φ opened) := by
  obtain ⟨hwalked, hsys, hnew⟩ : CacheInv (s.lookUp (rollbackPlaces env s.sys path timestamp φ)) ∧
      (s.lookUp (rollbackPlaces env s.sys path timestamp φ)).sys = s.sys ∧
      ∀ ino ∈ φ.newIno, (s.lookUp (rollbackPlaces env s.sys path timestamp φ)).icache ino = none :=
    lookUp_induct
      (P := fun t => CacheInv t ∧ t.sys = s.sys ∧ ∀ ino ∈ φ.newIno, t.icache ino = none)
      (fun t d n ⟨ht, hsys, hnew⟩ => ⟨ht.lookup d n _,
        (cowfsLookup_frame t d n _).sys.trans hsys, fun ino hino =>
          icache_lookup (hsys.symm ▸ hlaw.number ino hino) (hnew ino hino)⟩)
      ⟨h, rfl, hok.number⟩ _
  have hfields : MatchesBut (fun _ => False)
      ((s.lookUp (rollbackPlaces env s.sys path timestamp φ)).rollbackWalked env path timestamp
        φ) := by
    refine fields_rollbackWalked hwalked hnew fun f => ?_
    rw [hsys]
    exact hok.rollback path timestamp φ opened rfl f
  exact hfields.same rfl rfl rfl

/-! ## The steps -/

lemma fields_step (h : CacheInv s) {op : UpperOp} (hlaw : Lawful s op)
    (hok : KeepsFields env s op) : MatchesBut (fun _ => False) (upperStep env s op) := by
  have houtcome := upperStep_outcome env s op
  generalize upperStep env s op = s' at houtcome
  cases houtcome with
  | refused => exact h.fields
  | passed hcall hadmitted => exact fields_passed h hcall hadmitted hlaw hok
  | rollback => exact fields_rollback h hlaw hok
  | lookup dir name φ => exact (h.lookup dir name φ).fields
  | lookupShadow | drop | dropShadow => exact h.fields.same rfl rfl rfl
  | @simpleSetattr dentry f ino attr now φ err hdentry hsymlink =>
    cases err with
    | some e => exact h.fields
    | none =>
      obtain ⟨u, hu, hiops⟩ := Option.map_eq_some_iff.1 hsymlink
      have hsame := hok.symlink dentry attr now φ rfl f ino u hdentry hu hiops
      refine h.fields.same rfl rfl ?_
      show Function.update s.icache ino ((s.icache ino).map (.setattr attr)) = s.icache
      rw [hu, Option.map_some, hsame, ← hu, Function.update_eq_self]
  | evict ino =>
    intro f i u hf hA hi hu
    by_cases hino : i.ino = ino
    · simp [upperStep, hino] at hu
    · exact h.fields f i u hf hA hi ((Function.update_of_ne hino ..).symm.trans hu)

/-- Each lawful step that keeps the fields keeps the invariant. -/
theorem CacheInv.step (h : CacheInv s) {op : UpperOp} (hlaw : Lawful s op)
    (hok : KeepsFields env s op) : CacheInv (upperStep env s op) := by
  have hsys := upperStep_sys env s op
  have hroots : ∀ f, IsRoot (upperStep env s op).sys f → IsRoot s.sys f ∧
      (upperStep env s op).sys.lower.inoOf f = s.sys.lower.inoOf f := by
    intro f hf
    rcases hsys with hsame | ⟨o, hcall, hstep⟩
    · rw [hsame] at hf ⊢
      exact ⟨hf, rfl⟩
    · obtain ⟨hmount, hlink, -⟩ := call_spec env hcall
      rw [hstep] at hf ⊢
      have hroot := (isRoot_below (s := s) hmount).1 hf
      exact ⟨hroot, (step_effect env s.sys o hlink).inoOf (h.tree.root f hroot)⟩
  refine ⟨?_, agreesAt_step h.positive False.elim, ?_, ?_, fields_step h hlaw hok,
    aliased_step h.single hok.aliases⟩
  · rcases hsys with hsame | ⟨o, hcall, hstep⟩
    · rw [hsame]
      exact h.tree
    · obtain ⟨hmount, hlink, hino⟩ := call_spec env hcall
      rw [hstep]
      exact h.tree.below hmount hlink (hino ▸ hlaw.number)
  · intro d n ino hd
    by_cases hevict : ∃ ino', op = .evict ino'
    · obtain ⟨ino', rfl⟩ := hevict
      have hne : ino ≠ ino' := fun he => (hlaw.evict ino' rfl).1 d n (he ▸ hd)
      exact (congrArg Option.isSome (Function.update_of_ne hne ..)).trans (h.bound d n ino hd)
    · have hgrows := upperStep_grows env h fun ino' he => hevict ⟨ino', he⟩
      rcases hgrows.dcache d n ino hd with ⟨d', n', hd'⟩ | hino
      · exact hgrows.icache ino (h.bound d' n' ino hd')
      · exact hino
  · intro f hf
    obtain ⟨hroot, hino⟩ := hroots f hf
    rw [hino]
    by_cases hevict : ∃ ino', op = .evict ino'
    · obtain ⟨ino', rfl⟩ := hevict
      exact (congrArg Option.isSome
        (Function.update_of_ne ((hlaw.evict ino' rfl).2 f hroot) ..)).trans (h.root f hroot)
    · exact (upperStep_grows env h fun ino' he => hevict ⟨ino', he⟩).icache _ (h.root f hroot)

/-! ## Runs -/

lemma cacheInv_start {sys : State} (h : SoundTree sys) : CacheInv (.start sys) where
  tree := h
  positive d n e _ he := by cases he
  bound d n ino hd := by cases hd
  root f hf := by
    obtain ⟨sbi, hmount, rfl⟩ := hf
    replace hmount : sys.mount = some sbi := hmount
    obtain ⟨i, hi⟩ := Option.isSome_iff_exists.1 (h.root _ ⟨sbi, hmount, rfl⟩)
    simp [Upper.start, hmount, hi, inoOf_eq hi]
  fields f i u hf _ hi hu := by
    cases hmount : sys.mount with
    | none => simp [Upper.start, hmount] at hu
    | some sbi =>
      obtain ⟨j, hj⟩ := Option.isSome_iff_exists.1 (h.root sbi.lowerRoot ⟨sbi, hmount, rfl⟩)
      simp only [Upper.start, hmount, hj, Option.bind_some] at hu
      by_cases hino : i.ino = j.ino
      · obtain rfl := h.eq_of_ino (.inr ⟨sbi, hmount, rfl⟩) hf hj hi hino
        obtain rfl := Option.some.inj (hj.symm.trans hi)
        rw [Function.update_self] at hu
        obtain rfl := Option.some.inj hu
        exact ⟨rfl, rfl, rfl⟩
      · rw [Function.update_of_ne hino] at hu
        cases hu
  single _ := id

/-- The root is there, and no object has the number. -/
def numberFree (s : State) (ino : UInt64) : Bool :=
  s.mount.all (fun sbi => (s.lower.inodes sbi.lowerRoot).isSome) &&
    (List.range s.lower.next).all fun f => s.lower.inoOf f != ino

lemma lawful_of_numberFree {op : UpperOp} (hop : ∀ ino, op ≠ .evict ino)
    (h : ∀ ino ∈ op.newIno, numberFree s.sys ino = true) : Lawful s op where
  number ino hino f hf he := by
    have hfree := h ino hino
    simp only [numberFree, Bool.and_eq_true, List.all_eq_true, List.mem_range, bne_iff_ne,
      ne_eq] at hfree
    refine hfree.2 f (hf.lt_next ?_) he
    rintro g ⟨sbi, hmount, rfl⟩
    have hroot := hfree.1
    rwa [hmount] at hroot
  evict ino he := absurd he (hop ino)

lemma mountedTree_sound : SoundTree mountedTree := by
  have hroot : ∀ f, IsRoot mountedTree f → (mountedTree.lower.inodes f).isSome := by
    rintro f ⟨sbi, hmount, rfl⟩
    have hall : mountedTree.mount.all
        (fun sbi => (mountedTree.lower.inodes sbi.lowerRoot).isSome) = true := by
      decide +kernel
    rwa [hmount] at hall
  have hdistinct : ∀ f < mountedTree.lower.next, ∀ g < mountedTree.lower.next,
      mountedTree.lower.inoOf f = mountedTree.lower.inoOf g → f = g := by
    decide +kernel
  exact ⟨hroot, fun f g hf hg => hdistinct f (hf.lt_next hroot) g (hg.lt_next hroot)⟩

/-- `x` is made with the mode 0644, changed to 0600 and removed. -/
def inSyncOps : List UpperOp :=
  [.lookup 1 ['x'] ⟨none, false, false⟩, .create 1 ['x'] 0x1A4#16 ⟨0, 0, 0⟩ 10 1 none false,
    .setattr (some (1, ['x'])) { Iattr.zero with iaMode := some (sIFREG ||| 0x180#16) } 1000
      .clean none,
    .unlink 1 ['x'] 2000 .clean none]

lemma iops_ne_symlink {dentry : Option (Fid × CStr)} {f : Fid} {ino : UInt64} {u : UpperInode}
    (h : ((s.resolve dentry).bind fun p => s.icache p.2).map UpperInode.iops ≠ some .symlink)
    (hdentry : s.resolve dentry = some (f, ino)) (hu : s.icache ino = some u) :
    u.iops ≠ .symlink := by
  intro hiops
  apply h
  simp [hdentry, hu, hiops]

/-- The mode is changed from 0644 to 0600 and rolled back. -/
def staleOps : List UpperOp :=
  [.lookup 1 ['x'] ⟨none, false, false⟩, .create 1 ['x'] 0x1A4#16 ⟨0, 0, 0⟩ 10 1 none false,
    .setattr (some (1, ['x'])) { Iattr.zero with iaMode := some (sIFREG ||| 0x180#16) } 1000
      .clean none,
    .rollback ['/', 'm', '/', 'x'] 1000 (.clean ⟨0, 0, 0⟩ 99 2) fun _ => false]

/-- Dropping the caches before the rollback is of no use: its path walk fills them first. -/
example : ((run (upperStep smallEnv) (.start mountedTree) (staleOps.take 3 ++
    [.drop 1 ['x'], .evict 10] ++ staleOps.drop 3)).icache 10).map UpperInode.mode =
      some (sIFREG ||| 0x180#16) := by
  decide +kernel

end Cowfs
