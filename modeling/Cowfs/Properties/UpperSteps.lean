import Cowfs.Construction.Upper

/-!
# What an operation of the upper layer does

An operation is refused by the VFS, works on the caches alone, or passes one call down and edits
the caches by its result; a rollback looks names up before.  `upperStep_outcome` says so once;
what is proved of the caches goes through its cases and unfolds no operation.
-/

namespace Cowfs

open Upper

variable {env : Env} {s : Upper} {d : Fid} {n : CStr}

/-! ## Dentries and inodes -/

lemma setDentry_self (s : Upper) (d : Fid) (n : CStr) (o : Option Dentry) :
    (s.setDentry d n o).dcache d n = o := by
  simp [setDentry]

lemma setDentry_of_ne {d' : Fid} {n' : CStr} (h : ¬ (d' = d ∧ n' = n)) (s : Upper)
    (o : Option Dentry) : (s.setDentry d n o).dcache d' n' = s.dcache d' n' :=
  if_neg h

/-- `cowfs_get_inode` keeps a cached inode and adds a missing one. -/
lemma getInode_eq (icache : UInt64 → Option UpperInode) (i : Inode) (nomem : Bool) :
    getInode icache i nomem =
      if nomem then none
      else some (Function.update icache i.ino (some ((icache i.ino).getD i.upper))) := by
  unfold getInode
  cases hi : icache i.ino with
  | none => rfl
  | some u =>
    have hsame : Function.update icache i.ino (some u) = icache := by
      rw [← hi, Function.update_eq_self]
    simp [hsame]

lemma instantiate_eq {f : Fid} {i : Inode} (hentry : s.sys.lower.entries d n = some f)
    (hi : s.sys.lower.inodes f = some i) (nomem : Bool) :
    s.instantiate d n nomem =
      if nomem then s
      else
        { s with
          icache := Function.update s.icache i.ino
            (some ((s.icache i.ino).getD i.upper)) }.setDentry d n (some (some i.ino)) := by
  have hat : s.lowerInode d n = some i := by simp [lowerInode, Lower.inodeAt, hentry, hi]
  unfold instantiate
  rw [hat]
  cases nomem <;> simp [getInode_eq]

@[simp] lemma instantiate_nomem (s : Upper) (d : Fid) (n : CStr) :
    s.instantiate d n true = s := by
  unfold instantiate
  cases s.lowerInode d n <;> simp [getInode_eq]

/-- What the caches of names and inodes have no part in. -/
structure SameRest (s s' : Upper) : Prop where
  sys : s'.sys = s.sys
  shadow : s'.shadowCache = s.shadowCache
  aliased : s'.aliased = s.aliased

lemma SameRest.trans {s s' s'' : Upper} (h : SameRest s s') (h' : SameRest s' s'') :
    SameRest s s'' :=
  ⟨h'.sys.trans h.sys, h'.shadow.trans h.shadow, h'.aliased.trans h.aliased⟩

/-- What `instantiate` leaves alone. -/
lemma instantiate_frame (s : Upper) (d : Fid) (n : CStr) (nomem : Bool) :
    SameRest s (s.instantiate d n nomem) ∧ ∀ d' n', ¬ (d' = d ∧ n' = n) →
      (s.instantiate d n nomem).dcache d' n' = s.dcache d' n' := by
  unfold instantiate
  split
  · exact ⟨⟨rfl, rfl, rfl⟩, fun _ _ _ => rfl⟩
  split
  · exact ⟨⟨rfl, rfl, rfl⟩, fun _ _ _ => rfl⟩
  · exact ⟨⟨rfl, rfl, rfl⟩, fun d' n' h => setDentry_of_ne h _ _⟩

/-- Nothing is instantiated for an absent name. -/
lemma instantiate_absent (h : s.sys.lower.entries d n = none) (nomem : Bool) :
    s.instantiate d n nomem = s := by
  simp [instantiate, lowerInode, Lower.inodeAt, h]

lemma moveDentry_sys (s : Upper) (d₁ : Fid) (n₁ : CStr) (d₂ : Fid) (n₂ : CStr)
    (exchange : Bool) : (s.moveDentry d₁ n₁ d₂ n₂ exchange).sys = s.sys := by
  unfold moveDentry
  split <;> rfl

lemma moveDentry_icache (s : Upper) (d₁ : Fid) (n₁ : CStr) (d₂ : Fid) (n₂ : CStr)
    (exchange : Bool) : (s.moveDentry d₁ n₁ d₂ n₂ exchange).icache = s.icache := by
  unfold moveDentry
  split <;> rfl

lemma moveDentry_dcache (s : Upper) (d₁ : Fid) (n₁ : CStr) (d₂ : Fid) (n₂ : CStr)
    (exchange : Bool) (d : Fid) (n : CStr) :
    (s.moveDentry d₁ n₁ d₂ n₂ exchange).dcache d n =
      if exchange = true ∧ d = d₁ ∧ n = n₁ then s.dcache d₂ n₂
      else if d = d₂ ∧ n = n₂ then s.dcache d₁ n₁
      else if d = d₁ ∧ n = n₁ then none else s.dcache d n := by
  unfold moveDentry
  cases exchange <;> simp [setDentry]

/-- The dentries that are dropped go, everything else stays. -/
lemma drops_frame (drops : List (Fid × CStr)) (s : Upper) :
    let s' := drops.foldl (fun s p => s.setDentry p.1 p.2 none) s
    SameRest s s' ∧ s'.icache = s.icache ∧
      ∀ d n, s'.dcache d n = if (d, n) ∈ drops then none else s.dcache d n := by
  induction drops generalizing s with
  | nil => exact ⟨⟨rfl, rfl, rfl⟩, rfl, fun d n => by simp⟩
  | cons p drops ih =>
    obtain ⟨⟨hsys, hshadow, haliased⟩, hicache, hdcache⟩ := ih (s.setDentry p.1 p.2 none)
    refine ⟨⟨hsys, hshadow, haliased⟩, hicache, fun d n => (hdcache d n).trans ?_⟩
    by_cases hat : d = p.1 ∧ n = p.2
    · obtain ⟨rfl, rfl⟩ := hat
      simp [setDentry_self]
    · have hp : (d, n) ≠ p := fun he => hat (by simp [← he])
      simp [setDentry_of_ne hat, hp]

/-! ## Lookups -/

/-- A lookup does nothing, hashes a negative dentry or instantiates one. -/
lemma cowfsLookup_elim {P : Upper → Prop} {φ : LookupFaults} (hsame : P s)
    (habsent : s.dcache d n = none → s.sys.lower.entries d n = none →
      P (s.setDentry d n (some none)))
    (hpresent : s.dcache d n = none → (s.sys.lower.entries d n).isSome →
      P (s.instantiate d n φ.inode)) : P (s.cowfsLookup d n φ) := by
  unfold Upper.cowfsLookup
  split
  · exact hsame
  next hguard =>
  have hnew : s.dcache d n = none := by
    by_contra hsome
    simp [Option.isSome_iff_ne_none.2 hsome] at hguard
  cases hentry : s.sys.lower.entries d n with
  | none =>
    have hlower : s.lowerInode d n = none := by simp [lowerInode, Lower.inodeAt, hentry]
    rw [hlower]
    exact habsent hnew hentry
  | some f =>
    obtain ⟨i, hi⟩ := Option.isSome_iff_exists.1 (s.sys.lower.linked d n f hentry)
    have hlower : s.lowerInode d n = some i := by simp [lowerInode, Lower.inodeAt, hentry, hi]
    rw [hlower]
    exact hpresent hnew (by simp [hentry])

lemma cowfsLookup_frame (s : Upper) (d : Fid) (n : CStr) (φ : LookupFaults) :
    SameRest s (s.cowfsLookup d n φ) :=
  cowfsLookup_elim (P := SameRest s) ⟨rfl, rfl, rfl⟩ (fun _ _ => ⟨rfl, rfl, rfl⟩)
    fun _ _ => (instantiate_frame s d n φ.inode).1

/-- What lookups keep, one after the other. -/
lemma lookUp_induct {P : Upper → Prop}
    (hstep : ∀ s d n, P s → P (s.cowfsLookup d n LookupFaults.clean)) {s : Upper} (h : P s)
    (names : List (Fid × CStr)) : P (s.lookUp names) := by
  induction names generalizing s with
  | nil => exact h
  | cons p names ih => exact ih (hstep s p.1 p.2 h)

lemma lookUp_frame (s : Upper) (names : List (Fid × CStr)) : SameRest s (s.lookUp names) :=
  lookUp_induct (P := SameRest s)
    (fun t d n h => h.trans (cowfsLookup_frame t d n LookupFaults.clean)) ⟨rfl, rfl, rfl⟩ names

/-! ## Rollback -/

/-- A rollback behind its path walks. -/
lemma rollbackWalked_frame (env : Env) (s : Upper) (path : CStr) (timestamp : UInt64)
    (φ : RollbackFaults) :
    let s' := s.rollbackWalked env path timestamp φ
    s'.sys = step env s.sys (.rollback path timestamp φ) ∧ s'.shadowCache = s.shadowCache ∧
      s'.icache = s.icache ∧ ∀ d n, s'.dcache d n =
        if (d, n) ∈ rollbackDrops env s.sys path timestamp φ then none else s.dcache d n := by
  obtain ⟨⟨hsys, hshadow, -⟩, hicache, hdcache⟩ :=
    drops_frame (rollbackDrops env s.sys path timestamp φ)
      (s.below env (.rollback path timestamp φ)).2
  exact ⟨hsys, hshadow, hicache, hdcache⟩

lemma rollback_frame (env : Env) (s : Upper) (path : CStr) (timestamp : UInt64)
    (φ : RollbackFaults) (opened : Fid → Bool) :
    let s' := s.rollback env path timestamp φ opened
    s'.sys = step env s.sys (.rollback path timestamp φ) ∧ s'.shadowCache = s.shadowCache := by
  have hrest := lookUp_frame s (rollbackPlaces env s.sys path timestamp φ)
  obtain ⟨hsys, hshadow, -⟩ := rollbackWalked_frame env
    (s.lookUp (rollbackPlaces env s.sys path timestamp φ)) path timestamp φ
  rw [hrest.sys] at hsys
  exact ⟨hsys, hshadow.trans hrest.shadow⟩

/-! ## Edits -/

/-- What an operation changes in the caches. -/
inductive CacheEdit
  | keep
  | instantiate (dir : Fid) (name : CStr) (nomem : Bool)
  | drop (names : List (Fid × CStr))
  | move (d₁ : Fid) (n₁ : CStr) (d₂ : Fid) (n₂ : CStr) (exchange : Bool)
  | sync (f : Fid) (ino : UInt64)

namespace CacheEdit

def apply (s : Upper) : CacheEdit → Upper
  | keep => s
  | instantiate dir name nomem => s.instantiate dir name nomem
  | drop names => names.foldl (fun s p => s.setDentry p.1 p.2 none) s
  | move d₁ n₁ d₂ n₂ exchange => s.moveDentry d₁ n₁ d₂ n₂ exchange
  | sync f ino => s.syncAttrs f ino

/-- The edit, if the call before it has succeeded. -/
def onSuccess (e : CacheEdit) : Status → CacheEdit
  | none => e
  | some _ => keep

/-- What follows a call is treated in two parts, its success and its failure. -/
lemma onSuccess_elim {P : Upper → Prop} {e : CacheEdit} {r : Status} {t : Upper}
    (hok : r = none → P (e.apply t)) (herr : r ≠ none → P t) : P ((e.onSuccess r).apply t) := by
  cases r with
  | none => exact hok rfl
  | some e => exact herr (Option.some_ne_none e)

/-- The edits are of the caches of names and inodes. -/
lemma apply_frame (e : CacheEdit) (s : Upper) : SameRest s (e.apply s) := by
  cases e with
  | keep => exact ⟨rfl, rfl, rfl⟩
  | instantiate dir name nomem => exact (instantiate_frame s dir name nomem).1
  | drop names => exact (drops_frame names s).1
  | move d₁ n₁ d₂ n₂ exchange =>
    cases exchange <;> exact ⟨rfl, rfl, rfl⟩
  | sync f ino => exact ⟨rfl, rfl, rfl⟩

end CacheEdit

namespace UpperOp

/-- What the VFS has checked when an operation, other than a rollback, passes its call down. -/
def Admitted (s : Upper) : UpperOp → Prop
  | create dir name _ _ _ _ _ _ => s.dcache dir name = some none
  | mkdir dir name _ _ _ _ _ _ => s.dcache dir name = some none
  | symlink dir name _ _ _ _ _ => s.dcache dir name = some none
  | link oldDir old dir name _ =>
    s.positive oldDir old = true ∧ s.dcache dir name = some none
  | unlink dir name _ _ _ => s.positive dir name = true
  | rmdir dir name _ => s.positive dir name = true
  | rename d₁ n₁ d₂ n₂ _ _ _ _ _ =>
    s.positive d₁ n₁ = true ∧ (s.dcache d₂ n₂).isSome ∧ s.dcache d₁ n₁ ≠ s.dcache d₂ n₂
  | setattr dentry _ _ _ _ => ∀ f ino, s.resolve dentry = some (f, ino) →
      (s.icache ino).map UpperInode.iops ≠ some .symlink
  | _ => False

/-- The edit that follows the call, by its result. -/
def edit (s : Upper) (r : Status) : UpperOp → CacheEdit
  | create dir name _ _ _ _ _ nomem => (CacheEdit.instantiate dir name nomem).onSuccess r
  | mkdir dir name _ _ _ _ _ nomem => (CacheEdit.instantiate dir name nomem).onSuccess r
  | unlink dir name _ _ _ => (CacheEdit.drop [(dir, name)]).onSuccess r
  | rmdir dir name _ => (CacheEdit.drop [(dir, name)]).onSuccess r
  | rename d₁ n₁ d₂ n₂ flags _ _ _ _ => (CacheEdit.move d₁ n₁ d₂ n₂ flags.exchange).onSuccess r
  | setattr dentry _ _ _ _ =>
    ((s.resolve dentry).elim CacheEdit.keep fun p => CacheEdit.sync p.1 p.2).onSuccess r
  | _ => .keep

end UpperOp

/-! ## Outcomes -/

/-- The call an operation passes down. -/
def UpperOp.call (s : Upper) : UpperOp → Option Op
  | .create dir name mode cred ino now err _ => some (.make sIFREG dir name mode cred ino now err)
  | .mkdir dir name mode cred ino now err _ => some (.make sIFDIR dir name mode cred ino now err)
  | .symlink dir name mode cred ino now err => some (.make sIFLNK dir name mode cred ino now err)
  | .link oldDir old dir name err =>
    (s.sys.lower.entries oldDir old).map fun f => .link f dir name err
  | .unlink dir name now φ err => some (.unlink dir name now φ err)
  | .rmdir dir name err => some (.rmdir dir name err)
  | .rename d₁ n₁ d₂ n₂ flags ino now φ err => some (.rename d₁ n₁ d₂ n₂ flags ino now φ err)
  | .setattr dentry attr now φ err =>
    (s.resolve dentry).map fun p => .setattr p.1 attr now φ err
  | .rollback path timestamp φ _ => some (.rollback path timestamp φ)
  | _ => none

/-- The state below is as it was or the result of the call. -/
def PassesDown (env : Env) (s : Upper) (call : Option Op) (s' : Upper) : Prop :=
  s'.sys = s.sys ∨ ∃ op, call = some op ∧ s'.sys = step env s.sys op

/-- What an operation can leave. -/
inductive Outcome (env : Env) (s : Upper) : UpperOp → Upper → Prop
  | refused (op : UpperOp) : Outcome env s op s
  | passed {op : UpperOp} {o : Op} (hcall : op.call s = some o) (hadmitted : op.Admitted s) :
      Outcome env s op ((op.edit s (exec env s.sys o).1).apply (s.below env o).2)
  | rollback (path : CStr) (timestamp : UInt64) (φ : RollbackFaults) (opened : Fid → Bool) :
      Outcome env s (.rollback path timestamp φ opened) (s.rollback env path timestamp φ opened)
  | lookup (dir : Fid) (name : CStr) (φ : LookupFaults) :
      Outcome env s (.lookup dir name φ) (s.cowfsLookup dir name φ)
  | simpleSetattr {dentry : Option (Fid × CStr)} {f : Fid} {ino : UInt64} (attr : Iattr)
      (now : UInt64) (φ : SnapFaults) (err : Status) (hdentry : s.resolve dentry = some (f, ino))
      (hsymlink : (s.icache ino).map UpperInode.iops = some .symlink) :
      Outcome env s (.setattr dentry attr now φ err) (s.simpleSetattr ino attr err)
  | lookupShadow (r : Fid) (base : CStr) :
      Outcome env s (.lookupShadow r base) (s.lookupShadow r base)
  | drop (dir : Fid) (name : CStr) : Outcome env s (.drop dir name) (s.setDentry dir name none)
  | dropShadow (r : Fid) (base : CStr) :
      Outcome env s (.dropShadow r base) (upperStep env s (.dropShadow r base))
  | evict (ino : UInt64) : Outcome env s (.evict ino) (upperStep env s (.evict ino))

/-- A call passed down and the edit after it. -/
lemma Outcome.of_match {op : UpperOp} {o : Op} {F : Upper → Upper} {e : CacheEdit}
    (hcall : op.call s = some o) (hadmitted : op.Admitted s)
    (hedit : op.edit s (exec env s.sys o).1 = e.onSuccess (exec env s.sys o).1)
    (hF : ∀ t, e.apply t = F t) :
    Outcome env s op (match s.below env o with
      | (none, t) => F t
      | (some _, t) => t) := by
  have h : Outcome env s op ((op.edit s (exec env s.sys o).1).apply (s.below env o).2) :=
    .passed hcall hadmitted
  rw [hedit] at h
  unfold Upper.below at h ⊢
  cases hr : (exec env s.sys o).1 with
  | none =>
    rw [hr] at h
    show Outcome env s op (F _)
    rw [← hF]
    exact h
  | some _ =>
    rw [hr] at h
    exact h

/-- **Outcomes.**  Every operation has one of them. -/
theorem upperStep_outcome (env : Env) (s : Upper) (op : UpperOp) :
    Outcome env s op (upperStep env s op) := by
  cases op with
  | lookup dir name φ => exact .lookup dir name φ
  | create dir name mode cred ino now err nomem =>
    show Outcome env s _ (s.cowfsMakeInode env sIFREG dir name mode cred ino now err nomem)
    unfold Upper.cowfsMakeInode
    split
    · next hnegative => exact .of_match rfl hnegative rfl fun _ => rfl
    · exact .refused _
  | mkdir dir name mode cred ino now err nomem =>
    show Outcome env s _ (s.cowfsMakeInode env sIFDIR dir name mode cred ino now err nomem)
    unfold Upper.cowfsMakeInode
    split
    · next hnegative => exact .of_match rfl hnegative rfl fun _ => rfl
    · exact .refused _
  | symlink dir name mode cred ino now err =>
    show Outcome env s _ (s.cowfsSymlink env dir name mode cred ino now err)
    unfold Upper.cowfsSymlink
    split
    · next hnegative => exact .passed rfl hnegative
    · exact .refused _
  | link oldDir old dir name err =>
    show Outcome env s _ (s.cowfsLink env oldDir old dir name err)
    unfold Upper.cowfsLink
    split
    · next f hf =>
      split
      · next hguard =>
        simp only [Bool.and_eq_true, beq_iff_eq] at hguard
        exact .passed (by simp [UpperOp.call, hf]) hguard
      · exact .refused _
    · exact .refused _
  | unlink dir name now φ err =>
    show Outcome env s _ (s.cowfsUnlink env dir name now φ err)
    unfold Upper.cowfsUnlink
    split
    · next hpositive => exact .of_match rfl hpositive rfl fun _ => rfl
    · exact .refused _
  | rmdir dir name err =>
    show Outcome env s _ (s.cowfsRmdir env dir name err)
    unfold Upper.cowfsRmdir
    split
    · next hpositive => exact .of_match rfl hpositive rfl fun _ => rfl
    · exact .refused _
  | rename d₁ n₁ d₂ n₂ flags ino now φ err =>
    show Outcome env s _ (s.cowfsRename env d₁ n₁ d₂ n₂ flags ino now φ err)
    unfold Upper.cowfsRename
    split
    · next hguard =>
      simp only [Bool.and_eq_true, bne_iff_ne, ne_eq] at hguard
      exact .of_match rfl ⟨hguard.1.1, hguard.1.2, hguard.2⟩ rfl fun _ => rfl
    · exact .refused _
  | setattr dentry attr now φ err =>
    show Outcome env s _ (s.setattr env dentry attr now φ err)
    unfold Upper.setattr
    split
    · exact .refused _
    next f ino hdentry =>
    split
    · next hsymlink => exact .simpleSetattr attr now φ err hdentry hsymlink
    · next hsymlink =>
      have hadmitted : (UpperOp.setattr dentry attr now φ err).Admitted s := by
        intro g m hg
        obtain ⟨-, rfl⟩ := Prod.mk.inj (Option.some.inj (hdentry.symm.trans hg))
        exact hsymlink
      refine .of_match (e := .sync f ino) (by simp [UpperOp.call, hdentry]) hadmitted ?_
        fun _ => rfl
      simp [UpperOp.edit, hdentry]
  | rollback path timestamp φ opened => exact .rollback path timestamp φ opened
  | lookupShadow r base => exact .lookupShadow r base
  | drop dir name => exact .drop dir name
  | dropShadow r base => exact .dropShadow r base
  | evict ino => exact .evict ino

/-- What is below is as it was or the result of the call. -/
lemma Outcome.sys {op : UpperOp} {s' : Upper} (h : Outcome env s op s') :
    PassesDown env s (op.call s) s' := by
  cases h with
  | passed hcall => exact .inr ⟨_, hcall, (CacheEdit.apply_frame ..).sys⟩
  | rollback => exact .inr ⟨_, rfl, (rollback_frame ..).1⟩
  | lookup dir name φ => exact .inl (cowfsLookup_frame s dir name φ).sys
  | simpleSetattr attr now φ err => cases err <;> exact .inl rfl
  | refused | lookupShadow | drop | dropShadow | evict => exact .inl rfl

lemma upperStep_sys (env : Env) (s : Upper) (op : UpperOp) :
    PassesDown env s (op.call s) (upperStep env s op) :=
  (upperStep_outcome env s op).sys

end Cowfs
