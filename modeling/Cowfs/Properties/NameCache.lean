import Cowfs.Properties.FailedCalls
import Cowfs.Properties.Orphans
import Cowfs.Properties.TreeEffect
import Cowfs.Properties.UpperSteps

/-!
# Coherence of the name cache

A hashed dentry is used without asking the lower file system again, so it has to say what the
lower directory says.  Of the operations that change a name, unlink, rmdir, rename, the rollback
of a rename and that of a deletion drop or move the dentries of all names they change.  Others
leave one behind: `cowfs_symlink` and `cowfs_link` never instantiate the negative dentry they are
called with, `cowfs_create` and `cowfs_mkdir` do not when `cowfs_get_inode` fails, the rollback of
a `COW_OP_UNLINK` version to a path that resolves creates a name without dropping its dentry, and
the shadow files come and go under dentries of the shadow directory, or, when their path was cut,
of the tree.  The rollback of a directory's rename, finally, drops a dentry that others may go on
using; the directory then gets a second one, and what is done below the one is not seen below the
other.  `coherent_run` says that there is no other way.
-/

namespace Cowfs

open Upper

variable {env : Env} {s : Upper} {d : Fid} {n : CStr} {neg : Prop}

/-! ## Statement -/

/-- The dentry of a name, if hashed, says what the lower directory says. -/
def CoherentAt (s : Upper) (d : Fid) (n : CStr) : Prop :=
  ∀ e, s.dcache d n = some e → e = (s.sys.lower.entries d n).map s.sys.lower.inoOf

/-- The same of a name in the shadow directory of a root. -/
def ShadowCoherentAt (s : Upper) (r : Fid) (base : CStr) : Prop :=
  ∀ b, s.shadowCache r base = some b → b = (s.sys.store.fileAt r base).isSome

/-- Every hashed dentry is coherent, and no directory has two dentries, the names below which the
cache could not tell apart. -/
structure Coherent (s : Upper) : Prop where
  names : ∀ d n, CoherentAt s d n
  shadow : ∀ r base, ShadowCoherentAt s r base
  single : ∀ f, ¬ s.aliased f

/-- A file may be made at a place: its name in the shadow directory has no negative dentry, and
outside it is there already. -/
def Upper.Unnoticed (s : Upper) : ShadowPlace → Prop
  | .inside r base => s.shadowCache r base ≠ some false
  | .outside path => (s.sys.store.outside path).isSome

instance (s : Upper) (p : ShadowPlace) : Decidable (s.Unnoticed p) := by
  cases p <;> unfold Upper.Unnoticed <;> infer_instance

/-- The shadow file the snapshot opens has no negative dentry, and those of the versions it pushes
out have no positive one. -/
def LeavesNoShadow (env : Env) (s : Upper) (op : Op) : Prop :=
  (∀ x ∈ snapshotOf s.sys op, ∀ p ∈ x.opens env s.sys.store, s.Unnoticed p) ∧
  ∀ v ∈ leaving env s.sys op, op.removeFails v.node = false → ∀ p ∈ s.sys.store.victim v,
    s.shadowCache p.1 p.2 ≠ some true

instance (env : Env) (s : Upper) (op : Op) : Decidable (LeavesNoShadow env s op) :=
  inferInstanceAs (Decidable ((∀ x ∈ snapshotOf s.sys op, ∀ p ∈ x.opens env s.sys.store,
    s.Unnoticed p) ∧ ∀ v ∈ leaving env s.sys op, op.removeFails v.node = false →
      ∀ p ∈ s.sys.store.victim v, s.shadowCache p.1 p.2 ≠ some true))

/-- A step that leaves no dentry behind. -/
def LeavesNoDentry (env : Env) (s : Upper) : UpperOp → Prop
  | .create _ _ _ _ _ _ err nomem => err = none → nomem = false
  | .mkdir _ _ _ _ _ _ err nomem => err = none → nomem = false
  | .symlink _ _ _ _ _ _ err => err ≠ none
  | .link _ _ _ _ err => err ≠ none
  | .unlink dir name now φ err => LeavesNoShadow env s (.unlink dir name now φ err)
  | .rename d₁ n₁ d₂ n₂ flags ino now φ err =>
    LeavesNoShadow env s (.rename d₁ n₁ d₂ n₂ flags ino now φ err)
  | .setattr dentry attr now φ err =>
    ∀ f ino, s.resolve dentry = some (f, ino) → LeavesNoShadow env s (.setattr f attr now φ err)
  | .rollback path timestamp φ opened =>
    (∀ p v, chosen env s.sys path timestamp φ = .ok (.found p v) → v.opType = .unlink →
        φ.lookup = none → φ.create = none → s.dcache p.dir v.origName ≠ some none) ∧
      ∀ f, ¬ s.rollbackAliases env path timestamp φ opened f
  | _ => True

/-- `CoherentAt`, where `neg` decides whether it is asked of a negative dentry. -/
def AgreesAt (neg : Prop) (s : Upper) (d : Fid) (n : CStr) : Prop :=
  ∀ e, (e = none → neg) → s.dcache d n = some e →
    e = (s.sys.lower.entries d n).map s.sys.lower.inoOf

lemma AgreesAt.coherentAt (h : AgreesAt True s d n) : CoherentAt s d n :=
  fun e => h e fun _ => trivial

lemma CoherentAt.agreesAt (h : CoherentAt s d n) : AgreesAt neg s d n := fun e _ => h e

/-! ## Dentries -/

lemma agreesAt_dropped (s : Upper) (d : Fid) (n : CStr) :
    AgreesAt neg (s.setDentry d n none) d n := by
  intro e _ he
  rw [setDentry_self] at he
  cases he

/-- A dentry is coherent with the file it is instantiated for. -/
lemma agreesAt_instantiate (h : (s.sys.lower.entries d n).isSome) :
    AgreesAt neg (s.instantiate d n false) d n := by
  obtain ⟨f, hentry⟩ := Option.isSome_iff_exists.1 h
  obtain ⟨i, hi⟩ := Option.isSome_iff_exists.1 (s.sys.lower.linked d n f hentry)
  rw [instantiate_eq hentry hi]
  intro e _ he
  rw [if_neg (by simp), setDentry_self] at he
  obtain rfl := Option.some.inj he
  show some i.ino = (s.sys.lower.entries d n).map s.sys.lower.inoOf
  simp [hentry, Lower.inoOf, hi]

/-! ## The tree below -/

/-- A dentry taken over with the entry of its name stays coherent. -/
lemma AgreesAt.transfer {s' : Upper} {d' : Fid} {n' : CStr} (h : AgreesAt neg s d n)
    (hnum : ∀ f, (s.sys.lower.inodes f).isSome → s'.sys.lower.inoOf f = s.sys.lower.inoOf f)
    (hentry : s'.sys.lower.entries d' n' = s.sys.lower.entries d n)
    (hdentry : s'.dcache d' n' = s.dcache d n) : AgreesAt neg s' d' n' := by
  intro e hneg he
  rw [hdentry] at he
  rw [h e hneg he, hentry]
  cases hf : s.sys.lower.entries d n with
  | none => rfl
  | some f => simp [hnum f (s.sys.lower.linked d n f hf)]

/-- Every call keeps the numbers of the files there. -/
lemma below_inoOf (env : Env) (s : Upper) (op : Op) (hlink : op.LinksNamed s.sys.lower) {f : Fid}
    (hf : (s.sys.lower.inodes f).isSome) :
    (s.below env op).2.sys.lower.inoOf f = s.sys.lower.inoOf f :=
  (step_effect env s.sys op hlink).inoOf hf

/-- A call below the caches under which the entry of a name stays. -/
lemma AgreesAt.below (h : AgreesAt neg s d n) (op : Op) (hlink : op.LinksNamed s.sys.lower)
    (hentry : (step env s.sys op).lower.entries d n = s.sys.lower.entries d n) :
    AgreesAt neg (s.below env op).2 d n :=
  h.transfer (fun _ hf => below_inoOf env s op hlink hf) hentry rfl

lemma step_make_entries (env : Env) (sys : State) (type : Umode) (dir : Fid) (name : CStr)
    (mode : Umode) (cred : Cred) (ino now : UInt64) (err : Status) :
    ((exec env sys (.make type dir name mode cred ino now err)).1 = none ∧ err = none ∧
        sys.lower.entries dir name = none ∧
        (step env sys (.make type dir name mode cred ino now err)).lower.entries =
          fun d n => if d = dir ∧ n = name then some sys.lower.next
            else sys.lower.entries d n) ∨
      ((exec env sys (.make type dir name mode cred ino now err)).1 ≠ none ∧
        (step env sys (.make type dir name mode cred ino now err)).lower = sys.lower) := by
  simp only [step, exec, cowfsMake]
  cases sys.mount with
  | none => exact .inr ⟨by simp, rfl⟩
  | some sbi =>
    rcases h : vfsMake type sys.lower dir name mode cred ino now.toNat err with ⟨_ | e, l⟩
    · obtain ⟨hfree, herr, rfl⟩ := vfsMake_success h
      exact .inl ⟨rfl, herr, hfree, rfl⟩
    · exact .inr ⟨by simp, vfsMake_failure h⟩

lemma step_unlink_lower (env : Env) (sys : State) (dir : Fid) (name : CStr) (now : UInt64)
    (φ : SnapFaults) (err : Status) :
    ((exec env sys (.unlink dir name now φ err)).1 = none ∧
        (step env sys (.unlink dir name now φ err)).lower = sys.lower.dropEntry dir name) ∨
      ((exec env sys (.unlink dir name now φ err)).1 ≠ none ∧
        (step env sys (.unlink dir name now φ err)).lower = sys.lower) := by
  simp only [step, exec, Cowfs.cowfsUnlink]
  split
  · unfold vfsUnlink
    repeat' split
    all_goals first | exact .inr ⟨by simp, rfl⟩ | exact .inl ⟨rfl, rfl⟩
  · exact .inr ⟨by simp, rfl⟩

lemma step_rmdir_lower (env : Env) (sys : State) (dir : Fid) (name : CStr) (err : Status) :
    ((exec env sys (.rmdir dir name err)).1 = none ∧
        (step env sys (.rmdir dir name err)).lower = sys.lower.dropEntry dir name) ∨
      ((exec env sys (.rmdir dir name err)).1 ≠ none ∧
        (step env sys (.rmdir dir name err)).lower = sys.lower) := by
  simp only [step, exec, Cowfs.cowfsRmdir]
  split
  · exact .inr ⟨by simp, rfl⟩
  · unfold vfsRmdir
    repeat' split
    all_goals first | exact .inr ⟨by simp, rfl⟩ | exact .inl ⟨rfl, rfl⟩

lemma step_rename_lower (env : Env) (sys : State) (d₁ : Fid) (n₁ : CStr) (d₂ : Fid) (n₂ : CStr)
    (flags : RenameFlags) (ino now : UInt64) (φ : SnapFaults) (err : Status) :
    ((exec env sys (.rename d₁ n₁ d₂ n₂ flags ino now φ err)).1 = none ∧
        Renamed sys.lower d₁ n₁ d₂ n₂ flags ino now.toNat err none
          (step env sys (.rename d₁ n₁ d₂ n₂ flags ino now φ err)).lower) ∨
      ((exec env sys (.rename d₁ n₁ d₂ n₂ flags ino now φ err)).1 ≠ none ∧
        (step env sys (.rename d₁ n₁ d₂ n₂ flags ino now φ err)).lower = sys.lower) := by
  simp only [step, exec, Cowfs.cowfsRename]
  split
  · have h := vfsRename_cases sys.lower d₁ n₁ d₂ n₂ flags ino now.toNat err
    cases hr : (vfsRename sys.lower d₁ n₁ d₂ n₂ flags ino now.toNat err).1 with
    | none =>
      rw [hr] at h
      exact .inl ⟨rfl, h⟩
    | some e => exact .inr ⟨by simp, vfsRename_failure (by simp [hr])⟩
  · exact .inr ⟨by simp, rfl⟩

/-- A failing link leaves the tree alone. -/
lemma step_link_lower (env : Env) (sys : State) (f dir : Fid) (name : CStr) (e : Errno) :
    (step env sys (.link f dir name (some e))).lower = sys.lower := by
  simp only [step, exec, Cowfs.cowfsLink, vfsLink]
  repeat' split
  all_goals rfl

lemma step_link_entries (env : Env) (sys : State) (f dir : Fid) (name : CStr) (err : Status)
    (hne : ¬ (d = dir ∧ n = name)) :
    (step env sys (.link f dir name err)).lower.entries d n = sys.lower.entries d n := by
  simp only [step, exec, Cowfs.cowfsLink, vfsLink]
  repeat' split
  all_goals first | rfl | exact if_neg hne

/-- A setattr changes no entry. -/
lemma step_setattr_entries (env : Env) (sys : State) (f : Fid) (attr : Iattr) (now : UInt64)
    (φ : SnapFaults) (err : Status) :
    (step env sys (.setattr f attr now φ err)).lower.entries = sys.lower.entries := by
  simp only [step, exec, Cowfs.cowfsSetattr]
  split
  · unfold notifyChange
    split <;> rfl
  · rfl

/-! ## The operations -/

lemma AgreesAt.setDentry_of_ne {d' : Fid} {n' : CStr} (h : AgreesAt neg s d' n')
    (hne : ¬ (d' = d ∧ n' = n)) (o : Option Dentry) : AgreesAt neg (s.setDentry d n o) d' n' := by
  intro e hneg he
  rw [Cowfs.setDentry_of_ne hne] at he
  exact h e hneg he

lemma AgreesAt.instantiate_of_ne {d' : Fid} {n' : CStr} (h : AgreesAt neg s d' n')
    (hne : ¬ (d' = d ∧ n' = n)) (nomem : Bool) : AgreesAt neg (s.instantiate d n nomem) d' n' := by
  obtain ⟨hrest, hdentry⟩ := instantiate_frame s d n nomem
  intro e hneg he
  rw [hdentry d' n' hne] at he
  rw [hrest.sys]
  exact h e hneg he

/-- A lookup says what is there. -/
lemma agreesAt_lookup (h : ∀ d n, AgreesAt neg s d n) (dir : Fid) (name : CStr) (φ : LookupFaults)
    (d : Fid) (n : CStr) : AgreesAt neg (s.cowfsLookup dir name φ) d n := by
  refine cowfsLookup_elim (P := fun s => AgreesAt neg s d n) (h d n) (fun hnew hentry => ?_)
    fun hnew hentry => ?_
  · by_cases hat : d = dir ∧ n = name
    · obtain ⟨rfl, rfl⟩ := hat
      intro e _ he
      rw [setDentry_self] at he
      obtain rfl := Option.some.inj he
      simp [setDentry, hentry]
    · exact (h d n).setDentry_of_ne hat _
  · by_cases hat : d = dir ∧ n = name
    · obtain ⟨rfl, rfl⟩ := hat
      cases φ.inode with
      | false => exact agreesAt_instantiate hentry
      | true =>
        rw [instantiate_nomem]
        exact h d n
    · exact (h d n).instantiate_of_ne hat _

/-- Lookups of names that are there hash no negative dentry. -/
lemma dcache_lookUp {names : List (Fid × CStr)}
    (hnames : ∀ p ∈ names, (s.sys.lower.entries p.1 p.2).isSome)
    (h : (s.lookUp names).dcache d n = some none) : s.dcache d n = some none := by
  induction names generalizing s with
  | nil => exact h
  | cons p names ih =>
    have hsys := (cowfsLookup_frame s p.1 p.2 LookupFaults.clean).sys
    have hrest : ∀ q ∈ names,
        ((s.cowfsLookup p.1 p.2 LookupFaults.clean).sys.lower.entries q.1 q.2).isSome := by
      intro q hq
      rw [hsys]
      exact hnames q (List.mem_cons_of_mem p hq)
    have hone := ih hrest h
    revert hone
    refine cowfsLookup_elim (P := fun t => t.dcache d n = some none → s.dcache d n = some none) id
      (fun _ hentry => ?_) fun _ hentry => ?_
    · have hthere := hnames p List.mem_cons_self
      rw [hentry] at hthere
      cases hthere
    · obtain ⟨f, hf⟩ := Option.isSome_iff_exists.1 hentry
      obtain ⟨i, hi⟩ := Option.isSome_iff_exists.1 (s.sys.lower.linked p.1 p.2 f hf)
      rw [instantiate_eq hf hi, LookupFaults.clean, if_neg Bool.false_ne_true]
      by_cases hat : d = p.1 ∧ n = p.2
      · obtain ⟨rfl, rfl⟩ := hat
        rw [setDentry_self]
        rintro ⟨⟩
      · rw [Cowfs.setDentry_of_ne hat]
        exact id

/-- The calls of `cowfs_create` and `cowfs_mkdir`. -/
lemma agreesAt_make (h : ∀ d n, AgreesAt neg s d n) {type : Umode} {dir : Fid} {name : CStr}
    {mode : Umode} {cred : Cred} {ino now : UInt64} {err : Status} {nomem : Bool}
    (hnegative : s.dcache dir name = some none) (hok : neg → err = none → nomem = false)
    (d : Fid) (n : CStr) :
    AgreesAt neg (((CacheEdit.instantiate dir name nomem).onSuccess
        (exec env s.sys (.make type dir name mode cred ino now err)).1).apply
      (s.below env (.make type dir name mode cred ino now err)).2) d n := by
  have hcases := step_make_entries env s.sys type dir name mode cred ino now err
  have hbelow : ∀ d n, ¬ (d = dir ∧ n = name) →
      AgreesAt neg (s.below env (.make type dir name mode cred ino now err)).2 d n := by
    intro d n hne
    refine (h d n).below _ trivial ?_
    rcases hcases with ⟨-, -, -, hentries⟩ | ⟨-, hlower⟩
    · rw [hentries]
      exact if_neg hne
    · rw [hlower]
  refine CacheEdit.onSuccess_elim (P := fun s => AgreesAt neg s d n) (fun hr => ?_) (fun hr => ?_)
  · rcases hcases with ⟨-, herr, -, hentries⟩ | ⟨hne, -⟩
    · by_cases hat : d = dir ∧ n = name
      · obtain ⟨rfl, rfl⟩ := hat
        cases nomem with
        | false =>
          refine agreesAt_instantiate ?_
          show ((step env s.sys _).lower.entries d n).isSome
          rw [hentries]
          simp
        | true =>
          -- the dentry stays negative
          intro e hneg he
          replace he : ((s.below env _).2.instantiate d n true).dcache d n = some e := he
          rw [instantiate_nomem] at he
          obtain rfl := Option.some.inj (hnegative.symm.trans he)
          cases hok (hneg rfl) herr
      · exact (hbelow d n hat).instantiate_of_ne hat _
    · exact absurd hr hne
  · rcases hcases with ⟨hnone, -⟩ | ⟨-, hlower⟩
    · exact absurd hnone hr
    · exact (h d n).below _ trivial (by rw [hlower])

/-- A removed name is dropped. -/
lemma agreesAt_removed (h : ∀ d n, AgreesAt neg s d n) (op : Op) {dir : Fid} {name : CStr}
    (hlink : op.LinksNamed s.sys.lower)
    (hcases : ((exec env s.sys op).1 = none ∧
        (step env s.sys op).lower = s.sys.lower.dropEntry dir name) ∨
      ((exec env s.sys op).1 ≠ none ∧ (step env s.sys op).lower = s.sys.lower))
    (d : Fid) (n : CStr) :
    AgreesAt neg (((CacheEdit.drop [(dir, name)]).onSuccess (exec env s.sys op).1).apply
      (s.below env op).2) d n := by
  refine CacheEdit.onSuccess_elim (P := fun s => AgreesAt neg s d n) (fun hr => ?_) (fun hr => ?_)
  · rcases hcases with ⟨-, hlower⟩ | ⟨hne, -⟩
    · by_cases hat : d = dir ∧ n = name
      · obtain ⟨rfl, rfl⟩ := hat
        exact agreesAt_dropped _ d n
      · refine ((h d n).below op hlink ?_).setDentry_of_ne hat none
        rw [hlower, Lower.dropEntry_entries, if_neg hat]
    · exact absurd hr hne
  · rcases hcases with ⟨hnone, -⟩ | ⟨-, hlower⟩
    · exact absurd hnone hr
    · exact (h d n).below op hlink (by rw [hlower])

lemma eq_of_positive (h : s.positive d n = true) :
    s.dcache d n = some (some ((s.dcache d n).join.getD 0)) := by
  unfold positive at h
  rcases hd : s.dcache d n with _ | _ | ino
  · simp [hd] at h
  · simp [hd] at h
  · rfl

/-- The VFS moves the dentries as the lower file system moves the entries. -/
lemma agreesAt_moved (h : ∀ d n, AgreesAt neg s d n) {l : Lower} {d₁ d₂ : Fid} {n₁ n₂ : CStr}
    {flags : RenameFlags} {ino : UInt64} {now : ℕ} {err : Status}
    (h₁ : s.positive d₁ n₁ = true) (h₂ : (s.dcache d₂ n₂).isSome)
    (hne : s.dcache d₁ n₁ ≠ s.dcache d₂ n₂)
    (hren : Renamed s.sys.lower d₁ n₁ d₂ n₂ flags ino now err none l)
    {s' : Upper} (hlower : s'.sys.lower = l) (hdcache : s'.dcache = s.dcache)
    (hnum : ∀ f, (s.sys.lower.inodes f).isSome → l.inoOf f = s.sys.lower.inoOf f)
    (d : Fid) (n : CStr) : AgreesAt neg (s'.moveDentry d₁ n₁ d₂ n₂ flags.exchange) d n := by
  have hsys : (s'.moveDentry d₁ n₁ d₂ n₂ flags.exchange).sys.lower = l := by
    rw [moveDentry_sys, hlower]
  have hdentry := moveDentry_dcache s' d₁ n₁ d₂ n₂ flags.exchange d n
  rw [hdcache] at hdentry
  generalize s'.moveDentry d₁ n₁ d₂ n₂ flags.exchange = s'' at hsys hdentry ⊢
  have hnum' : ∀ f, (s.sys.lower.inodes f).isSome →
      s''.sys.lower.inoOf f = s.sys.lower.inoOf f := hsys ▸ hnum
  -- without an exchange the old name is not hashed afterwards
  have hmoved : ∀ {f : Fid}, flags.exchange = false → s.sys.lower.entries d₁ n₁ = some f →
      l.entries d₂ n₂ = some f →
      (¬ (d = d₁ ∧ n = n₁) → ¬ (d = d₂ ∧ n = n₂) →
        l.entries d n = s.sys.lower.entries d n) → AgreesAt neg s'' d n := by
    intro f hflag hf hto hoff
    rw [hflag, if_neg (by simp)] at hdentry
    by_cases hat₂ : d = d₂ ∧ n = n₂
    · obtain ⟨rfl, rfl⟩ := hat₂
      exact (h d₁ n₁).transfer hnum' (by rw [hsys, hto, hf]) (by simp [hdentry])
    rw [if_neg hat₂] at hdentry
    by_cases hat₁ : d = d₁ ∧ n = n₁
    · intro e _ he
      rw [hdentry, if_pos hat₁] at he
      cases he
    · exact (h d n).transfer hnum' (by rw [hsys, hoff hat₁ hat₂]) (by rw [hdentry, if_neg hat₁])
  cases hren with
  | @linked f hf hf' =>
    have he₁ := eq_of_positive h₁
    obtain ⟨e₂, he₂⟩ := Option.isSome_iff_exists.1 h₂
    by_cases hneg₂ : e₂ = none → neg
    · -- the VFS has stopped at two dentries of one inode
      have heq : some ((s.dcache d₁ n₁).join.getD 0) = e₂ := by
        rw [h d₁ n₁ _ (by simp) he₁, h d₂ n₂ e₂ hneg₂ he₂, hf, hf']
      exact absurd (by rw [he₁, he₂, heq]) hne
    -- the new dentry is negative although the name is there
    obtain ⟨rfl, hneg⟩ := Classical.not_imp.1 hneg₂
    by_cases hat₁ : flags.exchange = true ∧ d = d₁ ∧ n = n₁
    · intro e hneg' he
      rw [hdentry, if_pos hat₁, he₂] at he
      exact absurd (hneg' (Option.some.inj he).symm) hneg
    rw [if_neg hat₁] at hdentry
    by_cases hat₂ : d = d₂ ∧ n = n₂
    · obtain ⟨rfl, rfl⟩ := hat₂
      exact (h d₁ n₁).transfer hnum' (by rw [hsys, hf', hf]) (by rw [hdentry]; simp)
    rw [if_neg hat₂] at hdentry
    by_cases hat : d = d₁ ∧ n = n₁
    · intro e _ he
      rw [hdentry, if_pos hat] at he
      cases he
    · exact (h d n).transfer hnum' (by rw [hsys]) (by rw [hdentry, if_neg hat])
  | @exchanged f g hf hg hgf hflag =>
    have hplaces : ¬ (d₁ = d₂ ∧ n₁ = n₂) := by
      rintro ⟨rfl, rfl⟩
      exact hgf (Option.some.inj (hg.symm.trans hf))
    have hentry := s.sys.lower.swapEntries_entries d₁ n₁ d₂ n₂ f g (s.sys.lower.linked _ _ _ hf)
      (s.sys.lower.linked _ _ _ hg) d n
    rw [← hsys] at hentry
    by_cases hat₁ : d = d₁ ∧ n = n₁
    · obtain ⟨rfl, rfl⟩ := hat₁
      exact (h d₂ n₂).transfer hnum' (by simp [hentry, hplaces, hg]) (by simp [hdentry, hflag])
    · by_cases hat₂ : d = d₂ ∧ n = n₂
      · obtain ⟨rfl, rfl⟩ := hat₂
        exact (h d₁ n₁).transfer hnum' (by simp [hentry, hf]) (by simp [hdentry, hat₁])
      · exact (h d n).transfer hnum' (by rw [hentry, if_neg hat₂, if_neg hat₁])
          (by rw [hdentry, if_neg (fun h => hat₁ h.2), if_neg hat₂, if_neg hat₁])
  | @moved f hf hnf hok hflag hwhite =>
    refine hmoved hflag hf (by simp [Lower.moveEntry_entries]) fun hat₁ hat₂ => ?_
    rw [Lower.moveEntry_entries, if_neg hat₂, if_neg hat₁]
  | @whitened f hf hnf hok hflag hwhite =>
    have hplaces : ¬ (d₂ = d₁ ∧ n₂ = n₁) := by
      rintro ⟨rfl, rfl⟩
      exact hnf hf
    refine hmoved hflag hf (by simp [Lower.addNode_entries, Lower.moveEntry_entries, hplaces])
      fun hat₁ hat₂ => ?_
    rw [Lower.addNode_entries, if_neg hat₁, Lower.moveEntry_entries, if_neg hat₂, if_neg hat₁]

/-! ## Rollback -/

/-- A name a path resolves to is there. -/
lemma entries_of_cowfsPath {sys : State} {path : CStr} {err : Status} {p : Place}
    (h : cowfsPath env sys path err = .ok p) : sys.lower.entries p.dir p.name = some p.file := by
  unfold cowfsPath kernPath at h
  cases err with
  | some e => cases h
  | none =>
    dsimp only at h
    split at h
    · cases h
    · cases h
    next d n f hpath =>
      cases h
      exact env.kernPath_entry _ _ _ _ _ _ hpath

lemma entries_of_rollbackPlaces {sys : State} {path : CStr} {timestamp : UInt64}
    {φ : RollbackFaults} : ∀ p ∈ rollbackPlaces env sys path timestamp φ,
      (sys.lower.entries p.1 p.2).isSome := by
  intro p hp
  unfold rollbackPlaces at hp
  split at hp
  · cases hp
  split at hp
  · split at hp
    · cases hp
    next parent base hparent =>
      obtain rfl := List.mem_singleton.1 hp
      have hpath : ∃ dirbuf, cowfsPath env sys dirbuf φ.parent = .ok parent := by
        unfold deletedParent at hparent
        split at hparent
        · cases hparent
        dsimp only at hparent
        split at hparent
        · cases hparent
        split at hparent
        · cases hparent
        split at hparent
        · cases hparent
        next hok =>
          cases hparent
          exact ⟨_, hok⟩
      obtain ⟨dirbuf, hpath⟩ := hpath
      rw [entries_of_cowfsPath hpath]
      rfl
  · cases hp
  next p' hpath =>
    obtain rfl := List.mem_singleton.1 hp
    rw [entries_of_cowfsPath hpath]
    rfl

/-- The names a rollback drops the dentries of. -/
def Choice.drops (sys : State) (φ : RollbackFaults) : Choice → List (Fid × CStr)
  | .deleted dir base _ => [(dir, base)]
  | .found p v => versionDrops sys p v φ

lemma deletedDrops_eq (env : Env) (sys : State) (path : CStr) (timestamp : UInt64)
    (φ : RollbackFaults) :
    deletedDrops env sys path timestamp φ =
      match chosenDeleted env sys path timestamp φ with
      | .error _ => []
      | .ok c => c.drops sys φ := by
  unfold deletedDrops deletedParent chosenDeleted
  cases strrchr '/' (strscpy reqPathSize path) with
  | none => rfl
  | some p =>
    obtain ⟨dir, b⟩ := p
    dsimp only
    generalize path.drop (dir.length + 1) = base
    generalize (if dir = [] then ['/'] else dir) = dirbuf
    by_cases hbase : base = []
    · rw [if_pos hbase, if_pos hbase]
    rw [if_neg hbase, if_neg hbase]
    cases versionFindDeleted sys.store.table base timestamp with
    | none => rfl
    | some v =>
      dsimp only
      cases cowfsPath env sys dirbuf φ.parent with
      | error e => rfl
      | ok parent => cases hdir : sys.lower.isDir parent.file <;> simp [hdir, Choice.drops]

lemma rollbackDrops_eq (env : Env) (sys : State) (path : CStr) (timestamp : UInt64)
    (φ : RollbackFaults) :
    rollbackDrops env sys path timestamp φ =
      match chosen env sys path timestamp φ with
      | .error _ => []
      | .ok c => c.drops sys φ := by
  unfold rollbackDrops chosen
  cases φ.copyIn with
  | true => rfl
  | false =>
    simp only [Bool.false_eq_true, if_false]
    cases pathToLowerIno env sys path φ.path with
    | error e =>
      cases e with
      | enoent => exact deletedDrops_eq env sys path timestamp φ
      | _ => rfl
    | ok ino =>
      dsimp only
      cases versionFind env.hash sys.store.table ino timestamp with
      | none => rfl
      | some v =>
        dsimp only
        cases cowfsPath env sys path φ.path₂ <;> rfl

lemma recreate_entries (env : Env) (sys : State) (dir : Fid) (name : CStr) (v : CowVersion)
    (φ : RollbackFaults) (hsame : (d = dir ∧ n = name) →
      φ.create ≠ none ∨ sys.lower.entries dir name ≠ none) :
    (recreate env sys dir name v φ).2.entries d n = sys.lower.entries d n := by
  unfold recreate
  rcases hcreate : vfsCreate sys.lower dir name v.savedStat.mode φ.cred φ.ino φ.now φ.create with
    ⟨_ | e, l⟩
  · obtain ⟨hfree, herr, rfl⟩ := vfsMake_success hcreate
    have hne : ¬ (d = dir ∧ n = name) := by
      intro hat
      rcases hsame hat with h | h
      · exact h herr
      · exact h hfree
    dsimp only
    split
    · rw [restore_entries, Lower.addNode_entries, if_neg hne]
    · rw [Lower.addNode_entries, if_neg hne]
  · rfl

/-- A rename without flags changes the entries of its two names only. -/
lemma vfsRename_entries {l : Lower} {d₁ d₂ : Fid} {n₁ n₂ : CStr} {ino : UInt64} {now : ℕ}
    {err : Status} (h₁ : ¬ (d = d₁ ∧ n = n₁)) (h₂ : ¬ (d = d₂ ∧ n = n₂)) :
    (vfsRename l d₁ n₁ d₂ n₂ RenameFlags.zero ino now err).2.entries d n = l.entries d n := by
  have h := vfsRename_cases l d₁ n₁ d₂ n₂ RenameFlags.zero ino now err
  generalize (vfsRename l d₁ n₁ d₂ n₂ RenameFlags.zero ino now err).1 = r at h
  generalize (vfsRename l d₁ n₁ d₂ n₂ RenameFlags.zero ino now err).2 = l' at h ⊢
  cases h with
  | refused => rfl
  | linked => rfl
  | exchanged _ _ _ hflag => cases hflag
  | moved => rw [Lower.moveEntry_entries, if_neg h₂, if_neg h₁]
  | whitened _ _ _ _ hwhite => cases hwhite

/-- A rollback that finds a version keeps the entries of the names it does not drop; in the branch
of a deletion, as long as it does not create the name. -/
lemma dispatch_entries (env : Env) (sys : State) (p : Place) (v : CowVersion)
    (φ : RollbackFaults) (hdrop : (d, n) ∉ versionDrops sys p v φ)
    (hunlink : v.opType = .unlink → φ.lookup = none → (d = p.dir ∧ n = v.origName) →
      φ.create ≠ none ∨ sys.lower.entries p.dir v.origName ≠ none) :
    (rollbackDispatch env sys p v φ).2.entries d n = sys.lower.entries d n := by
  unfold rollbackDispatch
  unfold versionDrops at hdrop
  split
  · next hop =>
    rw [rollbackUnlink_eq]
    cases hlookup : φ.lookup with
    | some e => rfl
    | none => exact recreate_entries env sys p.dir v.origName v φ (hunlink hop hlookup)
  next hop =>
  split
  · rw [restore_entries]
  next hdata =>
  split
  · next hren =>
    rw [if_neg hop, if_neg hdata, if_pos hren] at hdrop
    cases hlookup : φ.lookup with
    | some e => simp [rollbackRename, hlookup]
    | none =>
      have hcall : rollbackRename sys p v φ = vfsRename sys.lower p.dir p.name p.dir v.origName
          RenameFlags.zero φ.ino φ.now φ.rename := by
        simp [rollbackRename, hlookup]
      rw [hlookup, hcall] at hdrop
      rw [hcall]
      cases hr : (vfsRename sys.lower p.dir p.name p.dir v.origName RenameFlags.zero φ.ino φ.now
          φ.rename).1 with
      | some e => rw [vfsRename_failure (by simp [hr])]
      | none =>
        rw [hr] at hdrop
        refine vfsRename_entries ?_ ?_
        · rintro ⟨rfl, rfl⟩
          simp at hdrop
        · rintro ⟨rfl, rfl⟩
          simp at hdrop
  · rfl

lemma agreesAt_rollbackWalked (h : ∀ d n, AgreesAt neg s d n) {path : CStr} {timestamp : UInt64}
    {φ : RollbackFaults}
    (hok : neg → ∀ p v, chosen env s.sys path timestamp φ = .ok (.found p v) →
      v.opType = .unlink → φ.lookup = none → φ.create = none →
        s.dcache p.dir v.origName ≠ some none)
    (d : Fid) (n : CStr) : AgreesAt neg (s.rollbackWalked env path timestamp φ) d n := by
  obtain ⟨hsys, -, -, hdcache⟩ := rollbackWalked_frame env s path timestamp φ
  intro e hneg he
  rw [hdcache] at he
  rw [hsys]
  split at he
  · cases he
  next hkept =>
  -- the dentry was hashed before, so it says what the entry was
  have hsame : (step env s.sys (.rollback path timestamp φ)).lower.entries d n =
      s.sys.lower.entries d n := by
    rw [rollbackDrops_eq] at hkept
    show (ioctlRollback env s.sys path timestamp φ).2.lower.entries d n = _
    rw [ioctlRollback_eq]
    cases hc : chosen env s.sys path timestamp φ with
    | error e => rfl
    | ok c =>
      rw [hc] at hkept
      cases c with
      | deleted dir base v =>
        have hne : ¬ (d = dir ∧ n = base) := by
          rintro ⟨rfl, rfl⟩
          simp [Choice.drops] at hkept
        dsimp only [act]
        cases φ.lookup with
        | some e => rfl
        | none => exact recreate_entries env s.sys dir base v φ fun hat => absurd hat hne
      | found p v =>
        show (rollbackVersion env s.sys p v φ).2.lower.entries d n = _
        have hdispatch := dispatch_entries env s.sys p v φ hkept
          fun hop hlookup => by
            rintro ⟨rfl, rfl⟩
            refine or_iff_not_imp_left.2 fun hcreate hfree => ?_
            obtain rfl : e = none := by rw [h _ _ e hneg he, hfree, Option.map_none]
            exact hok (hneg rfl) p v hc hop hlookup (not_not.1 hcreate) he
        rw [rollbackVersion_lower]
        split
        · rw [← hdispatch]
          cases φ.notify <;> rfl
        · exact hdispatch
  exact (h d n).below (.rollback path timestamp φ) trivial hsame e hneg he

lemma agreesAt_rollback (h : ∀ d n, AgreesAt neg s d n) {path : CStr} {timestamp : UInt64}
    {φ : RollbackFaults} {opened : Fid → Bool}
    (hok : neg → LeavesNoDentry env s (.rollback path timestamp φ opened)) (d : Fid) (n : CStr) :
    AgreesAt neg (s.rollback env path timestamp φ opened) d n := by
  have hwalked : ∀ d n, AgreesAt neg (s.lookUp (rollbackPlaces env s.sys path timestamp φ)) d n :=
    lookUp_induct (P := fun t => ∀ d n, AgreesAt neg t d n)
      (fun t dir name ht => agreesAt_lookup ht dir name LookupFaults.clean) h _
  refine agreesAt_rollbackWalked hwalked (fun hneg p v hc hop hlookup hcreate hdentry => ?_) d n
  rw [(lookUp_frame s (rollbackPlaces env s.sys path timestamp φ)).sys] at hc
  exact (hok hneg).1 p v hc hop hlookup hcreate
    (dcache_lookUp entries_of_rollbackPlaces hdentry)

/-! ## Every operation -/

lemma agreesAt_rename (h : ∀ d n, AgreesAt neg s d n) {d₁ d₂ : Fid} {n₁ n₂ : CStr}
    {flags : RenameFlags} {ino now : UInt64} {φ : SnapFaults} {err : Status}
    (h₁ : s.positive d₁ n₁ = true) (h₂ : (s.dcache d₂ n₂).isSome)
    (hne : s.dcache d₁ n₁ ≠ s.dcache d₂ n₂) (d : Fid) (n : CStr) :
    AgreesAt neg (((CacheEdit.move d₁ n₁ d₂ n₂ flags.exchange).onSuccess
        (exec env s.sys (.rename d₁ n₁ d₂ n₂ flags ino now φ err)).1).apply
      (s.below env (.rename d₁ n₁ d₂ n₂ flags ino now φ err)).2) d n := by
  have hcases := step_rename_lower env s.sys d₁ n₁ d₂ n₂ flags ino now φ err
  refine CacheEdit.onSuccess_elim (P := fun s => AgreesAt neg s d n) (fun hr => ?_) (fun hr => ?_)
  · rcases hcases with ⟨-, hren⟩ | ⟨hfail, -⟩
    · refine agreesAt_moved h h₁ h₂ hne hren ?_ ?_ ?_ d n
      · rfl
      · rfl
      · exact fun f hf => below_inoOf env s (.rename d₁ n₁ d₂ n₂ flags ino now φ err) trivial hf
    · exact absurd hr hfail
  · rcases hcases with ⟨hnone, -⟩ | ⟨-, hlower⟩
    · exact absurd hnone hr
    · exact (h d n).below (.rename d₁ n₁ d₂ n₂ flags ino now φ err) trivial (by rw [hlower])

/-- The calls that are passed down, with the edits after them. -/
lemma agreesAt_passed (h : ∀ d n, AgreesAt neg s d n) {op : UpperOp} {o : Op}
    (hcall : op.call s = some o) (hadmitted : op.Admitted s)
    (hok : neg → LeavesNoDentry env s op) (d : Fid) (n : CStr) :
    AgreesAt neg ((op.edit s (exec env s.sys o).1).apply (s.below env o).2) d n := by
  cases op with
  | create | mkdir =>
    obtain rfl := Option.some.inj hcall
    exact agreesAt_make h hadmitted hok d n
  | symlink dir name mode cred ino now err =>
    obtain rfl := Option.some.inj hcall
    intro e hneg he
    refine (h d n).below (.make sIFLNK dir name mode cred ino now err) trivial ?_ e hneg he
    rcases step_make_entries env s.sys sIFLNK dir name mode cred ino now err with
      ⟨-, hnone, -, hentries⟩ | ⟨-, hlower⟩
    · rw [hentries]
      refine if_neg ?_
      rintro ⟨rfl, rfl⟩
      obtain rfl := Option.some.inj (hadmitted.symm.trans he)
      exact hok (hneg rfl) hnone
    · rw [hlower]
  | link oldDir old dir name err =>
    obtain ⟨f, hf, rfl⟩ := Option.map_eq_some_iff.1 hcall
    intro e hneg he
    refine (h d n).below (.link f dir name err) ⟨oldDir, old, hf⟩ ?_ e hneg he
    by_cases hat : d = dir ∧ n = name
    · obtain ⟨rfl, rfl⟩ := hat
      obtain rfl := Option.some.inj (hadmitted.2.symm.trans he)
      obtain ⟨e, rfl⟩ := Option.ne_none_iff_exists'.1 (hok (hneg rfl))
      rw [step_link_lower]
    · exact step_link_entries env s.sys f dir name err hat
  | unlink dir name now φ err =>
    obtain rfl := Option.some.inj hcall
    exact agreesAt_removed h (.unlink dir name now φ err) trivial
      (step_unlink_lower env s.sys dir name now φ err) d n
  | rmdir dir name err =>
    obtain rfl := Option.some.inj hcall
    exact agreesAt_removed h (.rmdir dir name err) trivial
      (step_rmdir_lower env s.sys dir name err) d n
  | rename d₁ n₁ d₂ n₂ flags ino now φ err =>
    obtain rfl := Option.some.inj hcall
    exact agreesAt_rename h hadmitted.1 hadmitted.2.1 hadmitted.2.2 d n
  | setattr dentry attr now φ err =>
    obtain ⟨⟨f, ino⟩, hdentry, rfl⟩ := Option.map_eq_some_iff.1 hcall
    have hbelow : AgreesAt neg (s.below env (.setattr f attr now φ err)).2 d n :=
      (h d n).below (.setattr f attr now φ err) trivial (by rw [step_setattr_entries])
    simp only [UpperOp.edit, hdentry, Option.elim_some]
    exact CacheEdit.onSuccess_elim (P := fun s => AgreesAt neg s d n) (fun _ => hbelow)
      (fun _ => hbelow)
  | rollback => exact hadmitted.elim
  | lookup | lookupShadow | drop | dropShadow | evict => cases hcall

/-- Each operation keeps the names coherent. -/
lemma agreesAt_step (h : ∀ d n, AgreesAt neg s d n) {op : UpperOp}
    (hok : neg → LeavesNoDentry env s op) (d : Fid) (n : CStr) :
    AgreesAt neg (upperStep env s op) d n := by
  have houtcome := upperStep_outcome env s op
  generalize upperStep env s op = s' at houtcome
  cases houtcome with
  | refused | lookupShadow | dropShadow | evict => exact h d n
  | passed hcall hadmitted => exact agreesAt_passed h hcall hadmitted hok d n
  | rollback => exact agreesAt_rollback h hok d n
  | lookup dir name φ => exact agreesAt_lookup h dir name φ d n
  | simpleSetattr attr now φ err => cases err <;> exact h d n
  | drop dir name =>
    by_cases hat : d = dir ∧ n = name
    · obtain ⟨rfl, rfl⟩ := hat
      exact agreesAt_dropped s d n
    · exact (h d n).setDentry_of_ne hat none

/-! ## The shadow directory -/

/-- Whether a file is there after the copy. -/
lemma copy_isSome {x : Snapshot} {st : Store} {r : Fid} {base : CStr} (halloc : x.φ.alloc = false)
    (hopens : x.opens env st = some (.inside r base) → (st.fileAt r base).isSome) :
    ((x.copy env st).2.fileAt r base).isSome = (st.fileAt r base).isSome := by
  refine (congrArg Option.isSome (Snapshot.fileIn_copy halloc (.inside r base))).trans ?_
  split
  · next hx =>
    rw [hopens hx]
    rfl
  · rfl

/-- A snapshot that changes no cached name keeps the cached ones coherent. -/
lemma ShadowCoherentAt.below {op : Op} {r : Fid} {base : CStr} (h : ShadowCoherentAt s r base)
    (hinv : StoreInv env s.sys.store) (hop : op.recordsFirst = true)
    (hok : LeavesNoShadow env s op) : ShadowCoherentAt (s.below env op).2 r base := by
  intro b hb
  have hbefore : b = (s.sys.store.fileAt r base).isSome := h b hb
  refine hbefore.trans (Eq.symm ?_)
  show ((step env s.sys op).store.fileAt r base).isSome = _
  rw [store_of_recordsFirst hop]
  cases hx : snapshotOf s.sys op with
  | none => rfl
  | some x =>
    show ((x.take env s.sys.store).fileAt r base).isSome = _
    have hopens : x.opens env s.sys.store = some (.inside r base) →
        (s.sys.store.fileAt r base).isSome := by
      intro hopens
      by_contra hnone
      have hfalse : s.shadowCache r base = some false := hb.trans (by simp [hbefore, hnone])
      exact hok.1 x hx (.inside r base) hopens hfalse
    by_cases henters : x.Enters env s.sys.store
    · obtain ⟨t, htake, -⟩ := Snapshot.take_of_enters hinv.table henters
      rw [htake]
      cases hfile : (s.sys.store.fileAt r base).isSome with
      | false =>
        have hcopy := copy_isSome henters.1 hopens
        rw [hfile, Option.isSome_eq_false_iff, Option.isNone_iff_eq_none] at hcopy
        have hcopy' : Store.fileAt { (x.copy env s.sys.store).2 with table := t } r base = none :=
          hcopy
        rw [fileAt_versionsFree_none hcopy']
        rfl
      | true =>
        have hcopy : ((x.copy env s.sys.store).2.fileAt r base).isSome :=
          (copy_isSome henters.1 hopens).trans hfile
        rw [fileAt_versionsFree_kept]
        · exact hcopy
        · intro v hv hfail hvictim
          have hleaving : v ∈ leaving env s.sys op := by
            rw [leaving_of_snapshot hx, if_pos henters]
            exact hv
          have hsame : SameBut s.sys.store.takeNode (x.copy env s.sys.store).2 :=
            (Snapshot.copy_cases rfl).same
          refine hok.2 v hleaving ?_ (r, base) ((hsame.victim v).symm.trans hvictim) ?_
          · rw [removeFails_of_snapshot hx, hfail]
          · exact hb.trans (by rw [hbefore, hfile])
    · rw [Snapshot.take_of_not_enters henters]
      cases halloc : x.φ.alloc with
      | true => rfl
      | false => exact copy_isSome halloc hopens

/-- The shadow names are as before, and so are the shadow directories. -/
structure SameShadow (s s' : Upper) : Prop where
  cache : s'.shadowCache = s.shadowCache
  store : s'.sys.store = s.sys.store

lemma ShadowCoherentAt.same {s' : Upper} {r : Fid} {base : CStr} (h : ShadowCoherentAt s r base)
    (hs' : SameShadow s s') : ShadowCoherentAt s' r base := by
  intro b hb
  rw [hs'.cache] at hb
  rw [hs'.store]
  exact h b hb

/-- Making, linking and removing names leaves the store alone. -/
lemma step_store_names (env : Env) (sys : State) :
    (∀ type dir name mode cred ino now err,
      (step env sys (.make type dir name mode cred ino now err)).store = sys.store) ∧
    (∀ f dir name err, (step env sys (.link f dir name err)).store = sys.store) ∧
    ∀ dir name err, (step env sys (.rmdir dir name err)).store = sys.store := by
  refine ⟨fun type dir name mode cred ino now err => ?_, fun f dir name err => ?_,
    fun dir name err => ?_⟩
  · simp only [step, exec, cowfsMake]
    split <;> rfl
  · simp only [step, exec, Cowfs.cowfsLink]
    split <;> rfl
  · simp only [step, exec, Cowfs.cowfsRmdir]
    split <;> rfl

/-- The calls that are passed down. -/
lemma ShadowCoherentAt.passed {r : Fid} {base : CStr} (h : ShadowCoherentAt s r base)
    (hinv : StoreInv env s.sys.store) {op : UpperOp} {o : Op} (hcall : op.call s = some o)
    (hok : LeavesNoDentry env s op) : ShadowCoherentAt (s.below env o).2 r base := by
  obtain ⟨hmake, hlink, hrmdir⟩ := step_store_names env s.sys
  cases op with
  | create | mkdir | symlink =>
    obtain rfl := Option.some.inj hcall
    exact h.same ⟨rfl, hmake ..⟩
  | link oldDir old dir name err =>
    obtain ⟨f, -, rfl⟩ := Option.map_eq_some_iff.1 hcall
    exact h.same ⟨rfl, hlink ..⟩
  | rmdir dir name err =>
    obtain rfl := Option.some.inj hcall
    exact h.same ⟨rfl, hrmdir ..⟩
  | unlink | rename =>
    obtain rfl := Option.some.inj hcall
    exact h.below hinv rfl hok
  | setattr dentry attr now φ err =>
    obtain ⟨⟨f, ino⟩, hdentry, rfl⟩ := Option.map_eq_some_iff.1 hcall
    exact h.below hinv rfl (hok f ino hdentry)
  | rollback path timestamp φ =>
    obtain rfl := Option.some.inj hcall
    obtain ⟨l, hl⟩ := ioctlRollback_frame env s.sys path timestamp φ
    refine h.same ⟨rfl, ?_⟩
    show (ioctlRollback env s.sys path timestamp φ).2.store = _
    rw [hl]
  | lookup | lookupShadow | drop | dropShadow | evict => cases hcall

lemma update_update_of_ne {α β γ : Type*} [DecidableEq α] [DecidableEq β] {a a' : α} {b b' : β}
    (h : ¬ (a' = a ∧ b' = b)) (f : α → β → γ) (c : γ) :
    Function.update f a (Function.update (f a) b c) a' b' = f a' b' := by
  by_cases ha : a' = a
  · subst ha
    rw [Function.update_self, Function.update_of_ne (by simpa using h)]
  · rw [Function.update_of_ne ha]

/-- Each operation keeps the names in the shadow directories coherent. -/
lemma shadowCoherentAt_step {r : Fid} {base : CStr} (h : ShadowCoherentAt s r base)
    (hinv : StoreInv env s.sys.store) {op : UpperOp} (hok : LeavesNoDentry env s op) :
    ShadowCoherentAt (upperStep env s op) r base := by
  have houtcome := upperStep_outcome env s op
  generalize upperStep env s op = s' at houtcome
  cases houtcome with
  | refused => exact h
  | @passed _ o hcall =>
    have hrest := (op.edit s (exec env s.sys o).1).apply_frame (s.below env o).2
    exact (h.passed hinv hcall hok).same ⟨hrest.shadow, by rw [hrest.sys]⟩
  | rollback path timestamp φ opened =>
    obtain ⟨hsys, hcache⟩ := rollback_frame env s path timestamp φ opened
    exact (h.passed hinv rfl hok).same ⟨hcache, by rw [hsys]; rfl⟩
  | lookup dir name φ =>
    have hrest := cowfsLookup_frame s dir name φ
    exact h.same ⟨hrest.shadow, by rw [hrest.sys]⟩
  | drop | evict => exact h.same ⟨rfl, rfl⟩
  | simpleSetattr attr now φ err => cases err <;> exact h.same ⟨rfl, rfl⟩
  | lookupShadow r' base' =>
    intro b hb
    change (s.lookupShadow r' base').shadowCache r base = some b at hb
    show b = (s.sys.store.fileAt r base).isSome
    by_cases hat : r = r' ∧ base = base'
    · obtain ⟨rfl, rfl⟩ := hat
      simp only [lookupShadow, Function.update_self, Option.some.injEq] at hb
      exact hb.symm
    · exact h b ((update_update_of_ne hat _ _).symm.trans hb)
  | dropShadow r' base' =>
    intro b hb
    by_cases hat : r = r' ∧ base = base'
    · obtain ⟨rfl, rfl⟩ := hat
      simp [upperStep] at hb
    · exact h b ((update_update_of_ne hat _ _).symm.trans hb)

/-! ## Second dentries -/

/-- Only a rollback can give a directory a second dentry. -/
lemma aliased_step (h : ∀ f, ¬ s.aliased f) {op : UpperOp}
    (hok : ∀ path timestamp φ opened, op = .rollback path timestamp φ opened →
      ∀ f, ¬ s.rollbackAliases env path timestamp φ opened f) (f : Fid) :
    ¬ (upperStep env s op).aliased f := by
  have houtcome := upperStep_outcome env s op
  generalize upperStep env s op = s' at houtcome
  cases houtcome with
  | refused | lookupShadow | drop | dropShadow | evict => exact h f
  | @passed _ o =>
    rw [((op.edit s (exec env s.sys o).1).apply_frame (s.below env o).2).aliased]
    exact h f
  | rollback path timestamp φ opened => exact not_or.2 ⟨h f, hok path timestamp φ opened rfl f⟩
  | lookup dir name φ =>
    rw [(cowfsLookup_frame s dir name φ).aliased]
    exact h f
  | simpleSetattr attr now φ err => cases err <;> exact h f

/-! ## Runs -/

lemma storeInv_upperStep (h : StoreInv env s.sys.store) (op : UpperOp) :
    StoreInv env (upperStep env s op).sys.store := by
  rcases upperStep_sys env s op with hsame | ⟨o, -, hstep⟩
  · rw [hsame]
    exact h
  · rw [hstep]
    exact h.step o

/-- **Coherence of the names.**  In every run over a mounted tree in which no operation leaves a
dentry behind, every hashed dentry agrees with the lower directory: it is negative exactly when
the name is absent, and otherwise bound to the number of the file there.  And it is the only one
of its name. -/
theorem coherent_run (env : Env) (sys : State) (hsys : Reachable env sys) (ops : List UpperOp)
    (h : Along (upperStep env) (LeavesNoDentry env) (.start sys) ops) :
    Coherent (run (upperStep env) (.start sys) ops) := by
  refine (invariant_run (I := fun s => Coherent s ∧ StoreInv env s.sys.store)
    (fun s op hs hok => ?_) ?_ h).1
  · exact ⟨⟨fun d n =>
        (agreesAt_step (fun d n => (hs.1.names d n).agreesAt) (fun _ => hok) d n).coherentAt,
      fun r base => shadowCoherentAt_step (hs.1.shadow r base) hs.2 hok,
      aliased_step hs.1.single fun _ _ _ _ hop => by subst hop; exact hok.2⟩,
      storeInv_upperStep hs.2 op⟩
  · refine ⟨⟨fun d n e he => ?_, fun r base b hb => ?_, fun _ => id⟩, hsys.storeInv⟩
    · cases he
    · cases hb

/-- The small tree is mounted. -/
def mountedTree : State :=
  run (step smallEnv) (State.init smallTree fun _ => none) [.mount ['/', 'l'] none none]

lemma mountedTree_reachable : Reachable smallEnv mountedTree := ⟨_, _, _, rfl⟩

/-- `x` is made, moved to `y` and removed; a name of the shadow directory is looked up before. -/
def coherentOps : List UpperOp :=
  [.lookup 1 ['x'] ⟨none, false, false⟩, .create 1 ['x'] 0x1A4#16 ⟨0, 0, 0⟩ 10 1 none false,
    .lookup 1 ['y'] ⟨none, false, false⟩, .lookupShadow 1 ['1', '0', '_', '1'],
    .rename 1 ['x'] 1 ['y'] .zero 0 1000 .clean none, .unlink 1 ['y'] 2000 .clean none]

theorem coherent_run_small :
    Coherent (run (upperStep smallEnv) (.start mountedTree) coherentOps) := by
  refine coherent_run smallEnv mountedTree mountedTree_reachable coherentOps ?_
  refine ⟨trivial, fun _ => rfl, trivial, trivial, ?_, ?_, trivial⟩
  · show LeavesNoShadow _ _ _
    decide +kernel
  · show LeavesNoShadow _ _ _
    decide +kernel

/-- A symbolic link is made under a name that was looked up before: the name stays absent for
everyone who uses the dentry. -/
theorem symlink_stays_negative :
    let s := run (upperStep smallEnv) (.start mountedTree)
      [.lookup 1 ['s'] ⟨none, false, false⟩, .symlink 1 ['s'] 0x1FF#16 ⟨0, 0, 0⟩ 10 1 none]
    Reachable smallEnv mountedTree ∧ s.dcache 1 ['s'] = some none ∧
      s.sys.lower.entries 1 ['s'] = some 4 ∧ ¬ Coherent s := by
  intro s
  have hdentry : s.dcache 1 ['s'] = some none := by decide +kernel
  have hentry : s.sys.lower.entries 1 ['s'] = some 4 := by decide +kernel
  refine ⟨mountedTree_reachable, hdentry, hentry, fun h => ?_⟩
  have hnegative := h.names 1 ['s'] none hdentry
  rw [hentry] at hnegative
  cases hnegative

end Cowfs
