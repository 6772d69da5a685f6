import Cowfs.Construction.KernelLocks

/-!
# Critical sections

What the calls do under `versions_lock` and `info->lock`: nothing there sleeps, and the version
table is looked at and changed nowhere else.  This does not depend on the order in which locks are
taken, and holds of every call, those that hang included (`Deadlock`): `Careful` asks nothing about
the sleeping locks a piece of a program takes.
-/

namespace Cowfs

open LockInstr (under)

/-- A lock under which nothing sleeps. -/
def KernelLock.Spin (k : KernelLock) : Prop := k = .versionsLock ∨ ∃ ino, k = .infoLock ino

/-- No spinlock is held. -/
def NoSpin (hs : List (KernelLock × Bool)) : Prop := ∀ h ∈ hs, ¬ h.1.Spin

/-- What the calls keep to in critical sections. -/
def spinRules : LockRules KernelLock KernelWork where
  mayTake k hs := ¬ k.Spin → NoSpin hs
  allowed
    | .sleep, hs => NoSpin hs
    | .table, hs => (.versionsLock, false) ∈ hs
    | .versions ino, hs => (.versionsLock, false) ∈ hs ∧ (.infoLock ino, false) ∈ hs

/-- A piece that keeps the rules under any sleeping locks, and ends with some of them. -/
def Careful (is : List KernelInstr) : Prop :=
  ∀ hs rest, NoSpin hs → (∀ hs' ⊆ hs, spinRules.Keeps hs' rest) → spinRules.Keeps hs (is ++ rest)

section Careful

variable {hs hs' : List (KernelLock × Bool)} {is js : List KernelInstr}

lemma NoSpin.subset (h : NoSpin hs) (hsub : hs' ⊆ hs) : NoSpin hs' := fun x hx => h x (hsub hx)

lemma careful_nil : Careful [] := fun hs _ _ hrest => hrest hs (List.Subset.refl hs)

lemma careful_append (h : Careful is) (h' : Careful js) : Careful (is ++ js) := by
  intro hs rest hspin hrest
  rw [List.append_assoc]
  refine h hs _ hspin fun hs' hsub => ?_
  exact h' hs' rest (hspin.subset hsub) fun hs'' hsub' => hrest hs'' (List.Subset.trans hsub' hsub)

lemma careful_sleep (h : Careful is) : Careful (.act .sleep :: is) :=
  fun hs rest hspin hrest => ⟨hspin, h hs rest hspin hrest⟩

lemma careful_under {k : KernelLock} {shared : Bool} (hk : ¬ k.Spin) (h : Careful is) :
    Careful (under k shared is) := by
  intro hs rest hspin hrest
  have hspin' : NoSpin ((k, shared) :: hs) := List.forall_mem_cons.2 ⟨hk, hspin⟩
  refine ⟨fun _ => hspin, ?_⟩
  show spinRules.Keeps _ ((is ++ [.give k]) ++ rest)
  rw [List.append_assoc]
  refine h _ _ hspin' fun hs' hsub => hrest _ fun x hx => ?_
  obtain ⟨hx, hne⟩ := List.mem_filter.1 hx
  have hne : x.1 ≠ k := by simpa using hne
  rcases List.mem_cons.1 (hsub hx) with rfl | hmem
  · exact absurd rfl hne
  · exact hmem

lemma careful_flatMap {ι : Type*} {f : ι → List KernelInstr} {xs : List ι}
    (h : ∀ x ∈ xs, Careful (f x)) : Careful (xs.flatMap f) := by
  induction xs with
  | nil => exact careful_nil
  | cons x xs ih =>
    rw [List.flatMap_cons]
    exact careful_append (h x List.mem_cons_self) (ih fun y hy => h y (List.mem_cons_of_mem x hy))

lemma careful_ite {p : Prop} [Decidable p] (h : Careful is) (h' : Careful js) :
    Careful (if p then is else js) := by
  split_ifs
  · exact h
  · exact h'

/-- The table is looked at under its locks, which are given back. -/
lemma careful_tableLocks (inos : List UInt64) : Careful (tableLocks inos) := by
  intro hs rest hspin hrest
  have hfree : ∀ {k : KernelLock}, k.Spin → ∀ h ∈ hs, h.1 ≠ k := by
    rintro k hk h hh rfl
    exact hspin h hh hk
  suffices hbal : spinRules.Balanced hs (tableLocks inos) from
    hbal rest (hrest hs (List.Subset.refl hs))
  refine balanced_under (hfree (.inl rfl)) (fun h => absurd (.inl rfl) h) ?_
  refine LockRules.Balanced.act List.mem_cons_self (balanced_flatMap fun ino _ => ?_)
  refine balanced_under ?_ (fun h => absurd (.inr ⟨ino, rfl⟩) h) ?_
  · exact List.forall_mem_cons.2 ⟨by simp, hfree (.inr ⟨ino, rfl⟩)⟩
  · exact LockRules.Balanced.act (by simp [spinRules]) balanced_nil

end Careful

namespace KernelLock

@[simp] lemma not_spin_renameMutex : ¬ renameMutex.Spin := by simp [Spin]

@[simp] lemma not_spin_upperDir (d : Fid) : ¬ (upperDir d).Spin := by simp [Spin]

@[simp] lemma not_spin_upperFile (f : Fid) : ¬ (upperFile f).Spin := by simp [Spin]

@[simp] lemma not_spin_lowerDir (d : Fid) : ¬ (lowerDir d).Spin := by simp [Spin]

@[simp] lemma not_spin_lowerFile (f : Fid) : ¬ (lowerFile f).Spin := by simp [Spin]

end KernelLock

section Pieces

variable {e : LockEnv} {is : List KernelInstr}

/-- One lower call under a sleeping lock. -/
lemma careful_call {k : KernelLock} {shared : Bool} (hk : ¬ k.Spin) :
    Careful (under k shared [.act .sleep]) :=
  careful_under hk (careful_sleep careful_nil)

lemma careful_fill (f : Fid) (truncated : Bool) (writes : ℕ) :
    Careful ((if truncated then under (.lowerFile f) false [.act .sleep] else []) ++
      .act .sleep :: writeLocks f writes) :=
  careful_append (careful_ite (careful_call (by simp)) careful_nil)
    (careful_sleep (careful_flatMap fun g _ => careful_sleep (careful_call (by simp))))

lemma careful_shadowCopyFileLocks (c : CopySteps) : Careful (shadowCopyFileLocks e c) :=
  careful_sleep (careful_sleep (careful_append (careful_ite (careful_call (by simp)) careful_nil)
    (careful_fill c.file c.truncated c.writes)))

lemma careful_shadowRestoreFileLocks (f : Fid) (r : RestoreSteps) :
    Careful (shadowRestoreFileLocks e f r) :=
  careful_sleep (careful_append (careful_ite (careful_call (by simp)) careful_nil)
    (careful_sleep (careful_fill f r.truncated r.writes)))

lemma careful_versionFreeLocks (removed : Option (Option Fid)) :
    Careful (versionFreeLocks e removed) :=
  careful_flatMap fun _ _ => careful_sleep (careful_under (by simp)
    (careful_sleep (careful_flatMap fun f _ => careful_call (by simp))))

lemma careful_snapshotLocks (x : SnapshotSteps) : Careful (snapshotLocks e x) :=
  careful_sleep (careful_append (careful_flatMap fun c _ => careful_shadowCopyFileLocks c)
    (careful_append (careful_flatMap fun _ _ => careful_tableLocks _)
      (careful_flatMap fun removed _ => careful_versionFreeLocks removed)))

lemma careful_lookupLocks (d : Fid) (looked : Bool) : Careful (lookupLocks d looked) :=
  careful_ite (careful_append (careful_call (by simp)) (careful_sleep careful_nil)) careful_nil

lemma careful_cowfsLookupLocks (d : Fid) (shared : Bool) : Careful (cowfsLookupLocks d shared) :=
  careful_under (by simp) (careful_lookupLocks d true)

lemma careful_kernPathLocks (walk : List Fid) : Careful (kernPathLocks walk) :=
  careful_flatMap fun d _ => careful_cowfsLookupLocks d true

lemma careful_lockTwo {lock : Fid → KernelLock} (hlock : ∀ f, ¬ (lock f).Spin) (addr : Fid → ℕ)
    (f : Fid) (g : Option Fid) (h : Careful is) : Careful (lockTwo lock addr f g is) := by
  have htwo : ∀ f g, Careful (under (lock f) false (under (lock g) false is)) := fun f g =>
    careful_under (hlock f) (careful_under (hlock g) h)
  rcases g with _ | g
  · exact careful_under (hlock f) h
  · exact careful_ite (careful_under (hlock f) h) (careful_ite (htwo f g) (htwo g f))

lemma careful_lockReplaced {lock : Fid → KernelLock} (hlock : ∀ f, ¬ (lock f).Spin)
    (replaced : Option Fid) (h : Careful is) : Careful (lockReplaced lock replaced is) := by
  rcases replaced with _ | v
  · exact h
  · exact careful_under (hlock v) h

lemma careful_lockRename (d₁ d₂ : Fid) (h : Careful is) : Careful (lockRename e d₁ d₂ is) := by
  have htwo : ∀ d₁ d₂, Careful (under (.upperDir d₁) false (under (.upperDir d₂) false is)) :=
    fun _ _ => careful_under (by simp) (careful_under (by simp) h)
  exact careful_ite (careful_under (by simp) h)
    (careful_under (by simp) (careful_ite (htwo d₂ d₁) (htwo d₁ d₂)))

lemma careful_recreateLocks (d : Fid) (created : Option (Fid × Option RestoreSteps)) :
    Careful (recreateLocks e d created) :=
  careful_under (by simp) (careful_sleep (careful_flatMap fun p _ => careful_sleep
    (careful_flatMap fun r _ => careful_shadowRestoreFileLocks p.1 r)))

lemma careful_rollbackBranchLocks (branch : RollbackBranch) :
    Careful (rollbackBranchLocks e branch) := by
  have hsleep : Careful [.act .sleep] := careful_sleep careful_nil
  rcases branch with _ | ⟨d, created⟩ | ⟨f, r⟩ | ⟨d, f, g⟩ | ⟨d, replaced⟩
  · exact careful_nil
  · exact careful_recreateLocks d created
  · exact careful_shadowRestoreFileLocks f r
  · exact careful_under (by simp) (careful_sleep (careful_lockTwo (by simp) e.lower f g hsleep))
  · exact careful_under (by simp) (careful_sleep (careful_lockReplaced (by simp) replaced hsleep))

lemma not_spin_inode (isDir : Bool) (f : Fid) :
    ¬ (upperInodeLock isDir f).Spin ∧ ¬ (lowerInodeLock isDir f).Spin := by
  cases isDir <;> simp [upperInodeLock, lowerInodeLock]

/-- **Critical sections.**  Every call keeps their rules. -/
lemma KernelCall.careful (e : LockEnv) (c : KernelCall) : Careful (c.locks e) := by
  have hsleep : Careful [.act .sleep] := careful_sleep careful_nil
  cases c with
  | lookup d shared => exact careful_cowfsLookupLocks d shared
  | readdir d => exact careful_under (by simp) (careful_call (by simp))
  | make d looked =>
    exact careful_under (by simp) (careful_append (careful_lookupLocks d looked) hsleep)
  | link f d looked =>
    exact careful_under (by simp) (careful_append (careful_lookupLocks d looked)
      (careful_under (by simp) (careful_call (by simp))))
  | unlink d f looked x =>
    exact careful_under (by simp) (careful_append (careful_lookupLocks d looked)
      (careful_under (by simp) (careful_append (careful_snapshotLocks x)
        (careful_under (by simp) (careful_call (by simp))))))
  | rmdir d v looked =>
    exact careful_under (by simp) (careful_append (careful_lookupLocks d looked)
      (careful_under (by simp) (careful_under (by simp) (careful_call (by simp)))))
  | rename d₁ d₂ f g looked₁ looked₂ x =>
    exact careful_lockRename d₁ d₂ (careful_append (careful_lookupLocks d₁ looked₁)
      (careful_append (careful_lookupLocks d₂ looked₂) (careful_lockTwo (by simp) e.upper f g
        (careful_append (careful_snapshotLocks x)
          (careful_lockTwo (by simp) e.lower f g hsleep)))))
  | renameDir d replaced looked₁ looked₂ x =>
    exact careful_lockRename d d (careful_append (careful_lookupLocks d looked₁)
      (careful_append (careful_lookupLocks d looked₂) (careful_lockReplaced (by simp) replaced
        (careful_append (careful_snapshotLocks x)
          (careful_lockReplaced (by simp) replaced hsleep)))))
  | setattr isDir f x =>
    obtain ⟨hupper, hlower⟩ := not_spin_inode isDir f
    exact careful_under hupper (careful_append (careful_snapshotLocks x) (careful_call hlower))
  | write f x =>
    exact careful_append (careful_flatMap fun x _ => careful_snapshotLocks x)
      (careful_call (by simp))
  | mount root => exact careful_sleep (careful_under (by simp) (careful_sleep hsleep))
  | list walk ino found =>
    exact careful_sleep (careful_append (careful_kernPathLocks walk)
      (careful_append (careful_tableLocks _) hsleep))
  | rollback walk ino found branch attrs =>
    have hwalk := careful_kernPathLocks walk
    exact careful_sleep (careful_append hwalk (careful_append (careful_tableLocks _)
      (careful_append hwalk (careful_append (careful_rollbackBranchLocks branch)
        (careful_flatMap fun p _ => careful_call (not_spin_inode p.1 p.2).2)))))
  | rollbackDeleted walk inos d created =>
    have hwalk := careful_kernPathLocks walk
    exact careful_sleep (careful_append hwalk (careful_append (careful_tableLocks _)
      (careful_append hwalk (careful_recreateLocks d created))))
  | gc inos freed =>
    exact careful_append (careful_tableLocks _)
      (careful_flatMap fun removed _ => careful_versionFreeLocks removed)

lemma KernelCall.keeps_spinRules (e : LockEnv) (c : KernelCall) :
    spinRules.Keeps [] (c.locks e) := by
  have hkeeps := c.careful e [] [] (by simp [NoSpin]) fun hs' hsub => List.subset_nil.1 hsub
  rwa [List.append_nil] at hkeeps

end Pieces

/-! ## Under the spinlocks -/

section Discipline

variable {e : LockEnv} {as : List (Sched KernelCall)} {t t' : ℕ}

/-- The thread is about to sleep, or to take a lock it may sleep for. -/
def Sleeps (s : LockThreads KernelLock KernelWork) (t : ℕ) : Prop :=
  ∃ is, s.todo t = .act .sleep :: is ∨ ∃ k m, ¬ k.Spin ∧ s.todo t = .take k m :: is

/-- **Nothing sleeps under a spinlock**: a thread that may sleep holds neither `versions_lock` nor
an `info->lock`. -/
theorem sleeps_without_spinlock (hsleep : Sleeps (callsRun e as) t) {k : KernelLock} {m : Bool}
    (hholds : (t, m) ∈ (callsRun e as).holders k) : ¬ k.Spin := by
  have hkeeps : ∀ c : KernelCall, spinRules.Keeps [] (c.locks e) := fun c => c.keeps_spinRules e
  obtain ⟨is, hsleep | ⟨k', m', hk', htake⟩⟩ := hsleep
  · obtain ⟨hs, hholding, hspin⟩ := allowed_run hkeeps hsleep
    exact hspin _ ((hholding.holds k m).1 hholds)
  · obtain ⟨hs, hholding, hspin⟩ := mayTake_run hkeeps htake
    exact hspin hk' _ ((hholding.holds k m).1 hholds)

theorem sleeps_without_spinlock_make :
    Sleeps (callsRun smallLockEnv [.start 0 (.make 3 false), .exec 0]) 0 ∧
      ¬ (KernelLock.upperDir 3).Spin := by
  have hsleep : Sleeps (callsRun smallLockEnv [.start 0 (.make 3 false), .exec 0]) 0 :=
    ⟨_, .inl rfl⟩
  exact ⟨hsleep, sleeps_without_spinlock hsleep (m := false) (by decide)⟩

/-- The thread is about to look at or change the version table, or the list of a record. -/
def AtTable (s : LockThreads KernelLock KernelWork) (t : ℕ) : Prop :=
  ∃ is, s.todo t = .act .table :: is ∨ ∃ ino, s.todo t = .act (.versions ino) :: is

lemma holds_of_atTable (h : AtTable (callsRun e as) t) :
    (t, false) ∈ (callsRun e as).holders .versionsLock := by
  have hkeeps : ∀ c : KernelCall, spinRules.Keeps [] (c.locks e) := fun c => c.keeps_spinRules e
  obtain ⟨is, h | ⟨ino, h⟩⟩ := h
  · obtain ⟨hs, hholding, htable⟩ := allowed_run hkeeps h
    exact (hholding.holds _ _).2 htable
  · obtain ⟨hs, hholding, hversions⟩ := allowed_run hkeeps h
    exact (hholding.holds _ _).2 hversions.1

/-- **One thread at a time works on the version table.** -/
theorem table_exclusive (h : AtTable (callsRun e as) t) (ht : t' ≠ t) :
    ¬ AtTable (callsRun e as) t' := by
  intro h'
  have hrun : Orderly spinRules (callsRun e as) :=
    orderly_run (fun c : KernelCall => c.keeps_spinRules e) as
  exact ht (hrun.exclusive _ _ _ _ (holds_of_atTable h) (holds_of_atTable h'))

theorem table_exclusive_gc :
    AtTable (callsRun smallLockEnv
      [.start 0 (.gc [5] []), .start 1 (.list [] 5 true), .exec 0, .exec 1]) 0 ∧
    ¬ AtTable (callsRun smallLockEnv
      [.start 0 (.gc [5] []), .start 1 (.list [] 5 true), .exec 0, .exec 1]) 1 := by
  have hfirst : AtTable (callsRun smallLockEnv
      [.start 0 (.gc [5] []), .start 1 (.list [] 5 true), .exec 0, .exec 1]) 0 := ⟨_, .inl rfl⟩
  exact ⟨hfirst, table_exclusive hfirst (by omega)⟩

end Discipline

end Cowfs
