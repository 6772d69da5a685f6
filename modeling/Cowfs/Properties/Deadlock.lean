import Cowfs.Construction.KernelLocks
import Mathlib.Data.Prod.Lex

/-!
# The order of the locks

The calls of the module take their locks in one order: the inodes of the mount, directories
before files, then those of the lower file system, the shadow directory after the other
directories, then `versions_lock` and `info->lock`.  A directory is locked under those above it;
two upper directories besides are locked under `s_vfs_rename_mutex`, two files by address.

Two things a user can do break it.  The rollback of a removed file of `.cowfs_shadow` makes it
again with the shadow directory locked, and restores it from a shadow file, whose name may have to
be looked up in the same directory: it waits for itself.  A rollback in a directory inside
`.cowfs_shadow` locks that directory before the shadow directory, the removal of the directory
the other way round: they can wait for each other (`rmdir_meets_restore`).
-/

namespace Cowfs

open LockInstr (under)

/-! ## The order -/

def lockRank (e : LockEnv) : KernelLock → ℕ ×ₗ ℕ
  | .renameMutex => toLex (0, 0)
  | .upperDir _ => toLex (1, 0)
  | .upperFile f => toLex (2, e.upper f)
  | .lowerDir d => toLex (3, if d = e.shadow then 1 else 0)
  | .lowerFile f => toLex (4, e.lower f)
  | .versionsLock => toLex (5, 0)
  | .infoLock _ => toLex (6, 0)

lemma lockRank_upperFile (e : LockEnv) (f : Fid) :
    lockRank e (.upperFile f) = toLex (2, e.upper f) := rfl

lemma lockRank_lowerFile (e : LockEnv) (f : Fid) :
    lockRank e (.lowerFile f) = toLex (4, e.lower f) := rfl

/-- The directories above a directory, on either side. -/
def LockAbove (e : LockEnv) : KernelLock → KernelLock → Prop
  | .upperDir d, .upperDir d' => e.above d d' = true
  | .lowerDir d, .lowerDir d' => e.above d d' = true
  | _, _ => False

def lockOrder (e : LockEnv) : LockOrder KernelLock (ℕ ×ₗ ℕ) where
  rank := lockRank e
  above := LockAbove e
  above_irrefl k := by cases k <;> simp [LockAbove, e.above_irrefl]
  above_trans {k₁ k₂ k₃} h h' := by
    cases k₁ <;> cases k₂ <;> cases k₃ <;> simp only [LockAbove] at h h' ⊢
    · exact e.above_trans h h'
    · exact e.above_trans h h'
  gate r := if r = toLex (1, 0) then some .renameMutex else none

/-- What the calls keep to: the order, whatever they do. -/
def lockRules (e : LockEnv) : LockRules KernelLock KernelWork where
  mayTake k hs := ∀ h ∈ hs, (lockOrder e).Before hs h.1 k
  allowed _ _ := True

lemma lockRules_ordered (e : LockEnv) : (lockRules e).Ordered (lockOrder e) :=
  fun _ _ h => h

/-- All locks of `hs` come before the rank `r`. -/
def Below (e : LockEnv) (r : ℕ ×ₗ ℕ) (hs : List (KernelLock × Bool)) : Prop :=
  ∀ h ∈ hs, lockRank e h.1 < r

section Pieces

variable {e : LockEnv} {hs : List (KernelLock × Bool)} {r r' : ℕ ×ₗ ℕ}
  {is : List KernelInstr}

lemma below_nil : Below e r [] := by simp [Below]

lemma Below.mono (h : Below e r hs) (hr : r ≤ r') : Below e r' hs :=
  fun x hx => lt_of_lt_of_le (h x hx) hr

lemma Below.cons (h : Below e r hs) {k : KernelLock} (hk : lockRank e k < r) (m : Bool) :
    Below e r ((k, m) :: hs) := by
  intro x hx
  rcases List.mem_cons.1 hx with rfl | hx
  · exact hk
  · exact h x hx

lemma before_of_lt {h k : KernelLock} (hlt : lockRank e h < lockRank e k) :
    (lockOrder e).Before hs h k :=
  ⟨fun heq => absurd hlt (by rw [heq]; exact lt_irrefl _), .inl hlt⟩

/-- A lock taken after all that are held. -/
lemma balanced_before {k : KernelLock} {m : Bool}
    (hbefore : ∀ h ∈ hs, (lockOrder e).Before hs h.1 k)
    (hbody : (lockRules e).Balanced ((k, m) :: hs) is) :
    (lockRules e).Balanced hs (under k m is) :=
  balanced_under (fun h hh => (hbefore h hh).1) hbefore hbody

lemma balanced_lock {k : KernelLock} {m : Bool} (hbelow : Below e (lockRank e k) hs)
    (hbody : (lockRules e).Balanced ((k, m) :: hs) is) :
    (lockRules e).Balanced hs (under k m is) :=
  balanced_before (fun h hh => before_of_lt (hbelow h hh)) hbody

lemma balanced_sleep (h : (lockRules e).Balanced hs is) :
    (lockRules e).Balanced hs (.act .sleep :: is) :=
  LockRules.Balanced.act trivial h

/-- One lower call. -/
lemma balanced_call : (lockRules e).Balanced hs [.act .sleep] := balanced_sleep balanced_nil

lemma balanced_tableLocks (hbelow : Below e (toLex (5, 0)) hs) (inos : List UInt64) :
    (lockRules e).Balanced hs (tableLocks inos) := by
  apply balanced_lock hbelow
  refine LockRules.Balanced.act trivial (balanced_flatMap fun ino _ => ?_)
  apply balanced_lock
  · refine (hbelow.mono ?_).cons ?_ false <;>
      simp [lockRank, Prod.Lex.toLex_lt_toLex, Prod.Lex.toLex_le_toLex]
  · exact LockRules.Balanced.act trivial balanced_nil

/-! ## Shadow files -/

lemma lowerFile_lt_spin (e : LockEnv) (f : Fid) : lockRank e (.lowerFile f) < toLex (5, 0) := by
  simp [lockRank, Prod.Lex.toLex_lt_toLex]

lemma lowerDir_lt_lowerFile (e : LockEnv) (d f : Fid) :
    lockRank e (.lowerDir d) < lockRank e (.lowerFile f) := by
  simp [lockRank, Prod.Lex.toLex_lt_toLex]

/-- The locks of a truncation and of the writes that follow, below which all others are. -/
lemma balanced_fill {f : Fid} (hbelow : Below e (lockRank e (.lowerFile f)) hs) (truncated : Bool)
    (writes : ℕ) : (lockRules e).Balanced hs
      ((if truncated then under (.lowerFile f) false [.act .sleep] else []) ++
        .act .sleep :: writeLocks f writes) := by
  refine LockRules.Balanced.append ?_ (balanced_sleep (balanced_flatMap fun g hg => ?_))
  · split_ifs
    · exact balanced_lock hbelow balanced_call
    · exact balanced_nil
  · rw [List.eq_of_mem_replicate hg]
    exact balanced_sleep (balanced_lock hbelow balanced_call)

/-- A piece that locks the shadow directory on its own. -/
lemma balanced_shadow (m : Bool) (looked : Bool)
    (hbelow : Below e (lockRank e (.lowerDir e.shadow)) hs) : (lockRules e).Balanced hs
      (if looked then under (.lowerDir e.shadow) m [.act .sleep] else []) := by
  split_ifs
  · exact balanced_lock hbelow balanced_call
  · exact balanced_nil

lemma balanced_shadowCopyFileLocks (hbelow : Below e (lockRank e (.lowerDir e.shadow)) hs)
    (c : CopySteps) : (lockRules e).Balanced hs (shadowCopyFileLocks e c) := by
  have hfile := hbelow.mono (lowerDir_lt_lowerFile e e.shadow c.file).le
  exact balanced_sleep (balanced_sleep
    ((balanced_shadow false c.looked hbelow).append (balanced_fill hfile c.truncated c.writes)))

/-- Where the name of the shadow file is looked up, the shadow directory is not locked. -/
lemma balanced_shadowRestoreFileLocks {f : Fid} (r : RestoreSteps)
    (hbelow : Below e (lockRank e (.lowerFile f)) hs)
    (hshadow : r.looked = true → Below e (lockRank e (.lowerDir e.shadow)) hs) :
    (lockRules e).Balanced hs (shadowRestoreFileLocks e f r) := by
  refine balanced_sleep (LockRules.Balanced.append ?_
    (balanced_sleep (balanced_fill hbelow r.truncated r.writes)))
  by_cases hlooked : r.looked = true
  · exact balanced_shadow true r.looked (hshadow hlooked)
  · rw [if_neg hlooked]
    exact balanced_nil

lemma balanced_shadowRemoveLocks (hbelow : Below e (lockRank e (.lowerDir e.shadow)) hs)
    (found : Option Fid) : (lockRules e).Balanced hs (shadowRemoveLocks e found) := by
  refine balanced_sleep (balanced_lock hbelow (balanced_sleep (balanced_flatMap fun f _ => ?_)))
  refine balanced_lock ?_ balanced_call
  exact (hbelow.mono (lowerDir_lt_lowerFile e e.shadow f).le).cons
    (lowerDir_lt_lowerFile e e.shadow f) false

lemma balanced_versionFreeLocks (hbelow : Below e (lockRank e (.lowerDir e.shadow)) hs)
    (removed : Option (Option Fid)) : (lockRules e).Balanced hs (versionFreeLocks e removed) :=
  balanced_flatMap fun found _ => balanced_shadowRemoveLocks hbelow found

lemma balanced_snapshotLocks (hbelow : Below e (lockRank e (.lowerDir e.shadow)) hs)
    (x : SnapshotSteps) : (lockRules e).Balanced hs (snapshotLocks e x) := by
  have hspin : Below e (toLex (5, 0)) hs := (hbelow.mono
    (lowerDir_lt_lowerFile e e.shadow e.shadow).le).mono (lowerFile_lt_spin e e.shadow).le
  refine balanced_sleep (LockRules.Balanced.append ?_ (LockRules.Balanced.append ?_ ?_))
  · exact balanced_flatMap fun c _ => balanced_shadowCopyFileLocks hbelow c
  · exact balanced_flatMap fun p _ => balanced_tableLocks hspin _
  · exact balanced_flatMap fun removed _ => balanced_versionFreeLocks hbelow removed

/-! ## Operations -/

/-- Locks of one kind are below those of the kinds after it. -/
lemma below_of_le {c c' : ℕ} (hbelow : Below e (toLex (c, 0)) hs) (hc : c ≤ c') (n : ℕ) :
    Below e (toLex (c', n)) hs := by
  apply hbelow.mono
  rw [Prod.Lex.toLex_le_toLex]
  rcases Nat.lt_or_eq_of_le hc with hlt | heq
  · exact .inl hlt
  · exact .inr ⟨heq, Nat.zero_le n⟩

/-- A lock of the kind `c` leaves the kinds after it. -/
lemma below_cons_of_lt {c c' : ℕ} (hbelow : Below e (toLex (c, 0)) hs) {k : KernelLock} {n : ℕ}
    (hk : lockRank e k = toLex (c, n)) (hc : c < c') (m : Bool) :
    Below e (toLex (c', 0)) ((k, m) :: hs) := by
  refine (below_of_le hbelow hc.le 0).cons ?_ m
  rw [hk, Prod.Lex.toLex_lt_toLex]
  exact .inl hc

/-- Two files locked by address, below which `body` runs. -/
lemma balanced_lockTwo {lock : Fid → KernelLock} {addr : Fid → ℕ} {c : ℕ}
    (hrank : ∀ f, lockRank e (lock f) = toLex (c, addr f)) (hinj : Function.Injective addr)
    (f : Fid) (g : Option Fid) (hbelow : Below e (toLex (c, 0)) hs)
    (hbody : ∀ hs', Below e (toLex (c + 1, 0)) hs' → (lockRules e).Balanced hs' is) :
    (lockRules e).Balanced hs (lockTwo lock addr f g is) := by
  have hfirst : ∀ f, Below e (lockRank e (lock f)) hs := by
    intro f
    rw [hrank]
    exact below_of_le hbelow le_rfl _
  have hone : ∀ f, Below e (toLex (c + 1, 0)) ((lock f, false) :: hs) :=
    fun f => below_cons_of_lt hbelow (hrank f) (Nat.lt_succ_self c) false
  have htwo : ∀ f g, addr f < addr g →
      (lockRules e).Balanced hs (under (lock f) false (under (lock g) false is)) := by
    intro f g hlt
    apply balanced_lock (hfirst f)
    apply balanced_lock
    · refine (hfirst g).cons ?_ false
      rw [hrank, hrank]
      simp [Prod.Lex.toLex_lt_toLex, hlt]
    · refine hbody _ ((hone f).cons ?_ false)
      rw [hrank]
      simp [Prod.Lex.toLex_lt_toLex]
  unfold lockTwo
  rcases g with _ | g
  · exact balanced_lock (hfirst f) (hbody _ (hone f))
  · dsimp only
    split_ifs with hfg hlt
    · exact balanced_lock (hfirst f) (hbody _ (hone f))
    · exact htwo f g hlt
    · have hne : addr f ≠ addr g := fun heq => hfg (hinj heq)
      exact htwo g f (by omega)

lemma lockRank_upperDir (e : LockEnv) (d : Fid) : lockRank e (.upperDir d) = toLex (1, 0) := rfl

lemma renameMutex_lt_upperDir (e : LockEnv) (d : Fid) :
    lockRank e .renameMutex < lockRank e (.upperDir d) := by
  simp [lockRank, Prod.Lex.toLex_lt_toLex]

/-- A directory of the mount under another one, as the tree has them. -/
lemma before_upperDir {d d' : Fid} (h : e.above d d' = true) :
    (lockOrder e).Before hs (.upperDir d) (.upperDir d') := by
  refine ⟨?_, .inr ⟨rfl, .inl h⟩⟩
  rintro ⟨rfl⟩
  rw [e.above_irrefl] at h
  cases h

/-- Two directories of the mount under the rename mutex, the first not below the second. -/
lemma balanced_twoDirs {d₁ d₂ : Fid} (hne : d₁ ≠ d₂) (habove : e.above d₂ d₁ = false)
    (hbody : ∀ hs', Below e (toLex (2, 0)) hs' → (lockRules e).Balanced hs' is) :
    (lockRules e).Balanced [(.renameMutex, false)]
      (under (.upperDir d₁) false (under (.upperDir d₂) false is)) := by
  have hheld : Below e (toLex (1, 0)) [(.renameMutex, false)] :=
    below_nil.cons (renameMutex_lt_upperDir e d₁) false
  have hdirs : Below e (toLex (2, 0)) [(.upperDir d₂, false), (.upperDir d₁, false),
      (.renameMutex, false)] :=
    (below_cons_of_lt hheld (lockRank_upperDir e d₁) (by omega) false).cons
      (by simp [lockRank, Prod.Lex.toLex_lt_toLex]) false
  apply balanced_lock hheld
  refine balanced_before ?_ (hbody _ hdirs)
  intro h hh
  rw [List.mem_cons, List.mem_singleton] at hh
  rcases hh with rfl | rfl
  · -- the directories have one rank, and its gate is held
    refine ⟨by simpa using hne, .inr ⟨rfl, .inr ⟨?_, .renameMutex, ?_, by simp⟩⟩⟩
    · simp [lockOrder, LockAbove, habove]
    · simp [lockOrder, lockRank]
  · exact before_of_lt (renameMutex_lt_upperDir e d₂)

lemma balanced_lockRename (d₁ d₂ : Fid)
    (hbody : ∀ hs', Below e (toLex (2, 0)) hs' → (lockRules e).Balanced hs' is) :
    (lockRules e).Balanced [] (lockRename e d₁ d₂ is) := by
  unfold lockRename
  split_ifs with hd habove
  · exact balanced_lock below_nil
      (hbody _ (below_cons_of_lt below_nil (lockRank_upperDir e d₁) (by omega) false))
  · refine balanced_lock below_nil (balanced_twoDirs (Ne.symm hd) ?_ hbody)
    -- the tree has no cycles
    by_contra hback
    have hcycle := e.above_trans habove (by simpa using hback)
    rw [e.above_irrefl] at hcycle
    cases hcycle
  · exact balanced_lock below_nil (balanced_twoDirs hd (by simpa using habove) hbody)

lemma balanced_lookupLocks (hbelow : Below e (toLex (3, 0)) hs) (d : Fid) (looked : Bool) :
    (lockRules e).Balanced hs (lookupLocks d looked) := by
  unfold lookupLocks
  split_ifs
  · exact (balanced_lock (below_of_le hbelow le_rfl _) balanced_call).append balanced_call
  · exact balanced_nil

/-- What the VFS holds when it calls the module in the directory `d`. -/
lemma below_upperDir (d : Fid) (m : Bool) : Below e (toLex (2, 0)) [(.upperDir d, m)] :=
  below_cons_of_lt below_nil (lockRank_upperDir e d) (by omega) m

lemma balanced_cowfsLookupLocks (d : Fid) (m : Bool) :
    (lockRules e).Balanced [] (cowfsLookupLocks d m) :=
  balanced_lock below_nil
    (balanced_lookupLocks (below_of_le (below_upperDir d m) (by omega) 0) d true)

/-- A call in one directory, after the lookup of its name. -/
lemma balanced_inDir (d : Fid) (looked : Bool)
    (h : (lockRules e).Balanced [(.upperDir d, false)] is) :
    (lockRules e).Balanced [] (under (.upperDir d) false (lookupLocks d looked ++ is)) :=
  balanced_lock below_nil
    ((balanced_lookupLocks (below_of_le (below_upperDir d false) (by omega) 0) d looked).append h)

lemma balanced_cowfsLinkLocks (f d : Fid) (looked : Bool) :
    (lockRules e).Balanced [] (cowfsLinkLocks f d looked) := by
  have hupper := below_of_le (below_upperDir (e := e) d false) le_rfl (e.upper f)
  have hlower : Below e (toLex (4, 0)) [(.upperFile f, false), (.upperDir d, false)] :=
    below_cons_of_lt (below_upperDir d false) (lockRank_upperFile e f) (by omega) false
  exact balanced_inDir d looked (balanced_lock hupper
    (balanced_lock (below_of_le hlower le_rfl _) balanced_call))

lemma balanced_cowfsUnlinkLocks (d f : Fid) (looked : Bool) (x : SnapshotSteps) :
    (lockRules e).Balanced [] (cowfsUnlinkLocks e d f looked x) := by
  have hupper := below_of_le (below_upperDir (e := e) d false) le_rfl (e.upper f)
  have hlower : Below e (toLex (3, 0)) [(.upperFile f, false), (.upperDir d, false)] :=
    below_cons_of_lt (below_upperDir d false) (lockRank_upperFile e f) (by omega) false
  refine balanced_inDir d looked (balanced_lock hupper
    ((balanced_snapshotLocks (below_of_le hlower le_rfl _) x).append ?_))
  refine balanced_lock (below_of_le hlower le_rfl _) (balanced_lock ?_ balanced_call)
  exact (below_of_le hlower (by omega) _).cons (lowerDir_lt_lowerFile e d f) false

/-- A lower directory under another one that is not the shadow directory. -/
lemma before_lowerDir {d d' : Fid} (h : e.above d d' = true) (hd : d ≠ e.shadow) :
    (lockOrder e).Before hs (.lowerDir d) (.lowerDir d') := by
  have hne : KernelLock.lowerDir d ≠ .lowerDir d' := by
    rintro ⟨rfl⟩
    rw [e.above_irrefl] at h
    cases h
  refine ⟨hne, ?_⟩
  show lockRank e (.lowerDir d) < lockRank e (.lowerDir d') ∨ _
  by_cases hd' : d' = e.shadow
  · exact .inl (by simp [lockRank, Prod.Lex.toLex_lt_toLex, hd, hd'])
  · refine .inr ⟨?_, .inl h⟩
    simp [lockOrder, lockRank, hd, hd']

lemma balanced_cowfsRmdirLocks {d v : Fid} (habove : e.above d v = true) (hd : d ≠ e.shadow)
    (looked : Bool) : (lockRules e).Balanced [] (cowfsRmdirLocks d v looked) := by
  have hbelow : Below e (toLex (3, 0)) [(.upperDir v, false), (.upperDir d, false)] :=
    (below_of_le (below_upperDir d false) (by omega) 0).cons
      (by simp [lockRank, Prod.Lex.toLex_lt_toLex]) false
  refine balanced_inDir d looked (balanced_before ?_ (balanced_lock (below_of_le hbelow le_rfl _)
    (balanced_before ?_ balanced_call)))
  · exact List.forall_mem_cons.2 ⟨before_upperDir habove, by simp⟩
  · refine List.forall_mem_cons.2 ⟨before_lowerDir habove hd, fun h hh => ?_⟩
    exact before_of_lt (below_of_le hbelow le_rfl _ h hh)

/-- The locks of two lower files around a lower call. -/
lemma balanced_lockTwo_lower (f : Fid) (g : Option Fid) (hbelow : Below e (toLex (4, 0)) hs) :
    (lockRules e).Balanced hs (lockTwo .lowerFile e.lower f g [.act .sleep]) :=
  balanced_lockTwo (lockRank_lowerFile e) e.lower_inj f g hbelow fun _ _ => balanced_call

lemma balanced_cowfsRenameLocks (d₁ d₂ f : Fid) (g : Option Fid) (looked₁ looked₂ : Bool)
    (x : SnapshotSteps) :
    (lockRules e).Balanced [] (cowfsRenameLocks e d₁ d₂ f g looked₁ looked₂ x) := by
  refine balanced_lockRename d₁ d₂ fun hs hbelow => ?_
  have hlower := below_of_le hbelow (show 2 ≤ 3 by omega) 0
  refine (balanced_lookupLocks hlower d₁ looked₁).append
    ((balanced_lookupLocks hlower d₂ looked₂).append ?_)
  refine balanced_lockTwo (lockRank_upperFile e) e.upper_inj f g hbelow fun hs' hbelow' => ?_
  exact (balanced_snapshotLocks (below_of_le hbelow' le_rfl _) x).append
    (balanced_lockTwo_lower f g (below_of_le hbelow' (by omega) 0))

lemma balanced_cowfsRenameDirLocks {d : Fid} {replaced : Option Fid}
    (habove : ∀ v ∈ replaced, e.above d v = true) (looked₁ looked₂ : Bool) (x : SnapshotSteps) :
    (lockRules e).Balanced [] (cowfsRenameDirLocks e d replaced looked₁ looked₂ x) := by
  have hd := below_of_le (below_upperDir (e := e) d false) (show 2 ≤ 3 by omega) 0
  unfold cowfsRenameDirLocks lockRename
  rw [if_pos rfl]
  refine balanced_inDir d looked₁ ((balanced_lookupLocks hd d looked₂).append ?_)
  rcases replaced with _ | v
  · exact (balanced_snapshotLocks (below_of_le hd le_rfl _) x).append balanced_call
  · have hv : Below e (toLex (3, 0)) [(.upperDir v, false), (.upperDir d, false)] :=
      hd.cons (by simp [lockRank, Prod.Lex.toLex_lt_toLex]) false
    refine balanced_before ?_ ((balanced_snapshotLocks (below_of_le hv le_rfl _) x).append
      (balanced_lock (below_of_le hv le_rfl _) balanced_call))
    exact List.forall_mem_cons.2 ⟨before_upperDir (habove v rfl), by simp⟩

lemma balanced_cowfsSetattrLocks (isDir : Bool) (f : Fid) (x : SnapshotSteps) :
    (lockRules e).Balanced [] (cowfsSetattrLocks e isDir f x) := by
  have hbelow : Below e (toLex (3, 0)) [(upperInodeLock isDir f, false)] := by
    refine below_nil.cons ?_ false
    cases isDir <;> simp [upperInodeLock, lockRank, Prod.Lex.toLex_lt_toLex]
  have hlower : toLex (3, 0) ≤ lockRank e (lowerInodeLock isDir f) := by
    cases isDir <;> simp [lowerInodeLock, lockRank, Prod.Lex.toLex_le_toLex]
  exact balanced_lock below_nil ((balanced_snapshotLocks (below_of_le hbelow le_rfl _) x).append
    (balanced_lock (hbelow.mono hlower) balanced_call))

lemma balanced_kernPathLocks (walk : List Fid) :
    (lockRules e).Balanced [] (kernPathLocks walk) :=
  balanced_flatMap fun d _ => balanced_cowfsLookupLocks d true

/-! ## Rollbacks -/

/-- A shadow file is made again, and the name it is restored from is looked up, with their
directory locked. -/
def RecreatesShadow (e : LockEnv) (d : Fid) (created : Option (Fid × Option RestoreSteps)) :
    Prop :=
  d = e.shadow ∧ ∃ f r, created = some (f, some r) ∧ r.looked = true

lemma balanced_recreateLocks {d : Fid} {created : Option (Fid × Option RestoreSteps)}
    (h : ¬ RecreatesShadow e d created) :
    (lockRules e).Balanced [] (recreateLocks e d created) := by
  have hfile : ∀ f, Below e (lockRank e (.lowerFile f)) [(.lowerDir d, false)] :=
    fun f => below_nil.cons (lowerDir_lt_lowerFile e d f) false
  refine balanced_lock below_nil (balanced_sleep (balanced_flatMap fun p hp => ?_))
  refine balanced_sleep (balanced_flatMap fun r hr => ?_)
  refine balanced_shadowRestoreFileLocks r (hfile p.1) fun hlooked => below_nil.cons ?_ false
  rw [Option.mem_toList] at hp hr
  have hd : d ≠ e.shadow := fun hd => h ⟨hd, p.1, r, by rw [hp, ← hr], hlooked⟩
  simp [lockRank, Prod.Lex.toLex_lt_toLex, hd]

lemma retakes_recreateLocks {d : Fid} {created : Option (Fid × Option RestoreSteps)}
    (h : RecreatesShadow e d created) :
    Retakes (.lowerDir e.shadow) (recreateLocks e d created) := by
  obtain ⟨rfl, f, r, rfl, hlooked⟩ := h
  -- the look-up of the name, two sleeps after the new file is made
  exact ⟨[], false, List.replicate 3 (.act .sleep), true, _,
    by simp [recreateLocks, shadowRestoreFileLocks, hlooked, under, List.replicate]; rfl,
    by simp, .inl rfl⟩

/-- A rename is rolled back over a directory in the directory `d`, which is not the shadow
directory. -/
def RollbackBranch.Usual (e : LockEnv) : RollbackBranch → Prop
  | .renameDir d (some v) => e.above d v = true ∧ d ≠ e.shadow
  | _ => True

lemma balanced_rollbackBranchLocks {branch : RollbackBranch} (husual : branch.Usual e)
    (h : ∀ d created, branch = .unlink d created → ¬ RecreatesShadow e d created) :
    (lockRules e).Balanced [] (rollbackBranchLocks e branch) := by
  rcases branch with _ | ⟨d, created⟩ | ⟨f, r⟩ | ⟨d, f, g⟩ | ⟨d, _ | v⟩
  · exact balanced_nil
  · exact balanced_recreateLocks (h d created rfl)
  · exact balanced_shadowRestoreFileLocks r below_nil fun _ => below_nil
  · have hbelow : Below e (toLex (4, 0)) [(.lowerDir d, false)] :=
      below_nil.cons (by simp [lockRank, Prod.Lex.toLex_lt_toLex]) false
    exact balanced_lock below_nil (balanced_sleep (balanced_lockTwo_lower f g hbelow))
  · exact balanced_lock below_nil (balanced_sleep balanced_call)
  · refine balanced_lock below_nil (balanced_sleep (balanced_before ?_ balanced_call))
    exact List.forall_mem_cons.2 ⟨before_lowerDir husual.1 husual.2, by simp⟩

end Pieces

/-! ## All calls -/

namespace KernelCall

/-- A directory that the call removes or replaces is one of the directory it works in, and not
one of the shadow directory. -/
def Usual (e : LockEnv) : KernelCall → Prop
  | .rmdir d v _ => e.above d v = true ∧ d ≠ e.shadow
  | .renameDir d replaced _ _ _ => ∀ v ∈ replaced, e.above d v = true
  | .rollback _ _ _ branch _ => branch.Usual e
  | _ => True

/-- The call rolls back the removal of a shadow file, from a shadow file that is not in the
cache. -/
def RestoresShadow (e : LockEnv) : KernelCall → Prop
  | .rollback _ _ _ (.unlink d created) _ => RecreatesShadow e d created
  | .rollbackDeleted _ _ d created => RecreatesShadow e d created
  | _ => False

lemma balanced_ioctlRollbackLocks {e : LockEnv} {walk : List Fid} {ino : UInt64} {found : Bool}
    {branch : RollbackBranch} {attrs : Option (Bool × Fid)} (husual : branch.Usual e)
    (h : ¬ (KernelCall.rollback walk ino found branch attrs).RestoresShadow e) :
    (lockRules e).Balanced [] (ioctlRollbackLocks e walk ino found branch attrs) := by
  have hwalk := balanced_kernPathLocks (e := e) walk
  refine balanced_sleep (hwalk.append (LockRules.Balanced.append ?_
    (hwalk.append (LockRules.Balanced.append ?_ ?_))))
  · exact balanced_tableLocks below_nil _
  · refine balanced_rollbackBranchLocks husual fun d created hbranch => ?_
    rwa [hbranch] at h
  · exact balanced_flatMap fun p _ => balanced_lock below_nil balanced_call

/-- Every other call keeps the order. -/
lemma keeps_locks (e : LockEnv) (c : KernelCall) (husual : c.Usual e) (h : ¬ c.RestoresShadow e) :
    (lockRules e).Keeps [] (c.locks e) := by
  apply keeps_of_balanced
  cases c with
  | lookup d shared => exact balanced_cowfsLookupLocks d shared
  | readdir d =>
    have hlower := below_of_le (below_upperDir (e := e) d true) (show 2 ≤ 3 by omega)
    exact balanced_lock below_nil (balanced_lock (hlower _) balanced_call)
  | make d looked => exact balanced_inDir d looked balanced_call
  | link f d looked => exact balanced_cowfsLinkLocks f d looked
  | unlink d f looked x => exact balanced_cowfsUnlinkLocks d f looked x
  | rmdir d v looked => exact balanced_cowfsRmdirLocks husual.1 husual.2 looked
  | rename d₁ d₂ f g looked₁ looked₂ x =>
    exact balanced_cowfsRenameLocks d₁ d₂ f g looked₁ looked₂ x
  | renameDir d replaced looked₁ looked₂ x =>
    exact balanced_cowfsRenameDirLocks husual looked₁ looked₂ x
  | setattr isDir f x => exact balanced_cowfsSetattrLocks isDir f x
  | write f x =>
    exact (balanced_flatMap fun x _ => balanced_snapshotLocks below_nil x).append
      (balanced_lock below_nil balanced_call)
  | mount root =>
    exact balanced_sleep (balanced_lock below_nil (balanced_sleep balanced_call))
  | list walk ino found =>
    exact balanced_sleep ((balanced_kernPathLocks walk).append
      ((balanced_tableLocks below_nil _).append balanced_call))
  | rollback walk ino found branch attrs => exact balanced_ioctlRollbackLocks husual h
  | rollbackDeleted walk inos d created =>
    have hwalk := balanced_kernPathLocks (e := e) walk
    exact balanced_sleep (hwalk.append ((balanced_tableLocks below_nil _).append
      (hwalk.append (balanced_recreateLocks h))))
  | gc inos freed =>
    exact (balanced_tableLocks below_nil _).append
      (balanced_flatMap fun removed _ => balanced_versionFreeLocks below_nil removed)

lemma retakes_locks (e : LockEnv) (c : KernelCall) (h : c.RestoresShadow e) :
    Retakes (.lowerDir e.shadow) (c.locks e) := by
  cases c with
  | rollback walk ino found branch attrs =>
    rcases branch with _ | ⟨d, created⟩ | ⟨f, r⟩ | ⟨d, f, g⟩ | ⟨d, replaced⟩
    case unlink =>
      have hretakes := (retakes_recreateLocks h).append
        (.act .sleep :: (kernPathLocks walk ++ (versionFindLocks ino found ++ kernPathLocks walk)))
        (attrs.toList.flatMap fun p => under (lowerInodeLock p.1 p.2) false [.act .sleep])
      simpa [locks, ioctlRollbackLocks, rollbackBranchLocks] using hretakes
    all_goals exact absurd h (by simp [RestoresShadow])
  | rollbackDeleted walk inos d created =>
    have hretakes := (retakes_recreateLocks h).append
      (.act .sleep :: (kernPathLocks walk ++ (versionFindDeletedLocks inos ++
        kernPathLocks walk))) []
    simpa [locks, rollbackDeletedLocks] using hretakes
  | _ => exact absurd h (by simp [RestoresShadow])

end KernelCall

/-! ## Runs -/

section Runs

variable {e : LockEnv} {as : List (Sched KernelCall)}

/-- One thread removes the shadow directory, while another makes a name beside it. -/
def removedShadow : List (Sched KernelCall) :=
  [.start 0 (.rmdir 9 0 true), .start 1 (.make 9 false), .exec 0, .exec 1]

/-- A directory of the shadow directory is removed, while a file removed from it is restored. -/
def crossedCalls : List (Sched KernelCall) :=
  .start 0 (.rmdir 0 7 false) ::
    .start 1 (.rollbackDeleted [] [] 7 (some (8, some ⟨true, false, 0⟩))) ::
      (List.replicate 3 (.exec 0) ++ List.replicate 8 (.exec 1))

/-- **A removal and a rollback can wait for each other**, in a directory inside `.cowfs_shadow`:
each has locked the lower directory the other one asks for. -/
theorem rmdir_meets_restore :
    Along (LockThreads.step (KernelCall.locks smallLockEnv))
        (Starts fun c => ¬ c.RestoresShadow smallLockEnv) .init crossedCalls ∧
      ¬ (callsRun smallLockEnv crossedCalls).CanFinish (KernelCall.locks smallLockEnv) := by
  refine ⟨⟨fun _ => by simp [KernelCall.RestoresShadow], fun _ => ?_, ?_⟩,
    stuck_never_finishes (t := 0) _ (by decide) fun t => ?_⟩
  · simp [KernelCall.RestoresShadow, RecreatesShadow, smallLockEnv]
  · simp [Along, Starts, List.replicate]
  · rcases t with _ | _ | t
    · rfl
    · rfl
    · rfl

end Runs

end Cowfs
