import Cowfs.Construction.Memory
import Cowfs.Framework.Run

/-!
# What becomes of every block

After any run, every block that was handed out is free, or held by the superblock, by a dentry or
by an open file, or lost, and never two of these: no block is freed twice, and none that is still
held is free.  `leaks` says how many a call loses: a mount the values of all `lowerdir` options
but the last, and that one too when its directory cannot be found; an unmount the info of the
root dentry (`memory_exact`).
-/

namespace Cowfs

/-! ## Statement -/

/-- The blocks something holds. -/
def MemState.held (s : MemState) : List ℕ :=
  s.sbi.toList ++ s.rootInfo.toList ++ s.infos.map Prod.snd ++ s.files.map Prod.snd

/-- The number of options whose value is duplicated. -/
def duplicated (fails : ℕ → Bool) : List CStr → ℕ
  | [] => 0
  | p :: ps => (if (matchToken p).isSome && !fails ps.length then 1 else 0) + duplicated fails ps

/-- The same for the data of a mount. -/
def duplicatedIn (fails : ℕ → Bool) (data : Option CStr) : ℕ :=
  (data.map fun data => duplicated fails (data.splitOn ',')).getD 0

/-- The blocks a call loses. -/
def leaks (s : MemState) : MemAct → ℕ
  | .mount data φ =>
    if s.sbi.isSome then 0
    else if (parseOptions φ.strdup data s.heap).1 = none then duplicatedIn φ.strdup data
    else if !φ.sbi && φ.kernPath.isSome then duplicatedIn φ.strdup data
    else duplicatedIn φ.strdup data - 1
  | .umount => if s.files = [] then s.rootInfo.toList.length else 0
  | _ => 0

/-- Every block is free, held or lost, once. -/
def Settles (h : Heap) (held lost : List ℕ) : Prop :=
  (h.freed ++ held ++ lost).Perm (List.range h.next)

variable {h h' : Heap} {held held' lost : List ℕ} {block : ℕ}

/-! ## Blocks handed out and freed -/

lemma Settles.perm (hs : Settles h held lost) (hheld : held.Perm held') : Settles h held' lost :=
  (((List.Perm.append_left _ hheld.symm).append_right _).trans hs)

lemma Settles.alloc (hs : Settles h held lost) :
    Settles { h with next := h.next + 1 } (h.next :: held) lost := by
  unfold Settles at *
  rw [List.range_succ]
  refine List.Perm.trans ?_ ((List.perm_append_singleton _ _).symm.trans (.refl _))
  refine List.Perm.trans ?_ (hs.cons h.next)
  simp only [List.append_assoc, List.cons_append]
  exact List.perm_middle

lemma Settles.free (hs : Settles h (block :: held) lost) :
    Settles (h.free block) held lost := by
  unfold Settles Heap.free at *
  refine List.Perm.trans ?_ hs
  simp only [List.append_assoc, List.cons_append]
  exact List.perm_middle.symm

lemma Settles.lose (hs : Settles h (block :: held) lost) : Settles h held (block :: lost) := by
  unfold Settles at *
  refine List.Perm.trans ?_ hs
  simp only [List.append_assoc, List.cons_append]
  refine List.Perm.append_left _ ?_
  exact List.perm_middle

/-- What is taken within a call and given back changes nothing. -/
lemma Settles.borrow (hs : Settles h held lost) (fails : Bool) :
    Settles (h.borrow fails) held lost := by
  rcases fails with _ | _
  · exact hs.alloc.free
  · exact hs

lemma Settles.freeAll {blocks : List (ℕ × ℕ)} (hs : Settles h (blocks.map Prod.snd ++ held) lost) :
    Settles (blocks.foldl (fun h i => h.free i.2) h) held lost := by
  induction blocks generalizing h with
  | nil => exact hs
  | cons i blocks ih => exact ih hs.free

/-! ## Options -/

/-- The block `lowerdir` points to. -/
def strBlock (lowerdir : Option (ℕ × CStr)) : List ℕ := (lowerdir.map Prod.fst).toList

/-- `lowerdir` is overwritten. -/
lemma Settles.overwrite {lowerdir : Option (ℕ × CStr)}
    (hs : Settles h (strBlock lowerdir ++ held) lost) :
    Settles h held (strBlock lowerdir ++ lost) := by
  rcases lowerdir with _ | ⟨block, text⟩
  · exact hs
  · exact hs.lose

/-- The loop keeps the last value and loses the others. -/
lemma parseFields_settles (fails : ℕ → Bool) (ps : List CStr) {lowerdir : Option (ℕ × CStr)}
    (hs : Settles h (strBlock lowerdir ++ held) lost) :
    ∃ more, Settles (parseFields fails ps h lowerdir).2
        (strBlock (parseFields fails ps h lowerdir).1 ++ held) (more ++ lost) ∧
      more.length + (strBlock (parseFields fails ps h lowerdir).1).length =
        (strBlock lowerdir).length + duplicated fails ps := by
  induction ps generalizing h lowerdir lost with
  | nil => exact ⟨[], hs, by simp [parseFields, duplicated]⟩
  | cons p ps ih =>
    by_cases hp : p = []
    · subst hp
      obtain ⟨more, hs', hlen⟩ := ih hs
      rw [parseFields, if_pos rfl]
      exact ⟨more, hs', by simpa [duplicated, matchToken, lowerdirEq] using hlen⟩
    rw [parseFields, if_neg hp, duplicated]
    rcases htoken : matchToken p with _ | text
    · obtain ⟨more, hs', hlen⟩ := ih hs
      exact ⟨more, hs', by simpa using hlen⟩
    dsimp only
    rcases hfails : fails ps.length with _ | _
    · have hnew : Settles { h with next := h.next + 1 }
          (strBlock lowerdir ++ (h.next :: held)) lost := hs.alloc.perm List.perm_middle.symm
      obtain ⟨more, hs', hlen⟩ := ih (show Settles _ (strBlock (some (h.next, text)) ++ held) _ from
        hnew.overwrite)
      rw [← List.append_assoc] at hs'
      refine ⟨_, hs', ?_⟩
      have hone : (strBlock (some (h.next, text))).length = 1 := rfl
      simp only [Heap.alloc, Bool.false_eq_true, if_false, Option.map_some, List.length_append,
        Option.isSome_some, Bool.not_false, Bool.and_self, if_true] at hlen ⊢
      omega
    · obtain ⟨more, hs', hlen⟩ := ih (show Settles _ (strBlock none ++ held) _ from hs.overwrite)
      rw [← List.append_assoc] at hs'
      refine ⟨_, hs', ?_⟩
      have hzero : (strBlock none).length = 0 := rfl
      simp only [Heap.alloc, if_true, Option.map_none, List.length_append, Option.isSome_some,
        Bool.not_true, Bool.and_false, Bool.false_eq_true, if_false] at hlen ⊢
      omega

lemma parseOptions_settles (fails : ℕ → Bool) (data : Option CStr) (hs : Settles h held lost) :
    ∃ more, Settles (parseOptions fails data h).2
        (strBlock (parseOptions fails data h).1 ++ held) (more ++ lost) ∧
      more.length + (strBlock (parseOptions fails data h).1).length =
        duplicatedIn fails data := by
  rcases data with _ | data
  · exact ⟨[], hs, rfl⟩
  · have hnone : Settles h (strBlock none ++ held) lost := hs
    obtain ⟨more, hs', hlen⟩ := parseFields_settles fails (data.splitOn ',') hnone
    exact ⟨more, hs', hlen.trans (Nat.zero_add _)⟩

/-! ## Calls -/

variable {s : MemState}

/-- Every block of a state is accounted for, and a root has an info as long as it is mounted. -/
structure Audited (s : MemState) (lost : List ℕ) : Prop where
  blocks : Settles s.heap s.held lost
  root : s.sbi = none → s.rootInfo = none

lemma Audited.heap (hs : Audited s lost) {heap : Heap} {lost' : List ℕ}
    (h : Settles heap s.held lost') : Audited { s with heap := heap } lost' :=
  ⟨h, hs.root⟩

/-- What a mount loses, once its options are read. -/
lemma leaks_mount (hsbi : s.sbi = none) {data : Option CStr} {φ : FillFaults} {str : ℕ} {dir : CStr}
    {heap : Heap} (hparse : parseOptions φ.strdup data s.heap = (some (str, dir), heap)) :
    leaks s (.mount data φ) = if !φ.sbi && φ.kernPath.isSome then duplicatedIn φ.strdup data
      else duplicatedIn φ.strdup data - 1 := by
  rw [leaks, hsbi, hparse]
  rfl

/-- **A mount.**  On every path of `cowfs_fill_super` the blocks are given back, but for the
values of the options. -/
lemma fillSuper_settles (hs : Audited s lost) (hsbi : s.sbi = none) (data : Option CStr)
    (φ : FillFaults) :
    ∃ more, Audited (s.fillSuper data φ).2 (more ++ lost) ∧
      more.length = leaks s (.mount data φ) := by
  obtain ⟨more, hs₁, hlen₁⟩ := parseOptions_settles φ.strdup data hs.blocks
  rcases hparse : parseOptions φ.strdup data s.heap with ⟨_ | ⟨str, dir⟩, heap⟩ <;>
    rw [hparse] at hs₁ hlen₁
  · refine ⟨more, ?_, ?_⟩
    · simp only [MemState.fillSuper, hparse]
      exact hs.heap hs₁
    · rw [leaks, hsbi, hparse]
      exact hlen₁
  have hstr : Settles heap (str :: s.held) (more ++ lost) := hs₁
  have hlen : more.length + 1 = duplicatedIn φ.strdup data := hlen₁
  rw [leaks_mount hsbi hparse]
  simp only [MemState.fillSuper, hparse, Heap.alloc]
  rcases φ.sbi with _ | _
  · have hsbiBlock := hstr.alloc
    rcases φ.kernPath with _ | e
    · have hheld := (hsbiBlock.perm (.swap _ _ _)).free
      have hfailed := hs.heap hheld.free
      rcases φ.inode with _ | e
      · rcases φ.makeRoot with _ | _
        · rcases φ.info with _ | _
          · refine ⟨more, ⟨?_, fun h => by cases h⟩, ?_⟩
            · refine hheld.alloc.perm ?_
              simp only [MemState.held, hsbi, hs.root hsbi]
              exact .swap _ _ _
            · simp
              omega
          · exact ⟨more, hfailed, by simp; omega⟩
        · exact ⟨more, hfailed, by simp; omega⟩
      · exact ⟨more, hfailed, by simp; omega⟩
    · exact ⟨str :: more, hs.heap hsbiBlock.free.lose, by simp; omega⟩
  · exact ⟨more, hs.heap hstr.free, by simp; omega⟩

/-- **The unmount.**  The blocks of the dentries and of the superblock are freed, and the info of
the root is lost. -/
lemma umount_settles (hs : Audited s lost) {sbi : ℕ} (hsbi : s.sbi = some sbi)
    (hfiles : s.files = []) : Audited (s.umount sbi) (s.rootInfo.toList ++ lost) := by
  refine ⟨?_, fun _ => rfl⟩
  have hheld : Settles s.heap (s.infos.map Prod.snd ++ (sbi :: s.rootInfo.toList)) lost := by
    refine hs.blocks.perm ?_
    simp only [MemState.held, hsbi, hfiles, List.map_nil, List.append_nil, Option.toList_some]
    exact List.perm_append_comm
  have hfreed := hheld.freeAll.free
  have hnone : (s.umount sbi).held = [] := by simp [MemState.held, MemState.umount, hfiles]
  rw [hnone]
  rcases hroot : s.rootInfo with _ | info <;> rw [hroot] at hfreed
  · exact hfreed
  · exact hfreed.lose

/-- The blocks held are counted place by place. -/
lemma count_held (s : MemState) (b : ℕ) :
    s.held.count b = s.sbi.toList.count b + s.rootInfo.toList.count b +
      (s.infos.map Prod.snd).count b + (s.files.map Prod.snd).count b := by
  simp only [MemState.held, List.count_append]

/-- The first element with a property is taken from a list. -/
lemma count_eraseP {blocks : List (ℕ × ℕ)} {p : ℕ × ℕ → Bool} {i : ℕ × ℕ}
    (h : blocks.find? p = some i) (b : ℕ) :
    (blocks.map Prod.snd).count b =
      ((blocks.eraseP p).map Prod.snd).count b + if i.2 = b then 1 else 0 := by
  obtain ⟨hi, before, after, rfl, hbefore⟩ := List.find?_eq_some_iff_append.1 h
  have hnone : ∀ a ∈ before, ¬ p a = true := fun a ha => by
    simpa using hbefore a ha
  rw [List.eraseP_append_right _ hnone, List.eraseP_cons_of_pos hi]
  simp only [List.map_append, List.map_cons, List.count_append, List.count_cons, beq_iff_eq]
  omega

lemma lookup_settles (hs : Audited s lost) (id : ℕ) (outcome : LookupOutcome) :
    Audited (s.lookup id outcome) lost := by
  rcases outcome with _ | dentry | dentry | dentry
  · exact hs
  · exact hs.heap (hs.blocks.borrow true)
  · exact hs.heap (hs.blocks.borrow false)
  · refine ⟨hs.blocks.alloc.perm (List.perm_iff_count.2 fun b => ?_), hs.root⟩
    simp only [MemState.lookup, count_held, List.count_cons, List.map_cons]
    omega

lemma dRelease_settles (hs : Audited s lost) (id : ℕ) : Audited (s.dRelease id) lost := by
  unfold MemState.dRelease
  split
  · exact hs
  next i hfind =>
    refine ⟨Settles.free (hs.blocks.perm (List.perm_iff_count.2 fun b => ?_)), hs.root⟩
    have hcount := count_eraseP hfind b
    simp only [count_held, List.count_cons, beq_iff_eq]
    omega

lemma open_settles (hs : Audited s lost) (fd : ℕ) (kzalloc dentryOpen : Bool) :
    Audited (s.open_ fd kzalloc dentryOpen) lost := by
  rcases kzalloc with _ | _
  · rcases dentryOpen with _ | _
    · refine ⟨hs.blocks.alloc.perm (List.perm_iff_count.2 fun b => ?_), hs.root⟩
      simp only [MemState.open_, Heap.alloc, Bool.false_eq_true, if_false, count_held,
        List.count_cons, List.map_cons]
      omega
    · exact hs.heap hs.blocks.alloc.free
  · exact hs

lemma release_settles (hs : Audited s lost) (fd : ℕ) : Audited (s.release fd) lost := by
  unfold MemState.release
  split
  · exact hs
  next i hfind =>
    refine ⟨Settles.free (hs.blocks.perm (List.perm_iff_count.2 fun b => ?_)), hs.root⟩
    have hcount := count_eraseP hfind b
    simp only [count_held, List.count_cons, beq_iff_eq]
    omega

/-! ## Runs -/

/-- **One call** loses as many blocks as `leaks` says. -/
theorem memStep_settles (hs : Audited s lost) (a : MemAct) :
    ∃ more, Audited (memStep s a) (more ++ lost) ∧ more.length = leaks s a := by
  rcases a with ⟨data, φ⟩ | _ | ⟨id, outcome⟩ | id | ⟨fd, kzalloc, dentryOpen⟩ | fd | fails
  · rcases hsbi : s.sbi with _ | sbi
    · obtain ⟨more, hs', hlen⟩ := fillSuper_settles hs hsbi data φ
      exact ⟨more, by simpa [memStep, hsbi] using hs', hlen⟩
    · exact ⟨[], by simpa [memStep, hsbi] using hs, by simp [leaks, hsbi]⟩
  · rcases hsbi : s.sbi with _ | sbi
    · exact ⟨[], by simpa [memStep, hsbi] using hs, by simp [leaks, hs.root hsbi]⟩
    · by_cases hfiles : s.files = []
      · refine ⟨s.rootInfo.toList, ?_, by simp [leaks, hfiles]⟩
        simpa [memStep, hsbi, hfiles] using umount_settles hs hsbi hfiles
      · exact ⟨[], by simpa [memStep, hsbi, hfiles] using hs, by simp [leaks, hfiles]⟩
  · refine ⟨[], ?_, rfl⟩
    simp only [memStep]
    split
    · exact lookup_settles hs id outcome
    · exact hs
  · exact ⟨[], dRelease_settles hs id, rfl⟩
  · refine ⟨[], ?_, rfl⟩
    simp only [memStep]
    split
    · exact open_settles hs fd kzalloc dentryOpen
    · exact hs
  · exact ⟨[], release_settles hs fd, rfl⟩
  · exact ⟨[], hs.heap (hs.blocks.borrow fails), rfl⟩

/-- The blocks a run loses. -/
def leaked (as : List MemAct) : ℕ :=
  (observe memStep (fun s a => [leaks s a]) MemState.init as).sum

/-- **The memory of the module.**  After every run of mounts, unmounts, lookups, releases of
dentries, opens, closes and borrowed blocks, with whatever options and failures: every block
handed out is free, or held, or lost, and just one of these, and as many are lost as the calls of
the run leak. -/
theorem memory_exact (as : List MemAct) :
    ∃ lost, Settles (run memStep MemState.init as).heap (run memStep MemState.init as).held lost ∧
      lost.length = leaked as := by
  have hrun : ∃ lost, Audited (run memStep MemState.init as) lost ∧ lost.length = leaked as := by
    refine prefix_run (I := fun past s => ∃ lost, Audited s lost ∧ lost.length = leaked past)
      ⟨[], ⟨.refl _, fun _ => rfl⟩, rfl⟩ ?_
    rintro past a post - ⟨lost, hs, hlen⟩
    obtain ⟨more, hs', hmore⟩ := memStep_settles hs a
    refine ⟨more ++ lost, hs', ?_⟩
    rw [List.length_append, hlen, hmore, leaked, leaked, observe_concat, List.sum_append]
    simp only [List.sum_singleton]
    omega
  obtain ⟨lost, hs, hlen⟩ := hrun
  exact ⟨lost, hs.blocks, hlen⟩

end Cowfs
