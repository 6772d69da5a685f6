import Cowfs.Construction.References
import Cowfs.Framework.Run

/-!
# The balance of references

`Balanced` compares the count of every lower object with the number of its holders.  Two steps
break it.  `cowfs_lookup` stores the mount in the info of the new dentry without taking a
reference, while `cowfs_d_release` puts one, so that from then on the mount has fewer references
than holders; and the unmount frees the root dentry without `cowfs_d_release`, so that the
references of its info are never put.  Every other step keeps the balance, and `balanced_iff` says
that a run is in balance throughout exactly when it has neither.
-/

namespace Cowfs

/-! ## Holders -/

def LowerPath.objects (p : LowerPath) : List LowerObj := [.mnt p.mnt, .dentry p.dentry]

/-- The objects held, once for each holder. -/
def RefState.held (s : RefState) : List LowerObj :=
  (s.sbi.toList ++ s.rootInfo.toList ++ s.infos.map Prod.snd ++ s.shadowPath.toList).flatMap
    LowerPath.objects

/-- Every lower object has as many references as holders. -/
def Balanced (s : RefState) : Prop := ∀ o, s.refs o = (s.held.count o : ℤ)

/-- No lookup that sets up an info, and no unmount of a mounted tree. -/
def Harmless (s : RefState) : RefOp → Prop
  | .lookup _ (.found _) => s.sbi = none
  | .umount => s.sbi = none
  | _ => True

/-- The only live info is that of the root, and nothing is left of a mount that is gone. -/
structure RootOnly (s : RefState) : Prop where
  root : s.rootInfo = s.sbi
  infos : s.infos = []
  shadow : s.sbi = none → s.shadowPath = none

variable {s : RefState} {o : LowerObj}

/-! ## Counting -/

lemma get_refs (s : RefState) (o' o : LowerObj) :
    (s.get o').refs o = s.refs o + if o' = o then 1 else 0 := by
  by_cases h : o' = o
  · subst h; simp [RefState.get]
  · simp [RefState.get, h, Ne.symm h]

lemma put_refs (s : RefState) (o' o : LowerObj) :
    (s.put o').refs o = s.refs o - if o' = o then 1 else 0 := by
  by_cases h : o' = o
  · subst h; simp [RefState.put]
  · simp [RefState.put, h, Ne.symm h]

lemma count_objects (p : LowerPath) (o : LowerObj) :
    (p.objects.count o : ℤ) =
      (if LowerObj.mnt p.mnt = o then 1 else 0) +
        if LowerObj.dentry p.dentry = o then 1 else 0 := by
  simp only [LowerPath.objects, List.count_cons, List.count_nil, beq_iff_eq]
  split_ifs <;> simp

/-- A tree that is not mounted has no holders. -/
lemma held_unmounted (hs : RootOnly s) (hsbi : s.sbi = none) : s.held = [] := by
  have hroot : s.rootInfo = none := hs.root.trans hsbi
  simp [RefState.held, hsbi, hroot, hs.infos, hs.shadow hsbi]

/-- What the shadow directory adds to the holders is what `cowfs_shadow_init` takes. -/
lemma shadowInit_balanced {sbi : LowerPath} (hb : Balanced s) (hsbi : s.sbi = some sbi)
    (hs : s.rootInfo = some sbi) (hinfos : s.infos = []) (hshadow : s.shadowPath = none)
    (φ : ShadowLookup) :
    Balanced (shadowInitRefs s sbi φ) ∧ (shadowInitRefs s sbi φ).sbi = some sbi ∧
      (shadowInitRefs s sbi φ).rootInfo = some sbi ∧ (shadowInitRefs s sbi φ).infos = [] := by
  have hheld : s.held = sbi.objects ++ sbi.objects := by
    simp [RefState.held, hsbi, hs, hinfos, hshadow]
  have htaken : ∀ d, Balanced { (s.get (.dentry d)).get (.mnt sbi.mnt) with
      shadowPath := some ⟨sbi.mnt, d⟩ } := by
    intro d o
    have hnew : RefState.held { (s.get (.dentry d)).get (.mnt sbi.mnt) with
        shadowPath := some ⟨sbi.mnt, d⟩ } = s.held ++ LowerPath.objects ⟨sbi.mnt, d⟩ := by
      simp [RefState.held, RefState.get, hsbi, hs, hinfos, hshadow]
    rw [hnew, List.count_append, Nat.cast_add, ← hb o, count_objects]
    simp only [get_refs]
    ring
  match φ with
  | .failed => exact ⟨hb, hsbi, hs, hinfos⟩
  | .positive d => exact ⟨htaken d, hsbi, hs, hinfos⟩
  | .negative d false => exact ⟨htaken d, hsbi, hs, hinfos⟩
  | .negative d true =>
    refine ⟨fun o => ?_, hsbi, hs, hinfos⟩
    have hheld' : (shadowInitRefs s sbi (.negative d true)).held = s.held := rfl
    rw [hheld', ← hb o]
    simp only [shadowInitRefs, get_refs, put_refs]
    ring

/-! ## The steps -/

/-- A mount that fails has put what it took, and one that succeeds has taken a reference for
each of its holders. -/
lemma mount_balanced (hs : RootOnly s) (hb : Balanced s) (hsbi : s.sbi = none)
    (lower : LowerPath) (φ : MountFaults) :
    Balanced (fillSuperRefs s lower φ) ∧ RootOnly (fillSuperRefs s lower φ) := by
  have hroot : s.rootInfo = none := hs.root.trans hsbi
  have hshadow := hs.shadow hsbi
  have hinfos := hs.infos
  have hzero : ∀ o, s.refs o = 0 := by
    intro o
    rw [hb o, held_unmounted hs hsbi]
    rfl
  unfold fillSuperRefs
  split_ifs with hkern hinfo
  · exact ⟨hb, hs⟩
  · refine ⟨fun o => ?_, ⟨hs.root, hs.infos, hs.shadow⟩⟩
    show _ = (s.held.count o : ℤ)
    rw [← hb o]
    simp only [get_refs, put_refs, RefState.pathPut]
    ring
  · -- the superblock info and the root's info hold the same path
    refine (shadowInit_balanced ?_ ?_ ?_ ?_ ?_ φ.shadow).imp_right ?_
    rotate_left
    · rfl
    · rfl
    · exact hinfos
    · exact hshadow
    · rintro ⟨hsbi', hroot', hinfos'⟩
      exact ⟨hroot'.trans hsbi'.symm, hinfos', fun h => by simp [hsbi'] at h⟩
    · intro o
      have hheld : RefState.held { s with sbi := some lower, rootInfo := some lower } =
          lower.objects ++ lower.objects := by
        simp [RefState.held, hinfos, hshadow]
      show _ = ((RefState.held { s with sbi := some lower, rootInfo := some lower }).count o : ℤ)
      rw [hheld, List.count_append, Nat.cast_add, count_objects]
      simp only [get_refs, put_refs, RefState.pathPut, hzero]
      ring

/-- `cowfs_lookup` takes no reference on the mount for the info it sets up. -/
lemma found_unbalanced {sbi : LowerPath} (hb : Balanced s) (hsbi : s.sbi = some sbi) (id d : ℕ) :
    ¬ Balanced (lookupRefs s id (.found d)) := by
  intro h
  have hheld : (lookupRefs s id (.found d)).held.count (.mnt sbi.mnt) =
      s.held.count (.mnt sbi.mnt) + 1 := by
    simp [lookupRefs, hsbi, RefState.held, RefState.get, LowerPath.objects]
    omega
  have hrefs : (lookupRefs s id (.found d)).refs (.mnt sbi.mnt) = s.refs (.mnt sbi.mnt) := by
    simp [lookupRefs, hsbi, RefState.get]
  have hafter := h (.mnt sbi.mnt)
  have hbefore := hb (.mnt sbi.mnt)
  omega

/-- The root's info goes with the root dentry, and its references stay. -/
lemma umount_leaves {sbi : LowerPath} (hs : RootOnly s) (hb : Balanced s)
    (hsbi : s.sbi = some sbi) :
    (umountRefs s).held = [] ∧ ∀ o, (umountRefs s).refs o = (sbi.objects.count o : ℤ) := by
  have hroot : s.rootInfo = some sbi := hs.root.trans hsbi
  cases hshadow : s.shadowPath with
  | none =>
    have hheld : s.held = sbi.objects ++ sbi.objects := by
      simp [RefState.held, hsbi, hroot, hs.infos, hshadow]
    refine ⟨by simp [umountRefs, hsbi, shadowCleanupRefs, hs.infos, hshadow, RefState.held,
      RefState.put], fun o => ?_⟩
    have hbefore := hb o
    rw [hheld, List.count_append, Nat.cast_add, count_objects] at hbefore
    simp only [umountRefs, hsbi, shadowCleanupRefs, hs.infos, hshadow, List.foldl_nil, put_refs,
      count_objects]
    linarith
  | some p =>
    have hheld : s.held = (sbi.objects ++ sbi.objects) ++ p.objects := by
      simp [RefState.held, hsbi, hroot, hs.infos, hshadow]
    refine ⟨by simp [umountRefs, hsbi, shadowCleanupRefs, hs.infos, hshadow, RefState.held,
      RefState.pathPut, RefState.put], fun o => ?_⟩
    have hbefore := hb o
    rw [hheld, List.count_append, List.count_append, Nat.cast_add, Nat.cast_add, count_objects,
      count_objects] at hbefore
    simp only [umountRefs, hsbi, shadowCleanupRefs, hs.infos, hshadow, List.foldl_nil,
      RefState.pathPut, put_refs, count_objects]
    linarith

lemma umount_unbalanced {sbi : LowerPath} (hs : RootOnly s) (hb : Balanced s)
    (hsbi : s.sbi = some sbi) : ¬ Balanced (umountRefs s) := by
  intro h
  obtain ⟨hheld, hrefs⟩ := umount_leaves hs hb hsbi
  have hafter := h (.mnt sbi.mnt)
  rw [hheld, hrefs] at hafter
  simp [LowerPath.objects] at hafter

/-- A lookup that fails has put the dentry it took. -/
lemma lookup_failed_balanced (hb : Balanced s) (d : ℕ) :
    Balanced ((s.get (.dentry d)).put (.dentry d)) := by
  intro o
  have hheld : ((s.get (.dentry d)).put (.dentry d)).held = s.held := rfl
  rw [hheld, ← hb o, put_refs, get_refs]
  ring

/-- A harmless step keeps the holders to the root's, and exactly the harmless steps keep the
balance. -/
lemma refStep_balanced (hs : RootOnly s) (hb : Balanced s) (op : RefOp) :
    (Balanced (refStep s op) ↔ Harmless s op) ∧
      (Harmless s op → RootOnly (refStep s op)) := by
  match op with
  | .mount lower φ =>
    show (Balanced (if s.sbi.isSome then s else fillSuperRefs s lower φ) ↔ True) ∧
      (True → RootOnly (if s.sbi.isSome then s else fillSuperRefs s lower φ))
    cases hsbi : s.sbi with
    | some sbi => simpa using ⟨hb, hs⟩
    | none => simpa using mount_balanced hs hb hsbi lower φ
  | .lookup id outcome =>
    cases hsbi : s.sbi with
    | none =>
      have hstep : refStep s (.lookup id outcome) = s := by simp [refStep, lookupRefs, hsbi]
      rw [hstep]
      cases outcome <;> simp [Harmless, hsbi, hb, hs]
    | some sbi =>
      cases outcome with
      | lookupFails => simpa [refStep, lookupRefs, hsbi, Harmless] using ⟨hb, hs⟩
      | kzallocFails d =>
        simpa [refStep, lookupRefs, hsbi, Harmless] using
          ⟨lookup_failed_balanced hb d, hs.root, hs.infos, hs.shadow⟩
      | inodeFails d =>
        simpa [refStep, lookupRefs, hsbi, Harmless] using
          ⟨lookup_failed_balanced hb d, hs.root, hs.infos, hs.shadow⟩
      | found d => simpa [refStep, Harmless, hsbi] using found_unbalanced hb hsbi id d
  | .release id =>
    have hstep : refStep s (.release id) = s := by simp [refStep, releaseRefs, hs.infos]
    rw [hstep]
    exact ⟨iff_of_true hb trivial, fun _ => hs⟩
  | .umount =>
    cases hsbi : s.sbi with
    | none =>
      have hstep : refStep s .umount = s := by simp [refStep, umountRefs, hsbi]
      rw [hstep]
      exact ⟨iff_of_true hb hsbi, fun _ => hs⟩
    | some sbi => simpa [refStep, Harmless, hsbi] using umount_unbalanced hs hb hsbi

/-! ## Runs -/

/-- **The balance of a run.**  Every lower object has as many references as holders in every
state of a run exactly when no lookup of the run sets up an info and no mounted tree is
unmounted. -/
theorem balanced_iff (ops : List RefOp) :
    (∀ pre post, ops = pre ++ post → Balanced (run refStep .init pre)) ↔
      Along refStep Harmless .init ops := by
  refine exact_run (I := RootOnly) (fun s op hs hb hok => ?_) (fun s op hs hb => ?_) ?_ ?_
  · exact (refStep_balanced hs hb op).2 hok
  · exact (refStep_balanced hs hb op).1
  · exact ⟨rfl, rfl, fun _ => rfl⟩
  · intro o
    rfl

/-- A mount, two lookups whose dentries are then freed, and the unmount: with the second release
the mount has one reference for its three holders, and after the unmount a dentry reference and no
holder is left. -/
theorem mount_underflow :
    let tree : LowerPath := ⟨0, 0⟩
    let faults : MountFaults := ⟨false, false, false, false, .positive 1⟩
    let ops : List RefOp := [.mount tree faults, .lookup 1 (.found 2), .lookup 2 (.found 3),
      .release 1, .release 2]
    ¬ Balanced (run refStep .init ops) ∧
      (run refStep .init ops).refs (.mnt 0) = 1 ∧
      (run refStep .init ops).held.count (.mnt 0) = 3 ∧
      (run refStep .init (ops ++ [.umount])).held = [] ∧
      (run refStep .init (ops ++ [.umount])).refs (.dentry 0) = 1 ∧
      (run refStep .init (ops ++ [.umount])).refs (.mnt 0) = -1 := by
  refine ⟨fun h => ?_, by decide +kernel⟩
  have hmnt : (1 : ℤ) = ((3 : ℕ) : ℤ) := h (.mnt 0)
  norm_num at hmnt

end Cowfs
