import Cowfs.Construction.Paths
import Cowfs.Properties.CopyLoop
import Cowfs.Properties.Snapshots

/-!
# What a copy that reports success delivers

Both copies test the result of `kernel_write` for an error only.  A write that accepts fewer
bytes than it was offered is not repeated, the next read continues behind the chunk, and the
function returns 0.  So a return value of 0 vouches for the destination exactly when no write
before the end of the source was short.

`Opens` and `CopyOpens` are the calls before the loop.  From them on the two functions are the
loop and nothing else: `restore_of_opens` and `copy_of_opens`.
-/

namespace Cowfs

variable {env : Env} {st : Store} {src : Content} {path : CStr} {φ : CopyFaults}

/-! ## Up to the loop -/

/-- Every call of `cowfs_shadow_restore_file` up to and including the truncation of the target
succeeds, and the shadow file holds `src`. -/
structure Opens (env : Env) (st : Store) (path : CStr) (φ : CopyFaults) (src : Content) :
    Prop where
  cred : φ.cred = false
  openSrc : φ.openSrc = none
  source : st.shadowAt env path = some src
  openDst : φ.openDst = none
  truncate : φ.truncate = none

lemma restore_of_opens (h : Opens env st path φ src) (l : Lower) (f : Fid) (now : ℕ) :
    shadowRestoreFile env st l path f now φ =
      if φ.kmalloc then (some .enomem, l.setData f [] now)
      else ((copyAll φ.io src).1, l.setData f (copyAll φ.io src).2 now) := by
  unfold shadowRestoreFile
  simp only [h.cred, h.openSrc, h.source, h.openDst, h.truncate, Bool.false_eq_true, if_false]

/-- Up to the truncation a failure leaves everything as it was. -/
lemma restore_of_not_opens (h : ∀ src, ¬ Opens env st path φ src) (l : Lower) (f : Fid)
    (now : ℕ) : ∃ e, shadowRestoreFile env st l path f now φ = (some e, l) := by
  unfold shadowRestoreFile
  by_cases hcred : φ.cred
  · exact ⟨_, if_pos hcred⟩
  rw [if_neg hcred]
  split
  · exact ⟨_, rfl⟩
  · exact ⟨_, rfl⟩
  next src hopenSrc hsrc =>
    split
    · exact ⟨_, rfl⟩
    next hopenDst =>
      split
      · exact ⟨_, rfl⟩
      next htruncate =>
        exact absurd ⟨by simpa using hcred, hopenSrc, hsrc, hopenDst, htruncate⟩ (h src)

/-- A restoration that returns 0 has run its loop to the end. -/
lemma restore_success {l l' : Lower} {f : Fid} {now : ℕ}
    (h : shadowRestoreFile env st l path f now φ = (none, l')) :
    ∃ src, st.shadowAt env path = some src ∧ (copyAll φ.io src).1 = none ∧
      l' = l.setData f (copyAll φ.io src).2 now := by
  by_cases hopens : ∃ src, Opens env st path φ src
  · obtain ⟨src, ho⟩ := hopens
    rw [restore_of_opens ho] at h
    split at h
    · cases h
    · obtain ⟨hloop, hl⟩ := Prod.mk.inj h
      exact ⟨src, ho.source, hloop, hl.symm⟩
  · push Not at hopens
    obtain ⟨e, he⟩ := restore_of_not_opens hopens l f now
    rw [he] at h
    cases h

/-- Every call of `cowfs_shadow_copy_file` up to the opening of the shadow file succeeds. -/
structure CopyOpens (env : Env) (st : Store) (path : CStr) (φ : CopyFaults) : Prop where
  cred : φ.cred = false
  openSrc : φ.openSrc = none
  openDst : φ.openDst = none
  target : st.openCreate env path = none

lemma copy_of_opens (h : CopyOpens env st path φ) (src : Content) :
    shadowCopyFile env st src path φ =
      if φ.kmalloc then (some .enomem, st.put [] (shadowPlace env path))
      else ((copyAll φ.io src).1, st.put (copyAll φ.io src).2 (shadowPlace env path)) := by
  unfold shadowCopyFile
  simp only [h.cred, h.openSrc, h.openDst, h.target, Bool.false_eq_true, if_false]

lemma copy_of_not_opens (h : ¬ CopyOpens env st path φ) (src : Content) :
    ∃ e, shadowCopyFile env st src path φ = (some e, st) := by
  unfold shadowCopyFile
  by_cases hcred : φ.cred
  · exact ⟨_, if_pos hcred⟩
  rw [if_neg hcred]
  split
  · exact ⟨_, rfl⟩
  next hopenSrc =>
    split
    · exact ⟨_, rfl⟩
    · exact ⟨_, rfl⟩
    next hopenDst htarget =>
      exact absurd ⟨by simpa using hcred, hopenSrc, hopenDst, htarget⟩ h

/-- What the copy writes is found under the path. -/
lemma shadowAt_put_self (h : st.openCreate env path = none) (c : Content) :
    (st.put c (shadowPlace env path)).shadowAt env path = some c :=
  fileIn_put_self fun _ _ hplace => isSome_of_openCreate h hplace

/-! ## The return value -/

/-- `cowfs_shadow_copy_file` returns 0 only when the shadow file holds the source. -/
def CopyTrue (env : Env) (st : Store) (src : Content) (path : CStr) (φ : CopyFaults) : Prop :=
  (shadowCopyFile env st src path φ).1 = none →
    (shadowCopyFile env st src path φ).2.shadowAt env path = some src

/-- `cowfs_shadow_restore_file` returns 0 only when the target holds what the shadow file
holds. -/
def RestoreTrue (env : Env) (st : Store) (l : Lower) (path : CStr) (f : Fid) (now : ℕ)
    (φ : CopyFaults) : Prop :=
  (shadowRestoreFile env st l path f now φ).1 = none →
    st.shadowAt env path = some ((shadowRestoreFile env st l path f now φ).2.content f)

/-- When every read and write up to the end of the source succeeds, every write accepts all it
is offered. -/
def NoneShort (io : ℕ → IoStep) (src : Content) : Prop := Ends io src → CompleteAll io src

lemma copyTrue_iff (env : Env) (st : Store) (src : Content) (path : CStr) (φ : CopyFaults) :
    CopyTrue env st src path φ ↔
      (CopyOpens env st path φ → φ.kmalloc = false → NoneShort φ.io src) := by
  by_cases h : CopyOpens env st path φ
  · rw [CopyTrue, copy_of_opens h, forall_prop_of_true h]
    cases hk : φ.kmalloc with
    | true => simp
    | false =>
      simp only [Bool.false_eq_true, if_false, forall_const]
      rw [copyAll_success_iff, shadowAt_put_self h.target, Option.some.injEq, copyAll_eq_iff,
        NoneShort]
  · obtain ⟨e, he⟩ := copy_of_not_opens h src
    refine iff_of_true ?_ fun hopens => absurd hopens h
    intro hret
    rw [he] at hret
    cases hret

lemma restoreTrue_iff {l : Lower} {f : Fid} (hf : (l.inodes f).isSome) (env : Env) (st : Store)
    (path : CStr) (now : ℕ) (φ : CopyFaults) :
    RestoreTrue env st l path f now φ ↔
      ∀ src, Opens env st path φ src → φ.kmalloc = false → NoneShort φ.io src := by
  by_cases hopens : ∃ src, Opens env st path φ src
  · obtain ⟨src, h⟩ := hopens
    have hall : (∀ src, Opens env st path φ src → φ.kmalloc = false → NoneShort φ.io src) ↔
        (φ.kmalloc = false → NoneShort φ.io src) := by
      refine ⟨fun h' => h' src h, fun h' src' ho => ?_⟩
      obtain rfl := Option.some.inj (h.source.symm.trans ho.source)
      exact h'
    rw [hall, RestoreTrue, restore_of_opens h]
    cases hk : φ.kmalloc with
    | true => simp
    | false =>
      simp only [Bool.false_eq_true, if_false, forall_const]
      rw [copyAll_success_iff, h.source, Lower.setData_content hf, Option.some.injEq, eq_comm,
        copyAll_eq_iff, NoneShort]
  · push Not at hopens
    obtain ⟨e, he⟩ := restore_of_not_opens hopens l f now
    refine iff_of_true ?_ fun src h => absurd h (hopens src)
    intro h
    rw [he] at h
    cases h

/-- **When a copy tells the truth.**  Either function returns 0 with a destination that differs
from its source exactly when everything succeeds and a write before the end of the source is
short. -/
theorem copies_true_iff (env : Env) (st : Store) (src : Content) (l : Lower) (path : CStr)
    (f : Fid) (now : ℕ) (φ : CopyFaults) (hf : (l.inodes f).isSome) :
    (CopyTrue env st src path φ ↔
        (CopyOpens env st path φ → φ.kmalloc = false → NoneShort φ.io src)) ∧
      (RestoreTrue env st l path f now φ ↔
        ∀ src, Opens env st path φ src → φ.kmalloc = false → NoneShort φ.io src) :=
  ⟨copyTrue_iff env st src path φ, restoreTrue_iff hf env st path now φ⟩

/-! ## A short write -/

/-- The lower directory of the small tree is mounted, nothing is saved yet. -/
def freshStore : Store :=
  (run (step smallEnv) (State.init smallTree fun _ => none) [.mount ['/', 'l'] none none]).store

/-- The name of a shadow file there. -/
def freshPath : CStr := ['/', 'l', '/'] ++ shadowDir ++ '/' :: decimalPair 10 1000

/-- No call fails, and every write accepts one byte. -/
def oneByteWrites : CopyFaults :=
  { CopyFaults.clean with io := fun _ => ⟨.ok copyBufSize, .ok 1⟩ }

/-- The store in which `freshPath` holds two bytes. -/
def savedStore : Store :=
  (shadowCopyFile smallEnv freshStore [1, 2] freshPath CopyFaults.clean).2

/-- The small tree with a file of one byte, the object 4. -/
def fileTree : Lower :=
  smallTree.addNode 1 ['x'] ⟨10, sIFREG ||| 0x1A4#16, 0, 0, 0, [9]⟩

/-- The tree with the file 4 is mounted. -/
def fileMounted : State :=
  run (step smallEnv) (State.init fileTree fun _ => none) [.mount ['/', 'l'] none none]

/-- Both copies report success for half of the content. -/
theorem copies_untrue :
    (shadowCopyFile smallEnv freshStore [1, 2] freshPath oneByteWrites).1 = none ∧
      (shadowCopyFile smallEnv freshStore [1, 2] freshPath oneByteWrites).2.shadowAt smallEnv
        freshPath = some [1] ∧
      (shadowRestoreFile smallEnv savedStore fileTree freshPath 4 0 oneByteWrites).1 = none ∧
      savedStore.shadowAt smallEnv freshPath = some [1, 2] ∧
      (shadowRestoreFile smallEnv savedStore fileTree freshPath 4 0 oneByteWrites).2.content 4 =
        [1] ∧
      ¬ (CopyTrue smallEnv freshStore [1, 2] freshPath oneByteWrites) ∧
      ¬ (RestoreTrue smallEnv savedStore fileTree freshPath 4 0 oneByteWrites) := by
  have hcopy : (shadowCopyFile smallEnv freshStore [1, 2] freshPath oneByteWrites).1 = none := by
    decide +kernel
  have hsaved : (shadowCopyFile smallEnv freshStore [1, 2] freshPath oneByteWrites).2.shadowAt
      smallEnv freshPath = some [1] := by decide +kernel
  have hrestore : (shadowRestoreFile smallEnv savedStore fileTree freshPath 4 0
      oneByteWrites).1 = none := by decide +kernel
  have hsource : savedStore.shadowAt smallEnv freshPath = some [1, 2] := by decide +kernel
  have htarget : (shadowRestoreFile smallEnv savedStore fileTree freshPath 4 0
      oneByteWrites).2.content 4 = [1] := by decide +kernel
  refine ⟨hcopy, hsaved, hrestore, hsource, htarget, fun h => ?_, fun h => ?_⟩
  · have := h hcopy
    rw [hsaved] at this
    cases this
  · have := h hrestore
    rw [hsource, htarget] at this
    cases this

theorem copies_true_clean :
    (CopyTrue smallEnv savedStore [1, 2] freshPath CopyFaults.clean ↔
        (CopyOpens smallEnv savedStore freshPath CopyFaults.clean →
          CopyFaults.clean.kmalloc = false → NoneShort CopyFaults.clean.io [1, 2])) ∧
      (RestoreTrue smallEnv savedStore fileTree freshPath 4 0 CopyFaults.clean ↔
        ∀ src, Opens smallEnv savedStore freshPath CopyFaults.clean src →
          CopyFaults.clean.kmalloc = false → NoneShort CopyFaults.clean.io src) :=
  copies_true_iff smallEnv savedStore [1, 2] fileTree freshPath 4 0 CopyFaults.clean
    (by decide +kernel)

end Cowfs
