import Cowfs.Properties.FaithfulCopy

/-!
# What a snapshot leaves, exactly

`Snapshot.take_cases` lists what a snapshot may do; here is what it does do, as a function of the
failures around it.  Two things are decided one after the other.  Once source and destination are
open the shadow file is there, whatever happens later, and `leftover` is what it ends up holding.
Whether a version enters the table is decided afterwards, by `Enters`.  No function of the code
looks back: a file whose version does not enter stays.
-/

namespace Cowfs

open KeyedLog

variable {env : Env} {st : Store}

namespace Snapshot

/-- Where the file is that the copy has made or emptied by the time source and destination are
open. -/
def opens (env : Env) (x : Snapshot) (st : Store) : Option ShadowPlace :=
  if x.φ.alloc || !x.kind.copies || x.φ.copy.cred || x.φ.copy.openSrc.isSome ||
      x.φ.copy.openDst.isSome || (st.openCreate env x.path).isSome then none
  else some (shadowPlace env x.path)

/-- The same, in a shadow directory. -/
def opensShadow (env : Env) (x : Snapshot) (st : Store) : Option (Fid × CStr) :=
  match x.opens env st with
  | some (.inside r base) => some (r, base)
  | _ => none

/-- What that file holds in the end. -/
def leftover (x : Snapshot) : Content :=
  if x.φ.copy.kmalloc then [] else (copyAll x.φ.copy.io x.inode.data).2

/-- The content could be saved, or the kind of the version does without. -/
def Saved (env : Env) (x : Snapshot) (st : Store) : Prop :=
  (x.copy env st).1 = none ∨ x.kind.needsCopy = false

instance (env : Env) (x : Snapshot) (st : Store) : Decidable (x.Saved env st) :=
  inferInstanceAs (Decidable (_ ∨ _))

/-- A version is allocated, not dropped after the copy, and has or gets a record to go into. -/
def Enters (env : Env) (x : Snapshot) (st : Store) : Prop :=
  x.φ.alloc = false ∧ x.Saved env st ∧
    (x.φ.info = false ∨ (findInfo (st.table (env.hash x.inode.ino)) x.inode.ino).isSome)

instance (env : Env) (x : Snapshot) (st : Store) : Decidable (x.Enters env st) :=
  inferInstanceAs (Decidable (_ ∧ _ ∧ (_ ∨ _)))

/-- The version that enters holds the content. -/
def enteredCopied (env : Env) (x : Snapshot) (st : Store) : Bool :=
  x.kind.copies && (x.copy env st).1.isNone

variable {x : Snapshot}

lemma opens_eq_some {p : ShadowPlace} :
    x.opens env st = some p ↔
      (x.φ.alloc = false ∧ x.kind.copies = true ∧ CopyOpens env st.takeNode x.path x.φ.copy) ∧
        p = shadowPlace env x.path := by
  have htarget : st.takeNode.openCreate env x.path = st.openCreate env x.path := rfl
  unfold opens
  split
  · next hfail =>
    simp only [Bool.or_eq_true, Option.isSome_iff_ne_none, Bool.not_eq_true'] at hfail
    refine iff_of_false (by simp) ?_
    rintro ⟨⟨halloc, hcopies, hopens⟩, -⟩
    rw [halloc, hcopies, hopens.cred, hopens.openSrc, hopens.openDst, ← htarget,
      hopens.target] at hfail
    simp at hfail
  · next hok =>
    simp only [Bool.or_eq_true, not_or, Bool.not_eq_true, Option.isSome_eq_false_iff,
      Option.isNone_iff_eq_none] at hok
    obtain ⟨⟨⟨⟨⟨halloc, hcopies⟩, hcred⟩, hsrc⟩, hdst⟩, hopen⟩ := hok
    have hopens : CopyOpens env st.takeNode x.path x.φ.copy :=
      ⟨hcred, hsrc, hdst, htarget.trans hopen⟩
    have hcopies' : x.kind.copies = true := by simpa using hcopies
    simp [halloc, hcopies', hopens, eq_comm]

lemma opensShadow_eq_some {r : Fid} {base : CStr} :
    x.opensShadow env st = some (r, base) ↔ x.opens env st = some (.inside r base) := by
  unfold opensShadow
  rcases x.opens env st with _ | _ | _ <;> simp

/-- A file opened in a shadow directory. -/
lemma opens_spec {r : Fid} {base : CStr} (h : x.opens env st = some (.inside r base)) :
    x.φ.alloc = false ∧ x.kind.copies = true ∧ locate env x.path = some (r, base) ∧
      (st.shadow r).isSome := by
  obtain ⟨⟨halloc, hcopies, hopens⟩, hplace⟩ := opens_eq_some.1 h
  exact ⟨halloc, hcopies, shadowPlace_eq_inside.1 hplace.symm,
    isSome_of_openCreate hopens.target hplace.symm⟩

/-- The store after the copy. -/
lemma copy_store (halloc : x.φ.alloc = false) :
    (x.copy env st).2 =
      match x.opens env st with
      | none => st.takeNode
      | some p => st.takeNode.put x.leftover p := by
  rcases hp : x.opens env st with _ | p
  · unfold copy
    cases hc : x.kind.copies with
    | false => rfl
    | true =>
      have hno : ¬ CopyOpens env st.takeNode x.path x.φ.copy := by
        intro hopens
        rw [opens_eq_some.2 ⟨⟨halloc, hc, hopens⟩, rfl⟩] at hp
        cases hp
      obtain ⟨e, he⟩ := copy_of_not_opens hno x.inode.data
      rw [if_pos rfl, he]
  · obtain ⟨⟨-, hc, hopens⟩, rfl⟩ := opens_eq_some.1 hp
    unfold copy leftover
    rw [if_pos hc, copy_of_opens hopens]
    cases x.φ.copy.kmalloc <;> rfl

/-- The files the copy leaves. -/
lemma fileIn_copy (halloc : x.φ.alloc = false) (p : ShadowPlace) :
    (x.copy env st).2.fileIn p =
      if x.opens env st = some p then some x.leftover else st.fileIn p := by
  rw [copy_store halloc]
  rcases hq : x.opens env st with _ | q
  · rfl
  · by_cases hp : q = p
    · subst hp
      rw [if_pos rfl]
      refine fileIn_put_self fun r base hplace => ?_
      subst hplace
      exact (opens_spec hq).2.2.2
    · rw [if_neg fun he => hp (Option.some.inj he)]
      exact fileIn_put_of_ne (Ne.symm hp)

/-- The error of a copy that has opened both files. -/
lemma copy_fst {p : ShadowPlace} (hp : x.opens env st = some p) :
    (x.copy env st).1 =
      if x.φ.copy.kmalloc then some .enomem else (copyAll x.φ.copy.io x.inode.data).1 := by
  obtain ⟨⟨-, hc, hopens⟩, -⟩ := opens_eq_some.1 hp
  unfold copy
  rw [if_pos hc, copy_of_opens hopens]
  cases x.φ.copy.kmalloc <;> rfl

/-- What a copy that reports success leaves in the shadow file. -/
lemma shadowAt_copied (hc : x.kind.copies = true) (h : (x.copy env st).1 = none) :
    (x.copy env st).2.shadowAt env x.path =
      some (copyAll x.φ.copy.io x.inode.data).2 := by
  unfold copy at h ⊢
  rw [if_pos hc] at h ⊢
  rcases hcopy : shadowCopyFile env st.takeNode x.inode.data x.path x.φ.copy with ⟨err, st₁⟩
  rw [hcopy] at h
  rcases shadowCopyFile_cases hcopy with ⟨-, hno⟩ | ⟨c, hopen, rfl, hall⟩
  · exact absurd h hno
  · rw [hall h]
    exact shadowAt_put_self hopen c

/-- The insertion succeeds when there is a record or memory for one. -/
lemma versionAdd_isSome_iff {t : VersionsHtable} {ino : UInt64} {v : CowVersion} {nomem : Bool} :
    (versionAdd env.hash t ino v nomem).isSome ↔
      nomem = false ∨ (findInfo (t (env.hash ino)) ino).isSome := by
  unfold versionAdd findOrCreateInodeInfo
  cases findInfo (t (env.hash ino)) ino <;> cases nomem <;> simp

lemma copy_table (x : Snapshot) : (x.copy env st).2.table = st.table := by
  rcases hcopy : x.copy env st with ⟨err, st₁⟩
  exact (copy_cases hcopy).same.table

/-- A snapshot whose version does not enter leaves the store of its copy. -/
lemma take_of_not_enters (h : ¬ x.Enters env st) :
    x.take env st = if x.φ.alloc then st else (x.copy env st).2 := by
  rw [take_eq]
  cases halloc : x.φ.alloc with
  | true => rfl
  | false =>
    simp only [Bool.false_eq_true, if_false]
    have hinfo : x.Saved env st → ∀ v,
        versionAdd env.hash (x.copy env st).2.table x.inode.ino v x.φ.info = none := by
      intro hsaved v
      rw [copy_table, ← Option.not_isSome_iff_eq_none, versionAdd_isSome_iff]
      exact fun hroom => h ⟨halloc, hsaved, hroom⟩
    rcases hcopy : x.copy env st with ⟨_ | e, st₁⟩
    · have hsaved : x.Saved env st := .inl (by rw [hcopy])
      have hnone := hinfo hsaved
      rw [hcopy] at hnone
      simp only [Store.versionAdd, hnone]
    · cases hneeds : x.kind.needsCopy with
      | true => simp
      | false =>
        have hnone := hinfo (.inr hneeds)
        rw [hcopy] at hnone
        simp [Store.versionAdd, hnone]

/-- A snapshot whose version enters pushes it and releases the overflow. -/
lemma take_of_enters (hinv : TableInv env.hash st.table) (h : x.Enters env st) :
    ∃ t, x.take env st = versionsFree { (x.copy env st).2 with table := t }
        ((x.version st.nextNode (x.enteredCopied env st) ::
          tableView env.hash st.table x.inode.ino).drop maxVersions) x.φ.remove ∧
      tableView env.hash t = push maxVersions x.inode.ino
        (x.version st.nextNode (x.enteredCopied env st)) (tableView env.hash st.table) := by
  obtain ⟨halloc, hsaved, hroom⟩ := h
  have hadd := versionAdd_isSome_iff (v := x.version st.nextNode (x.enteredCopied env st)).2 hroom
  obtain ⟨⟨t, oldest⟩, hadd⟩ := Option.isSome_iff_exists.1 hadd
  obtain ⟨-, hview, hold⟩ := versionAdd_spec hinv hadd
  refine ⟨t, ?_, hview⟩
  rw [take_eq, halloc, if_neg Bool.false_ne_true, ← hold]
  have htable : (x.copy env st).2.table = st.table := x.copy_table
  rcases hcopy : x.copy env st with ⟨_ | e, st₁⟩
  · replace htable : st₁.table = st.table := by rwa [hcopy] at htable
    have hc : x.enteredCopied env st = x.kind.copies := by simp [enteredCopied, hcopy]
    rw [hc] at hadd
    simp only [Store.versionAdd, htable, hadd]
  · replace htable : st₁.table = st.table := by rwa [hcopy] at htable
    have hneeds : x.kind.needsCopy = false := by
      rcases hsaved with hno | hneeds
      · rw [hcopy] at hno
        cases hno
      · exact hneeds
    have hc : x.enteredCopied env st = false := by simp [enteredCopied, hcopy]
    rw [hc] at hadd
    simp only [hneeds, Bool.false_eq_true, if_false, Store.versionAdd, htable, hadd]

lemma table_of_not_enters (h : ¬ x.Enters env st) : (x.take env st).table = st.table := by
  rw [x.take_of_not_enters h]
  split
  · rfl
  · exact x.copy_table

lemma table_of_enters (hinv : TableInv env.hash st.table) (h : x.Enters env st) :
    tableView env.hash (x.take env st).table =
      push maxVersions x.inode.ino (x.version st.nextNode (x.enteredCopied env st))
        (tableView env.hash st.table) := by
  obtain ⟨t, htake, hview⟩ := x.take_of_enters hinv h
  rw [htake, (versionsFree_same _ _ _).table]
  exact hview

end Snapshot

section Step

variable {s : State} {op : Op} {x : Snapshot}

/-- The versions after a call whose snapshot does not enter. -/
lemma versions_of_not_enters (hx : snapshotOf s op = some x) (h : ¬ x.Enters env s.store) :
    (step env s op).versions env = s.versions env := by
  rw [State.versions, step_store_of_snapshot hx, x.table_of_not_enters h]
  rfl

/-- The versions after a call whose snapshot enters. -/
lemma versions_of_enters (hinv : TableInv env.hash s.store.table) (hx : snapshotOf s op = some x)
    (h : x.Enters env s.store) :
    (step env s op).versions env = push maxVersions x.inode.ino
      (x.version s.store.nextNode (x.enteredCopied env s.store)) (s.versions env) := by
  rw [State.versions, step_store_of_snapshot hx, x.table_of_enters hinv h]
  rfl

end Step

end Cowfs
