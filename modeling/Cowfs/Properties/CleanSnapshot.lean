import Cowfs.Properties.SnapshotOutcome

/-!
# A snapshot in which nothing fails

When no allocation, read or shadow write fails, a snapshot inserts its version, unless the kind
needs a copy and the shadow file cannot be opened.  What it does to the shadow files is this: the
file the copy has opened gets what the writes accept, and then the file of the version evicted to
make room, if there is one, is removed.  `take_versions` and `take_fileIn` say so; nothing is
assumed of the clock or of the length of paths, so the file removed may well be the one just
written.

A `Clean` snapshot opens its file as well, and no write to it is short.
-/

namespace Cowfs

open KeyedLog

variable {env : Env} {st : Store}

namespace Snapshot

/-- No allocation, no read and no shadow write of the snapshot fails. -/
structure Unfailing (x : Snapshot) : Prop where
  alloc : x.φ.alloc = false
  info : x.φ.info = false
  kmalloc : x.kind.copies = true → x.φ.copy.kmalloc = false
  io : x.kind.copies = true → Ends x.φ.copy.io x.inode.data

/-- No call of the snapshot fails or falls short. -/
structure Clean (env : Env) (x : Snapshot) (st : Store) : Prop where
  alloc : x.φ.alloc = false
  info : x.φ.info = false
  copy : (x.copy env st).1 = none
  io : x.kind.copies = true → CompleteAll x.φ.copy.io x.inode.data

/-- Without faults it is enough that the copy finds its place. -/
lemma clean_of_faults {x : Snapshot} (h : x.φ = SnapFaults.clean)
    (hcopy : (x.copy env st).1 = none) : x.Clean env st where
  alloc := by
    rw [h]
    rfl
  info := by
    rw [h]
    rfl
  copy := hcopy
  io _ := by
    rw [h]
    exact completeAll_clean x.inode.data

/-- The same for the snapshot of a call. -/
lemma clean_of_call {s : State} {op : Op} (h : op.faults = some SnapFaults.clean)
    (hcopy : ∀ x ∈ snapshotOf s op, (x.copy env s.store).1 = none) :
    ∀ x ∈ snapshotOf s op, x.Clean env s.store := by
  intro x hx
  have hφ := (snapshotOf_spec hx).2.2
  rw [h] at hφ
  exact clean_of_faults (Option.some.inj hφ).symm (hcopy x hx)

/-- Its content can be saved, or its kind does without. -/
def Recorded (env : Env) (x : Snapshot) (st : Store) : Prop :=
  x.kind.needsCopy = true → (x.opens env st).isSome

instance (env : Env) (x : Snapshot) (st : Store) : Decidable (x.Recorded env st) :=
  inferInstanceAs (Decidable (_ → _))

/-- The version an insertion under the snapshot's inode number pushes out. -/
def evicted (env : Env) (x : Snapshot) (st : Store) : Option CowVersion :=
  (tableView env.hash st.table x.inode.ino)[maxVersions - 1]?

/-- The shadow file that goes with the evicted version. -/
def removes (env : Env) (x : Snapshot) (st : Store) : Option ShadowPlace :=
  (x.evicted env st).bind fun o =>
    if x.φ.remove o.node then none else (st.victim o).map fun q => .inside q.1 q.2

variable {x : Snapshot}

/-! ## The copy -/

/-- A copy that is asked for and succeeds has opened its file. -/
lemma opens_of_copied (halloc : x.φ.alloc = false) (hc : x.kind.copies = true)
    (h : (x.copy env st).1 = none) : x.opens env st = some (shadowPlace env x.path) := by
  by_cases hopens : CopyOpens env st.takeNode x.path x.φ.copy
  · exact opens_eq_some.2 ⟨⟨halloc, hc, hopens⟩, rfl⟩
  · obtain ⟨e, he⟩ := copy_of_not_opens hopens x.inode.data
    rw [copy, if_pos hc, he] at h
    cases h

lemma Clean.opens (h : x.Clean env st) (hc : x.kind.copies = true) :
    x.opens env st = some (shadowPlace env x.path) :=
  opens_of_copied h.alloc hc h.copy

lemma Clean.unfailing (h : x.Clean env st) : x.Unfailing := by
  have hret : ∀ hc : x.kind.copies = true, (if x.φ.copy.kmalloc then some Errno.enomem
      else (copyAll x.φ.copy.io x.inode.data).1) = none := fun hc =>
    (copy_fst (h.opens hc)).symm.trans h.copy
  refine ⟨h.alloc, h.info, fun hc => ?_, fun hc => ?_⟩
  · have hnone := hret hc
    split at hnone
    · cases hnone
    · next hk => simpa using hk
  · have hnone := hret hc
    split at hnone
    · cases hnone
    · exact copyAll_success_iff.1 hnone

lemma copies_of_needsCopy (h : x.kind.needsCopy = true) : x.kind.copies = true := by
  cases hk : x.kind with
  | write => rfl
  | unlink name => rfl
  | rename name =>
    rw [hk] at h
    cases h
  | setattr sized =>
    rw [hk] at h
    cases h

lemma Clean.recorded (h : x.Clean env st) : x.Recorded env st := by
  intro hneeds
  rw [h.opens (copies_of_needsCopy hneeds)]
  rfl

lemma Clean.leftover (h : x.Clean env st) (hc : x.kind.copies = true) :
    x.leftover = x.inode.data := by
  rw [Snapshot.leftover, h.unfailing.kmalloc hc, if_neg Bool.false_ne_true]
  exact (copyAll_eq_iff _ _).2 (h.io hc)

/-- The copy succeeds once its file is open. -/
lemma Unfailing.copied_iff (h : x.Unfailing) (hc : x.kind.copies = true) :
    (x.copy env st).1 = none ↔ (x.opens env st).isSome := by
  constructor
  · intro hret
    rw [opens_of_copied h.alloc hc hret]
    rfl
  · intro hopens
    obtain ⟨p, hp⟩ := Option.isSome_iff_exists.1 hopens
    rw [copy_fst hp, h.kmalloc hc, if_neg Bool.false_ne_true]
    exact copyAll_success_iff.2 (h.io hc)

lemma Unfailing.enteredCopied (h : x.Unfailing) :
    x.enteredCopied env st = (x.opens env st).isSome := by
  unfold Snapshot.enteredCopied
  cases hc : x.kind.copies with
  | false =>
    rcases hp : x.opens env st with _ | p
    · rfl
    · have hcopies := (opens_eq_some.1 hp).1.2.1
      rw [hc] at hcopies
      cases hcopies
  | true => rw [Bool.true_and, Bool.eq_iff_iff, Option.isNone_iff_eq_none, h.copied_iff hc]

lemma Unfailing.enters_iff (h : x.Unfailing) : x.Enters env st ↔ x.Recorded env st := by
  have hsaved : x.Saved env st ↔ x.Recorded env st := by
    unfold Saved Recorded
    cases hneeds : x.kind.needsCopy with
    | false => simp
    | true => simp [h.copied_iff (copies_of_needsCopy hneeds)]
  unfold Enters
  rw [hsaved]
  exact ⟨fun henters => henters.2.1, fun hrec => ⟨h.alloc, hrec, .inl h.info⟩⟩

/-! ## The insertion -/

/-- What an insertion drops from the end of the list. -/
lemma drop_eq_evicted (hinv : TableInv env.hash st.table) (v : CowVersion) :
    (v :: tableView env.hash st.table x.inode.ino).drop maxVersions =
      (x.evicted env st).toList := by
  have hsome : (versionAdd env.hash st.table x.inode.ino v false).isSome := versionAdd_isSome rfl
  obtain ⟨⟨t, oldest⟩, hadd⟩ := Option.isSome_iff_exists.1 hsome
  obtain ⟨-, -, hold⟩ := versionAdd_spec hinv hadd
  have hhead := congrArg List.head? hold
  rw [List.head?_drop, maxVersions, List.getElem?_cons_succ] at hhead
  rw [← hold, evicted, maxVersions, ← hhead]
  cases oldest <;> rfl

/-- The versions after a snapshot in which nothing fails. -/
theorem take_versions (hinv : TableInv env.hash st.table) (h : x.Unfailing) :
    tableView env.hash (x.take env st).table =
      if x.Recorded env st then
        push maxVersions x.inode.ino (x.version st.nextNode (x.opens env st).isSome)
          (tableView env.hash st.table)
      else tableView env.hash st.table := by
  split
  · next hrec => rw [x.table_of_enters hinv (h.enters_iff.2 hrec), h.enteredCopied]
  · next hrec => rw [x.table_of_not_enters fun henters => hrec (h.enters_iff.1 henters)]

/-- The files after the release of one version, wherever they are. -/
lemma fileIn_versionFree (v : CowVersion) (fail : Bool) (p : ShadowPlace) :
    (versionFree st v fail).fileIn p =
      if (if fail then none else (st.victim v).map fun q => ShadowPlace.inside q.1 q.2) = some p
      then none else st.fileIn p := by
  cases p with
  | inside r base =>
    refine (fileAt_versionFree_eq v fail r base).trans ?_
    cases fail with
    | true => rfl
    | false => rcases st.victim v with _ | ⟨r', base'⟩ <;> simp <;> rfl
  | outside path =>
    show (versionFree st v fail).outside path = _
    rw [outside_versionFree, if_neg]
    · rfl
    · cases fail <;> simp

/-- **The shadow files after a snapshot in which nothing fails.** -/
theorem take_fileIn (hinv : TableInv env.hash st.table) (h : x.Unfailing) (p : ShadowPlace) :
    (x.take env st).fileIn p =
      if x.Recorded env st ∧ x.removes env st = some p then none
      else if x.opens env st = some p then some x.leftover
      else st.fileIn p := by
  rw [← fileIn_copy h.alloc]
  by_cases hrec : x.Recorded env st
  · obtain ⟨t, htake, -⟩ := x.take_of_enters hinv (h.enters_iff.2 hrec)
    rw [htake, drop_eq_evicted hinv]
    simp only [hrec, true_and, removes]
    cases x.evicted env st with
    | none => rfl
    | some o =>
      have hdirpath : (x.copy env st).2.dirpath = st.dirpath := by
        rcases hcopy : x.copy env st with ⟨err, st₁⟩
        exact (copy_cases hcopy).same.dirpath
      have hvictim : Store.victim { (x.copy env st).2 with table := t } o = st.victim o := by
        unfold Store.victim
        rw [← hdirpath]
      rw [Option.bind_some, ← hvictim]
      exact fileIn_versionFree o _ p
  · rw [x.take_of_not_enters fun henters => hrec (h.enters_iff.1 henters), h.alloc,
      if_neg Bool.false_ne_true, if_neg fun hremoves => hrec hremoves.1]

/-- The versions when no call falls short. -/
theorem Clean.take_versions (h : x.Clean env st) (hinv : TableInv env.hash st.table) :
    tableView env.hash (x.take env st).table =
      push maxVersions x.inode.ino (x.version st.nextNode x.kind.copies)
        (tableView env.hash st.table) := by
  have hentered : (x.opens env st).isSome = x.kind.copies := by
    rw [← h.unfailing.enteredCopied, Snapshot.enteredCopied, h.copy]
    simp
  rw [Snapshot.take_versions hinv h.unfailing, if_pos h.recorded, hentered]

/-- The shadow files when no call falls short. -/
theorem Clean.take_fileIn (h : x.Clean env st) (hinv : TableInv env.hash st.table)
    (p : ShadowPlace) :
    (x.take env st).fileIn p =
      if x.removes env st = some p then none
      else if x.opens env st = some p then some x.inode.data
      else st.fileIn p := by
  rw [Snapshot.take_fileIn hinv h.unfailing]
  simp only [h.recorded, true_and]
  split
  · rfl
  · split
    · next hopens => rw [h.leftover (opens_eq_some.1 hopens).1.2.1]
    · rfl

end Snapshot

end Cowfs
