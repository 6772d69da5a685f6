import Cowfs.Construction.Paths
import Cowfs.Properties.SnapshotOutcome

/-!
# Shadow files without a version

A shadow file is made before its version enters the table and removed after the version has left
it, by functions whose results nobody looks at.  `Accounted` says that every file there was made
by a snapshot whose version is in the table, or has been there since before the run.  A step
keeps it when it is `Tidied`: a snapshot that makes a new file goes on to save the content and to
insert the version, and a version that leaves has its file removed.

The second needs the cached shadow directory, which is there only while the tree is mounted.
-/

namespace Cowfs

open KeyedLog

variable {env : Env}

/-! ## Versions that leave the table -/

/-- The versions a step takes out of the table. -/
def leaving (env : Env) (s : State) : Op → List CowVersion
  | .gc now windowSeconds _ =>
    (allVersions s.store.table).filter (expired (gcCutoff now windowSeconds))
  | op =>
    match snapshotOf s op with
    | none => []
    | some x =>
      if x.Enters env s.store then (s.versions env x.inode.ino).drop (maxVersions - 1) else []

/-- The removals of shadow files that fail in a step. -/
def Op.removeFails : Op → ℕ → Bool
  | .gc _ _ fail => fail
  | op => match op.faults with
    | none => fun _ => false
    | some φ => φ.remove

/-- A snapshot that makes a file saves the content and finds a record for its version. -/
def Settled (env : Env) (s : State) (op : Op) : Prop :=
  ∀ x ∈ snapshotOf s op, ∀ p ∈ x.opensShadow env s.store, s.store.fileAt p.1 p.2 = none →
    x.φ.copy.kmalloc = false ∧ (copyAll x.φ.copy.io x.inode.data).1 = none ∧
      (x.φ.info = false ∨
        (findInfo (s.store.table (env.hash x.inode.ino)) x.inode.ino).isSome)

/-- The shadow file of a version that leaves is removed: its directory is the cached one. -/
def Removed (env : Env) (s : State) (op : Op) : Prop :=
  ∀ v ∈ leaving env s op, v.hasData = true → ∀ p ∈ locate env v.shadowPath,
    s.store.fileAt p.1 p.2 ≠ none →
      s.store.dirpath = some p.1 ∧ op.removeFails v.node = false

def Tidied (env : Env) (s : State) (op : Op) : Prop := Settled env s op ∧ Removed env s op

instance (s : State) (op : Op) : Decidable (Settled env s op) :=
  inferInstanceAs (Decidable (∀ x ∈ snapshotOf s op, ∀ p ∈ x.opensShadow env s.store,
    s.store.fileAt p.1 p.2 = none → x.φ.copy.kmalloc = false ∧
      (copyAll x.φ.copy.io x.inode.data).1 = none ∧ (x.φ.info = false ∨ _)))

instance (s : State) (op : Op) : Decidable (Removed env s op) :=
  inferInstanceAs (Decidable (∀ v ∈ leaving env s op, v.hasData = true →
    ∀ p ∈ locate env v.shadowPath, s.store.fileAt p.1 p.2 ≠ none → _ ∧ _))

instance (s : State) (op : Op) : Decidable (Tidied env s op) :=
  inferInstanceAs (Decidable (_ ∧ _))

/-! ## Releasing a list of versions -/

/-- A release makes no file. -/
lemma fileAt_versionsFree_none {st : Store} {freed : List CowVersion} {fail : ℕ → Bool} {r : Fid}
    {base : CStr} (h : st.fileAt r base = none) :
    (versionsFree st freed fail).fileAt r base = none := by
  cases hafter : (versionsFree st freed fail).fileAt r base with
  | none => rfl
  | some c =>
    rw [fileAt_of_versionsFree hafter] at h
    cases h

/-- A file stays that is not the one of a released version, or whose removal fails. -/
lemma fileAt_versionsFree_kept {st : Store} {freed : List CowVersion} {fail : ℕ → Bool} {r : Fid}
    {base : CStr} (h : ∀ v ∈ freed, fail v.node = false → st.victim v ≠ some (r, base)) :
    (versionsFree st freed fail).fileAt r base = st.fileAt r base := by
  induction freed generalizing st with
  | nil => rfl
  | cons v freed ih =>
    have hrest : ∀ w ∈ freed, fail w.node = false →
        (versionFree st v (fail v.node)).victim w ≠ some (r, base) := by
      intro w hw hfail
      rw [(versionFree_same _ _ _).victim]
      exact h w (List.mem_cons_of_mem v hw) hfail
    refine (ih hrest).trans ?_
    rw [fileAt_versionFree_eq]
    cases hfail : fail v.node with
    | true => simp
    | false => rw [if_neg (by simpa using h v List.mem_cons_self hfail)]

/-- The file of a released version is gone, unless its removal fails. -/
lemma fileAt_versionsFree_victim {st : Store} {freed : List CowVersion} {fail : ℕ → Bool}
    {v : CowVersion} {r : Fid} {base : CStr} (hv : v ∈ freed)
    (hvictim : st.victim v = some (r, base)) (hfail : fail v.node = false) :
    (versionsFree st freed fail).fileAt r base = none := by
  induction freed generalizing st with
  | nil => cases hv
  | cons w freed ih =>
    rcases List.mem_cons.1 hv with rfl | hv'
    · show (versionsFree (versionFree st v (fail v.node)) freed fail).fileAt r base = none
      apply fileAt_versionsFree_none
      rw [fileAt_versionFree_eq, hfail, hvictim]
      simp
    · apply ih hv'
      rw [(versionFree_same _ _ _).victim]
      exact hvictim

/-! ## The invariant -/

/-- The file belongs to a version in the table. -/
def Owned (env : Env) (s : State) (r : Fid) (base : CStr) : Prop :=
  ∃ ino v, v ∈ s.versions env ino ∧ v.hasData = true ∧
    locate env v.shadowPath = some (r, base)

/-- The file was there in every state of the run. -/
def AlwaysThere (env : Env) (s₀ : State) (past : List Op) (r : Fid) (base : CStr) : Prop :=
  ∀ pre post, past = pre ++ post → (run (step env) s₀ pre).store.fileAt r base ≠ none

structure Accounted (env : Env) (s₀ : State) (past : List Op) (s : State) : Prop where
  store : StoreInv env s.store
  files : ∀ r base, s.store.fileAt r base ≠ none →
    AlwaysThere env s₀ past r base ∨ Owned env s r base

section Step

variable {s₀ s : State} {past : List Op} {op : Op}

lemma AlwaysThere.concat {r : Fid} {base : CStr} (h : AlwaysThere env s₀ past r base)
    (hs : s = run (step env) s₀ past) (hfile : (step env s op).store.fileAt r base ≠ none) :
    AlwaysThere env s₀ (past ++ [op]) r base := by
  intro pre post hsplit
  rcases List.eq_nil_or_concat post with rfl | ⟨post', a, rfl⟩
  · rw [List.append_nil] at hsplit
    rw [← hsplit, run_concat, ← hs]
    exact hfile
  · rw [List.concat_eq_append, ← List.append_assoc] at hsplit
    exact h pre post' (List.append_inj' hsplit rfl).1

/-- What is to be shown of one file: it was there and is taken over, or its version stays. -/
lemma Accounted.of_before (h : Accounted env s₀ past s) (hs : s = run (step env) s₀ past)
    {r : Fid} {base : CStr} (hbefore : s.store.fileAt r base ≠ none)
    (hafter : (step env s op).store.fileAt r base ≠ none)
    (hstays : ∀ ino v, v ∈ s.versions env ino → v.hasData = true →
      locate env v.shadowPath = some (r, base) → v ∈ (step env s op).versions env ino) :
    AlwaysThere env s₀ (past ++ [op]) r base ∨ Owned env (step env s op) r base := by
  rcases h.files r base hbefore with halways | ⟨ino, v, hv, hd, hloc⟩
  · exact .inl (halways.concat hs hafter)
  · exact .inr ⟨ino, v, hstays ino v hv hd hloc, hd, hloc⟩

/-- A version whose file is there after the step has not left. -/
lemma victim_of_leaving {v : CowVersion} {r : Fid} {base : CStr} (hremoved : Removed env s op)
    (hv : v ∈ leaving env s op) (hd : v.hasData = true)
    (hloc : locate env v.shadowPath = some (r, base)) (hfile : s.store.fileAt r base ≠ none) :
    s.store.victim v = some (r, base) ∧ op.removeFails v.node = false := by
  obtain ⟨hdir, hfail⟩ := hremoved v hv hd (r, base) hloc hfile
  refine ⟨?_, hfail⟩
  rw [Store.victim, if_pos hd, hdir, shadowBase_of_locate hloc]
  rfl

/-! ## The step of a snapshot -/

variable {x : Snapshot} {r : Fid} {base : CStr}

lemma leaving_of_snapshot (hx : snapshotOf s op = some x) :
    leaving env s op =
      if x.Enters env s.store then (s.versions env x.inode.ino).drop (maxVersions - 1)
      else [] := by
  cases op with
  | gc => cases hx
  | _ => simp only [leaving, hx]

lemma removeFails_of_snapshot (hx : snapshotOf s op = some x) : op.removeFails = x.φ.remove := by
  have hφ := (snapshotOf_spec hx).2.2
  cases op with
  | gc => cases hx
  | _ => simp only [Op.removeFails, hφ]

/-- A file that is there only after the copy is the one the copy opened. -/
lemma opens_of_made {st : Store} (halloc : x.φ.alloc = false) (hbefore : st.fileAt r base = none)
    (hafter : (x.copy env st).2.fileAt r base ≠ none) :
    x.opens env st = some (.inside r base) := by
  rw [Snapshot.copy_store halloc] at hafter
  cases hopens : x.opens env st with
  | none =>
    rw [hopens] at hafter
    exact absurd hbefore hafter
  | some p =>
    rw [hopens] at hafter
    by_contra hne
    have hp : p ≠ .inside r base := fun he => hne (by rw [he])
    have hsame : (st.takeNode.put x.leftover p).fileAt r base = st.takeNode.fileAt r base :=
      fileAt_put_of_ne hp
    exact hafter (hsame.trans hbefore)

/-- A settled snapshot that opens a new file saves the content. -/
lemma Settled.copied (h : Settled env s op) (hx : snapshotOf s op = some x)
    (hopens : x.opens env s.store = some (.inside r base))
    (hbefore : s.store.fileAt r base = none) :
    (x.copy env s.store).1 = none ∧ x.Enters env s.store := by
  obtain ⟨hkmalloc, hall, hroom⟩ :=
    h x hx (r, base) (Snapshot.opensShadow_eq_some.2 hopens) hbefore
  have hcopy : (x.copy env s.store).1 = none := by
    rw [Snapshot.copy_fst hopens, hkmalloc, hall]
    rfl
  exact ⟨hcopy, (Snapshot.opens_spec hopens).1, .inl hcopy, hroom⟩

lemma Accounted.not_entered (h : Accounted env s₀ past s) (hs : s = run (step env) s₀ past)
    (hx : snapshotOf s op = some x) (hsettled : Settled env s op)
    (henters : ¬ x.Enters env s.store) (hafter : (step env s op).store.fileAt r base ≠ none) :
    AlwaysThere env s₀ (past ++ [op]) r base ∨ Owned env (step env s op) r base := by
  have hstore : (step env s op).store =
      if x.φ.alloc then s.store else (x.copy env s.store).2 :=
    (step_store_of_snapshot hx).trans (Snapshot.take_of_not_enters henters)
  have hversions := versions_of_not_enters hx henters
  have hbefore : s.store.fileAt r base ≠ none := by
    intro hnone
    cases halloc : x.φ.alloc with
    | true =>
      rw [hstore, halloc] at hafter
      exact hafter hnone
    | false =>
      rw [hstore, halloc] at hafter
      exact henters (hsettled.copied hx (opens_of_made halloc hnone hafter) hnone).2
  apply h.of_before hs hbefore hafter
  intro ino v hv _ _
  rw [hversions]
  exact hv

lemma Accounted.entered (h : Accounted env s₀ past s) (hs : s = run (step env) s₀ past)
    (hx : snapshotOf s op = some x) (htidied : Tidied env s op)
    (henters : x.Enters env s.store) (hafter : (step env s op).store.fileAt r base ≠ none) :
    AlwaysThere env s₀ (past ++ [op]) r base ∨ Owned env (step env s op) r base := by
  obtain ⟨t, htake, -⟩ := Snapshot.take_of_enters h.store.table henters
  have hstore := (step_store_of_snapshot (s := s) hx).trans htake
  have hversions := versions_of_enters h.store.table hx henters
  by_cases hbefore : s.store.fileAt r base = none
  · -- the file just made is that of the version just inserted
    right
    have hmade : (x.copy env s.store).2.fileAt r base ≠ none := by
      intro hnone
      have hnone' : Store.fileAt { (x.copy env s.store).2 with table := t } r base = none := hnone
      rw [hstore, fileAt_versionsFree_none hnone'] at hafter
      exact hafter rfl
    have hopens := opens_of_made henters.1 hbefore hmade
    have hcopied := (htidied.1.copied hx hopens hbefore).1
    obtain ⟨-, hcopies, hloc, -⟩ := Snapshot.opens_spec hopens
    have hentered : x.enteredCopied env s.store = true := by
      rw [Snapshot.enteredCopied, hcopied, hcopies]
      rfl
    refine ⟨x.inode.ino, x.version s.store.nextNode true, ?_, rfl, ?_⟩
    · rw [hversions, hentered, push_self, maxVersions, List.take_succ_cons]
      exact List.mem_cons_self
    · rw [x.version_shadowPath]
      exact hloc
  · apply h.of_before hs hbefore hafter
    intro ino v hv hd hloc
    rw [hversions]
    by_cases hino : ino = x.inode.ino
    · subst hino
      rw [push_self, maxVersions, List.take_succ_cons]
      rw [← List.take_append_drop 63 (s.versions env x.inode.ino), List.mem_append] at hv
      rcases hv with hv | hv
      · exact List.mem_cons_of_mem _ hv
      -- the file of a version pushed out is removed
      have hleaving : v ∈ leaving env s op := by
        rw [leaving_of_snapshot hx, if_pos henters]
        exact hv
      obtain ⟨hvictim, hfail⟩ := victim_of_leaving htidied.2 hleaving hd hloc hbefore
      rw [removeFails_of_snapshot hx] at hfail
      have hcopy : SameBut s.store.takeNode (x.copy env s.store).2 :=
        (Snapshot.copy_cases rfl).same
      have hvictim' : Store.victim { (x.copy env s.store).2 with table := t } v =
          some (r, base) := (hcopy.victim v).trans hvictim
      refine absurd ?_ hafter
      rw [hstore]
      refine fileAt_versionsFree_victim ?_ hvictim' hfail
      rw [maxVersions, List.drop_succ_cons]
      exact hv
    · rw [push_of_ne hino]
      exact hv

/-! ## Every step -/

lemma Accounted.collected (h : Accounted env s₀ past s) (hs : s = run (step env) s₀ past)
    {now windowSeconds : UInt64} {fail : ℕ → Bool}
    (hremoved : Removed env s (.gc now windowSeconds fail))
    (hafter : (step env s (.gc now windowSeconds fail)).store.fileAt r base ≠ none) :
    AlwaysThere env s₀ (past ++ [.gc now windowSeconds fail]) r base ∨
      Owned env (step env s (.gc now windowSeconds fail)) r base := by
  obtain ⟨t, freed, hgc, hst⟩ := versionGc_store s.store now windowSeconds fail
  have hstore : (step env s (.gc now windowSeconds fail)).store =
      versionsFree { s.store with table := t } freed fail := by
    rw [step_gc, ← hst]
  have hbefore : s.store.fileAt r base ≠ none := by
    intro hnone
    have hnone' : Store.fileAt { s.store with table := t } r base = none := hnone
    rw [hstore, fileAt_versionsFree_none hnone'] at hafter
    exact hafter rfl
  apply h.of_before hs hbefore hafter
  intro ino v hv hd hloc
  have hview : (step env s (.gc now windowSeconds fail)).versions env =
      prune (fun v => !expired (gcCutoff now windowSeconds) v) (s.versions env) := by
    have hgcview : tableView env.hash (versionGc s.store.table now windowSeconds).1 = _ :=
      versionGc_view s.store.table now windowSeconds
    rw [hgc] at hgcview
    unfold State.versions
    rw [hstore, (versionsFree_same _ _ _).table]
    exact hgcview
  rw [hview, prune_apply, List.mem_filter]
  refine ⟨hv, ?_⟩
  by_contra hexp
  have hexp' : expired (gcCutoff now windowSeconds) v = true := by simpa using hexp
  have hleaving : v ∈ leaving env s (.gc now windowSeconds fail) :=
    List.mem_filter.2 ⟨h.store.table.mem_allVersions.2 ⟨ino, hv⟩, hexp'⟩
  obtain ⟨hvictim, hfail⟩ := victim_of_leaving hremoved hleaving hd hloc hbefore
  have hfreed : v ∈ freed := by
    have hmem := (mem_versionGc_freed h.store.table).2 ⟨⟨ino, hv⟩, hexp'⟩
    rwa [hgc] at hmem
  refine absurd ?_ hafter
  rw [hstore]
  exact fileAt_versionsFree_victim hfreed hvictim hfail

/-- **One tidied step accounts for every file.** -/
theorem accounted_concat (h : Accounted env s₀ past s) (hs : s = run (step env) s₀ past)
    (htidied : Tidied env s op) : Accounted env s₀ (past ++ [op]) (step env s op) where
  store := h.store.step op
  files := by
    intro r base hafter
    cases hx : snapshotOf s op with
    | some x =>
      by_cases henters : x.Enters env s.store
      · exact h.entered hs hx htidied henters hafter
      · exact h.not_entered hs hx htidied.1 henters hafter
    | none =>
      have hsame : (step env s op).store.fileAt r base = s.store.fileAt r base →
          (step env s op).store.table = s.store.table →
          AlwaysThere env s₀ (past ++ [op]) r base ∨ Owned env (step env s op) r base := by
        intro hfile htable
        apply h.of_before hs (hfile ▸ hafter) hafter
        intro ino v hv _ _
        unfold State.versions
        rw [htable]
        exact hv
      have hstep := step_store env s op
      generalize hst : (step env s op).store = st' at hstep
      cases hstep with
      | same => exact hsame (by rw [hst]) (by rw [hst])
      | mounted => exact hsame (by rw [hst, fileAt_shadowInit]) (by rw [hst, shadowInit_table])
      | unmounted =>
        refine hsame ?_ (by rw [hst])
        rw [hst]
        rfl
      | snapshot hx' =>
        rw [hx] at hx'
        cases hx'
      | collected now windowSeconds fail hop =>
        subst hop
        exact h.collected hs htidied.2 hafter

end Step

/-! ## Runs -/

lemma accounted_init (env : Env) (l : Lower) (shadow : Fid → Option ShadowFiles) :
    Accounted env (State.init l shadow) [] (State.init l shadow) where
  store := storeInv_init env shadow
  files r base hfile := by
    left
    intro pre post hsplit
    obtain ⟨rfl, -⟩ := List.append_eq_nil_iff.1 hsplit.symm
    exact hfile

/-- **No orphans.**  In a run whose steps are all tidied, every shadow file the run has made, one
that is there and in some earlier state was not, is the shadow file of a version in the table. -/
theorem no_orphans_run (env : Env) (l : Lower) (shadow : Fid → Option ShadowFiles)
    (ops : List Op) (htidied : Along (step env) (Tidied env) (State.init l shadow) ops) :
    ∀ r base, (run (step env) (State.init l shadow) ops).store.fileAt r base ≠ none →
      (∃ past post, ops = past ++ post ∧
        (run (step env) (State.init l shadow) past).store.fileAt r base = none) →
      Owned env (run (step env) (State.init l shadow) ops) r base := by
  have h : Accounted env (State.init l shadow) ops (run (step env) (State.init l shadow) ops) := by
    refine prefix_run (accounted_init env l shadow) ?_
    rintro past op post rfl h
    exact accounted_concat h rfl htidied.at
  intro r base hfile ⟨past, post, hsplit, hmade⟩
  rcases h.files r base hfile with halways | howned
  · exact absurd hmade (halways past post hsplit)
  · exact howned

/-! ## Two runs on a small tree -/

/-- A file is made, written, written again in a second session, and removed; the collector drops
the version of the first write. -/
def tidyOps : List Op :=
  [.mount ['/', 'l'] none none, .make sIFREG 1 ['x'] 0x1A4#16 ⟨0, 0, 0⟩ 10 1 none,
    .open 0 4 true none, .write 0 0 [1, 2] 1000 .clean none, .release 0,
    .open 0 4 true none, .write 0 0 [3] 2000 .clean none, .release 0,
    .unlink 1 ['x'] 3000 .clean none, .gc 2000 0 fun _ => false]

/-- The file of the removal is there and is owned. -/
theorem no_orphans_run_tidy :
    Owned smallEnv (run (step smallEnv) (State.init smallTree fun _ => none) tidyOps) 1
      (decimalPair 10 3000) := by
  refine no_orphans_run smallEnv smallTree (fun _ => none) tidyOps (by decide +kernel) 1
    (decimalPair 10 3000) (by decide +kernel) ⟨[], tidyOps, rfl, ?_⟩
  rfl

/-- The disk is full when the content of the removed file is copied. -/
def fullDisk : SnapFaults :=
  { SnapFaults.clean with
    copy := { CopyFaults.clean with io := fun _ => ⟨.ok copyBufSize, .error (.other 28)⟩ } }

def orphanOps : List Op :=
  [.mount ['/', 'l'] none none, .make sIFREG 1 ['x'] 0x1A4#16 ⟨0, 0, 0⟩ 10 1 none,
    .open 0 4 true none, .write 0 0 [1, 2] 1000 .clean none, .release 0,
    .unlink 1 ['x'] 3000 fullDisk none]

/-- The version of the removal was dropped, its empty file stays. -/
theorem orphan_left :
    (State.init smallTree fun _ => none).store.fileAt 1 (decimalPair 10 3000) = none ∧
      (run (step smallEnv) (State.init smallTree fun _ => none) orphanOps).store.fileAt 1
        (decimalPair 10 3000) = some [] ∧
      ¬ Owned smallEnv (run (step smallEnv) (State.init smallTree fun _ => none) orphanOps) 1
        (decimalPair 10 3000) := by
  refine ⟨rfl, by decide +kernel, ?_⟩
  rintro ⟨ino, v, hv, -, hloc⟩
  have hinv := storeInv_run smallEnv smallTree (fun _ => none) orphanOps
  have hall : ∀ w ∈ allVersions (run (step smallEnv) (State.init smallTree fun _ => none)
      orphanOps).store.table, locate smallEnv w.shadowPath ≠ some (1, decimalPair 10 3000) := by
    decide +kernel
  exact hall v (hinv.table.mem_allVersions.2 ⟨ino, hv⟩) hloc

end Cowfs
