import Cowfs.Construction.Paths
import Cowfs.Properties.Stamps

/-!
# Shadow files hold what they should

A version with data promises that the file at its `shadow_path` has the content the original
had when the version was taken.  The promise has to survive everything that touches the shadow
directory later: other snapshots, whose copies open their file with `O_TRUNC`; evictions and
passes of the collector, which remove files by base name; failures in the middle of either.

What keeps the files apart is their name, `ino_timestamp` in decimal.  The invariant `Faithful`
therefore carries, besides the promise itself, that the stamps of the versions in the table are
stamps of the past (so a new one is different) and that no two versions of one inode number
share theirs.  It is preserved by every step of a run, whatever it mounts, in which the clock
gives no stamp twice, paths fit their buffer and writes are not cut short.
-/

namespace Cowfs

open KeyedLog

variable {env : Env}

/-! ## The assumption on copies -/

/-- A write to the shadow file that does not fail writes all its bytes. -/
def CopiesFully (s : State) (op : Op) : Prop :=
  ∀ x ∈ snapshotOf s op, FullWrites x.φ.copy.io

/-! ## Files that a snapshot leaves alone -/

lemma Snapshot.Copied.shadowAt_of_ne {x : Snapshot} {st st₁ : Store} {copied : Bool}
    {path : CStr} (h : x.Copied env st copied st₁) (hne : shadowBase path ≠ shadowBase x.path) :
    st₁.shadowAt env path = st.shadowAt env path := by
  cases h with
  | nothing => rfl
  | file => exact shadowAt_put_of_ne hne

/-- A copy that is reported to have succeeded is the whole content. -/
lemma Snapshot.Copied.shadowAt_self {x : Snapshot} {st st₁ : Store}
    (h : x.Copied env st true st₁) (hfull : FullWrites x.φ.copy.io) :
    st₁.shadowAt env x.path = some x.inode.data := by
  cases h with
  | nothing h => cases h
  | file _ hopen hall =>
    rw [← copyAll_of_fullWrites hfull (hall rfl)]
    exact fileIn_put_self fun r base hplace => isSome_of_openCreate hopen hplace

/-! ## The invariant -/

/-- The file of `v`, recorded under `ino`, is there and has the content `v` was taken from. -/
def Kept (env : Env) (s₀ : State) (past : List Op) (st : Store) (ino : UInt64)
    (v : CowVersion) : Prop :=
  ∃ f c, st.shadowAt env v.shadowPath = some c ∧
    Sometime (step env) (fun s op => Records env s op ino v f ∧ s.lower.content f = c) s₀ past

structure Faithful (env : Env) (s₀ : State) (past : List Op) (s : State) : Prop
    extends Stamped env s₀ past s where
  kept : ∀ ino v, v ∈ s.versions env ino → v.hasData = true → Kept env s₀ past s.store ino v

lemma Kept.concat {s₀ : State} {past : List Op} {st st' : Store} {ino : UInt64}
    {v : CowVersion} (h : Kept env s₀ past st ino v) (op : Op)
    (hfile : st'.shadowAt env v.shadowPath = st.shadowAt env v.shadowPath) :
    Kept env s₀ (past ++ [op]) st' ino v := by
  obtain ⟨f, c, hc, hwhen⟩ := h
  exact ⟨f, c, hfile.trans hc, hwhen.concat _ op⟩

section Step

variable {s₀ s : State} {past : List Op} {op : Op}

/-- The copy of a snapshot leaves the files of the versions in the table alone. -/
lemma Stamped.shadowAt_copied (h : Stamped env s₀ past s) {x : Snapshot} {st₁ : Store}
    {copied : Bool} (hclock : (observe (step env) stampOf s₀ past ++ stampOf s op).Nodup)
    (hfit : PathFits s op) (hx : snapshotOf s op = some x) (halloc : x.φ.alloc = false)
    (hcopy : x.Copied env s.store copied st₁) {ino : UInt64} {v : CowVersion}
    (hv : v ∈ s.versions env ino) (hd : v.hasData = true) :
    st₁.shadowAt env v.shadowPath = s.store.shadowAt env v.shadowPath := by
  have hbase : shadowBase x.path = shadowName x.inode.ino x.now := by
    rw [shadowBase, (path_base hx hfit).2]
  apply hcopy.shadowAt_of_ne
  rw [hbase, h.based ino v hv hd]
  intro he
  obtain ⟨hi, ht⟩ := shadowName_injective he
  exact h.stamp_fresh hclock hx halloc hv (by rw [hi, ht])

lemma Faithful.kept_added (h : Faithful env s₀ past s)
    (hs : s = run (step env) s₀ past) {x : Snapshot} {st₁ : Store} {copied : Bool}
    {t : VersionsHtable} {oldest : Option CowVersion}
    (hclock : (observe (step env) stampOf s₀ past ++ stampOf s op).Nodup)
    (hfit : PathFits s op) (hfull : CopiesFully s op) (hx : snapshotOf s op = some x)
    (halloc : x.φ.alloc = false) (hcopy : x.Copied env s.store copied st₁)
    (hadd : versionAdd env.hash s.store.table x.inode.ino (x.version s.store.nextNode copied)
      x.φ.info = some (t, oldest))
    (hstore : (step env s op).store =
      versionsFree { st₁ with table := t } oldest.toList x.φ.remove)
    (ht : Tidy env (step env s op)) :
    ∀ ino v, v ∈ (step env s op).versions env ino → v.hasData = true →
      Kept env s₀ (past ++ [op]) (step env s op).store ino v := by
  intro ino v hv hd
  obtain ⟨-, hview, hold⟩ := versionAdd_spec h.store.table hadd
  have hnd := h.clock_cons hclock hx halloc copied
  have hpush : (step env s op).versions env = push maxVersions x.inode.ino
      (x.version s.store.nextNode copied) (s.versions env) := by
    unfold State.versions
    rw [hstore, (versionsFree_same _ _ _).table]
    exact hview
  have hv' := hv
  rw [hpush] at hv'
  -- the file of a version that stays is not that of the evicted one
  have hsurvive : ∀ r, ∀ o ∈ oldest.toList,
      Store.victim { st₁ with table := t } o ≠ some (r, shadowName ino v.timestamp) := by
    intro r o ho
    rw [hold] at ho
    have hoOld : o ∈ s.versions env x.inode.ino := by
      rw [maxVersions, List.drop_succ_cons] at ho
      exact List.mem_of_mem_drop ho
    intro hvictim
    obtain ⟨hod, hbase⟩ := victim_eq_some hvictim
    rw [h.based _ o hoOld hod] at hbase
    obtain ⟨rfl, ht⟩ := shadowName_injective hbase
    rw [push_self] at hv'
    exact timestamp_ne_of_take_drop hnd hv' ho ht.symm
  have hfree : (step env s op).store.shadowAt env v.shadowPath =
      st₁.shadowAt env v.shadowPath := by
    rw [hstore]
    refine shadowAt_congr (outside_versionsFree _ _ _) fun r => ?_
    rw [ht.based ino v hv hd]
    exact fileAt_versionsFree (hsurvive r)
  rcases mem_push hv' with ⟨rfl, rfl⟩ | hvOld
  · -- the version just recorded
    have hcopied : copied = true := hd
    subst hcopied
    refine ⟨x.file, x.inode.data, ?_, ?_⟩
    · rw [hfree, x.version_shadowPath]
      exact hcopy.shadowAt_self (hfull x hx)
    refine Sometime.last _ ⟨⟨⟨x, ?_, rfl, rfl⟩, ?_, ?_⟩, ?_⟩
    · rw [← hs]
      exact hx
    · rw [← hs]
      intro hmem
      exact h.store.fresh rfl _ ⟨_, hmem⟩ rfl
    · rw [← hs]
      exact hv
    · rw [← hs, Lower.content, (snapshotOf_spec hx).2.1]
      rfl
  · exact (h.kept ino v hvOld hd).concat op
      (hfree.trans (h.shadowAt_copied hclock hfit hx halloc hcopy hvOld hd))

lemma Faithful.kept_collected (h : Faithful env s₀ past s) (now windowSeconds : UInt64)
    (fail : ℕ → Bool) :
    ∀ ino v, v ∈ tableView env.hash (s.store.versionGc now windowSeconds fail).table ino →
      v.hasData = true →
      Kept env s₀ (past ++ [op]) (s.store.versionGc now windowSeconds fail) ino v := by
  intro ino v hv hd
  have hview : tableView env.hash (s.store.versionGc now windowSeconds fail).table =
      prune (fun v => !expired (gcCutoff now windowSeconds) v) (s.versions env) := by
    rw [← versions_gc env s now windowSeconds fail, step_gc]
    rfl
  rw [hview, prune_apply, List.mem_filter] at hv
  obtain ⟨hvOld, hkeep⟩ := hv
  have hkeep' : expired (gcCutoff now windowSeconds) v = false := by simpa using hkeep
  exact (h.kept ino v hvOld hd).concat op (h.shadowAt_gc fail hvOld hd hkeep')

/-- **One step keeps the shadow files faithful.** -/
theorem faithful_concat (h : Faithful env s₀ past s) (hs : s = run (step env) s₀ past)
    (hfit : PathFits s op) (hfull : CopiesFully s op)
    (hclock : (observe (step env) stampOf s₀ past ++ stampOf s op).Nodup) :
    Faithful env s₀ (past ++ [op]) (step env s op) where
  toStamped := h.toStamped.concat hs hfit hclock
  kept := by
    have htidy := (h.toStamped.concat hs hfit hclock).toTidy
    have hstep := step_store env s op
    unfold State.versions
    generalize hst : (step env s op).store = st' at hstep
    cases hstep with
    | same =>
      intro ino v hv hd
      exact (h.kept ino v hv hd).concat op rfl
    | mounted =>
      rw [shadowInit_table]
      intro ino v hv hd
      exact (h.kept ino v hv hd).concat op
        (shadowAt_congr (outside_shadowInit _ _ _) fun r => fileAt_shadowInit _ _ r _ _)
    | unmounted =>
      intro ino v hv hd
      exact (h.kept ino v hv hd).concat op rfl
    | @snapshot x hx =>
      have htaken := x.take_cases env s.store
      generalize htk : x.take env s.store = st' at htaken hst
      cases htaken with
      | unallocated =>
        intro ino v hv hd
        exact (h.kept ino v hv hd).concat op rfl
      | dropped halloc hcopy =>
        rw [hcopy.same.table]
        intro ino v hv hd
        exact (h.kept ino v hv hd).concat op
          (h.shadowAt_copied hclock hfit hx halloc hcopy hv hd)
      | added halloc hcopy hadd =>
        have hkept := h.kept_added hs hclock hfit hfull hx halloc hcopy hadd hst htidy
        unfold State.versions at hkept
        rwa [hst] at hkept
    | collected now windowSeconds fail => exact h.kept_collected now windowSeconds fail

end Step

/-! ## Runs -/

lemma faithful_init (env : Env) (l : Lower) (shadow : Fid → Option ShadowFiles) :
    Faithful env (State.init l shadow) [] (State.init l shadow) where
  toStamped := stamped_init env l shadow
  kept ino v hv := by
    simp [State.versions, State.init, Store.init] at hv

lemma faithful_run {l : Lower} {shadow : Fid → Option ShadowFiles} {ops : List Op}
    (hclock : (observe (step env) stampOf (State.init l shadow) ops).Nodup)
    (hfit : Along (step env) PathFits (State.init l shadow) ops)
    (hfull : Along (step env) CopiesFully (State.init l shadow) ops) :
    Faithful env (State.init l shadow) ops (run (step env) (State.init l shadow) ops) := by
  refine prefix_run (faithful_init env l shadow) ?_
  rintro past op post rfl h
  exact faithful_concat h rfl hfit.at hfull.at (nodup_stamps_at hclock)

/-- **Shadow fidelity.**  After any run of operations, in which any step may fail, every version
in the table that has data has a file at its `shadow_path`, and the content of that file is the
content its original had in the state in which the version was recorded. -/
theorem shadow_fidelity (env : Env) (l : Lower) (shadow : Fid → Option ShadowFiles)
    (ops : List Op) (hclock : (observe (step env) stampOf (State.init l shadow) ops).Nodup)
    (hfit : Along (step env) PathFits (State.init l shadow) ops)
    (hfull : Along (step env) CopiesFully (State.init l shadow) ops) :
    ∀ ino v, v ∈ (run (step env) (State.init l shadow) ops).versions env ino →
      v.hasData = true →
      ∃ f c, (run (step env) (State.init l shadow) ops).store.shadowAt env v.shadowPath =
          some c ∧
        Sometime (step env) (fun s op => Records env s op ino v f ∧ s.lower.content f = c)
          (State.init l shadow) ops := by
  intro ino v hv hd
  have h := faithful_run hclock hfit hfull
  exact h.kept ino v hv hd

/-- Without failures and short writes copies are full. -/
lemma copiesFully_of_clean {op : Op} (h : ∀ φ, op.faults = some φ → φ.copy = CopyFaults.clean)
    (s : State) : CopiesFully s op := by
  intro x hx i m hm
  rw [h x.φ (snapshotOf_spec hx).2.2] at hm
  cases hm
  exact le_rfl

/-- A file is made, written twice through one descriptor, cut and removed; then the collector
drops what is older than the removal. -/
def sampleOps : List Op :=
  [.mount ['/', 'l'] none none, .make sIFREG 1 ['x'] 0x1A4#16 ⟨0, 0, 0⟩ 10 1 none,
    .open 0 4 true none, .write 0 0 [1, 2, 3] 1000 .clean none,
    .write 0 1 [9] 2000 .clean none,
    .setattr 4 { Iattr.zero with iaSize := some 1 } 3000 .clean none,
    .unlink 1 ['x'] 4000 .clean none, .gc 4000 0 fun _ => false]

lemma copiesFully_sampleOps :
    Along (step smallEnv) CopiesFully (State.init smallTree fun _ => none) sampleOps := by
  refine along_of_forall _ (fun op hop s => copiesFully_of_clean ?_ s) _
  intro φ hφ
  simp only [sampleOps, List.mem_cons, List.not_mem_nil, or_false] at hop
  rcases hop with rfl | rfl | rfl | rfl | rfl | rfl | rfl | rfl <;> cases hφ <;> rfl

/-- The removal is the version left, and its file holds the one byte the file had. -/
theorem shadow_fidelity_sample :
    ∃ v ∈ (run (step smallEnv) (State.init smallTree fun _ => none) sampleOps).versions
        smallEnv 10, v.timestamp = 4000 ∧
      ∃ f c, (run (step smallEnv) (State.init smallTree fun _ => none)
          sampleOps).store.shadowAt smallEnv v.shadowPath = some c ∧
        Sometime (step smallEnv)
          (fun s op => Records smallEnv s op 10 v f ∧ s.lower.content f = c)
          (State.init smallTree fun _ => none) sampleOps := by
  have hv : ∃ v ∈ (run (step smallEnv) (State.init smallTree fun _ => none)
      sampleOps).versions smallEnv 10, v.timestamp = 4000 ∧ v.hasData = true := by
    decide +kernel
  obtain ⟨v, hmem, hts, hdata⟩ := hv
  exact ⟨v, hmem, hts, shadow_fidelity smallEnv smallTree (fun _ => none) sampleOps
    (by decide +kernel) (by decide +kernel) copiesFully_sampleOps 10 v
    hmem hdata⟩

end Cowfs
