import Cowfs.Properties.Snapshots

/-!
# Stamps and names

What tells two versions apart is the pair of their inode number and their timestamp, and a shadow
file is named by this pair in decimal.  `Stamped` collects what follows when the clock gives no
stamp twice and paths fit their buffer, whatever is mounted and whatever fails: the stamps of the
versions in the table are stamps of the past, so a new one is different; no two versions of one
inode number share theirs; and the base name of a shadow file is that of its version.
-/

namespace Cowfs

open KeyedLog

variable {env : Env}

/-! ## The assumptions on a run -/

/-- The inode number and the clock value of the version an operation allocates, if it does. -/
def stampOf (s : State) (op : Op) : List (UInt64 × UInt64) :=
  match snapshotOf s op with
  | none => []
  | some x => if x.φ.alloc then [] else [(x.inode.ino, x.now)]

/-- The path of the shadow file fits the buffer of 256 bytes. -/
def PathFits (s : State) (op : Op) : Prop :=
  ∀ x ∈ snapshotOf s op,
    (x.sbi.shadowRoot ++ '/' :: decimalPair x.inode.ino.toNat x.now.toNat).length < pathBufSize

instance (s : State) (op : Op) : Decidable (PathFits s op) :=
  inferInstanceAs (Decidable (∀ x ∈ snapshotOf s op, _))

/-! ## The name of a shadow file -/

/-- The base name of the shadow file of a version taken at `timestamp`. -/
def shadowName (ino timestamp : UInt64) : CStr := decimalPair ino.toNat timestamp.toNat

lemma shadowName_injective {i i' t t' : UInt64} (h : shadowName i t = shadowName i' t') :
    i = i' ∧ t = t' := by
  obtain ⟨hi, ht⟩ := decimalPair_injective h
  exact ⟨UInt64.toNat_inj.1 hi, UInt64.toNat_inj.1 ht⟩

/-- A path that fits its buffer ends in the name of its version. -/
lemma path_base {s : State} {op : Op} {x : Snapshot} (hx : snapshotOf s op = some x)
    (hfit : PathFits s op) : x.path = x.sbi.shadowRoot ++ '/' :: shadowName x.inode.ino x.now ∧
      strrchr '/' x.path = some (x.sbi.shadowRoot, shadowName x.inode.ino x.now) := by
  have hpath : x.path = x.sbi.shadowRoot ++ '/' :: shadowName x.inode.ino x.now :=
    snprintf_of_lt (hfit x hx)
  refine ⟨hpath, ?_⟩
  rw [hpath]
  exact strrchr_append (slash_notMem_decimalPair _ _)

lemma victim_eq_some {st : Store} {o : CowVersion} {r : Fid} {base : CStr}
    (h : st.victim o = some (r, base)) :
    o.hasData = true ∧ shadowBase o.shadowPath = base := by
  unfold Store.victim at h
  split at h
  · next hd =>
    obtain ⟨r', -, hr⟩ := Option.map_eq_some_iff.1 h
    exact ⟨hd, (Prod.mk.inj hr).2⟩
  · cases h

/-- Records with different timestamps: one that stays and one that goes. -/
lemma timestamp_ne_of_take_drop {vs : List CowVersion} {n : ℕ} {v w : CowVersion}
    (hnd : (vs.map CowVersion.timestamp).Nodup) (hv : v ∈ vs.take n) (hw : w ∈ vs.drop n) :
    v.timestamp ≠ w.timestamp := by
  have hdisj : ((vs.map CowVersion.timestamp).take n).Disjoint
      ((vs.map CowVersion.timestamp).drop n) := List.disjoint_take_drop hnd le_rfl
  rw [← List.map_take, ← List.map_drop] at hdisj
  intro he
  exact hdisj (List.mem_map_of_mem hv) (he ▸ List.mem_map_of_mem hw)

/-! ## The invariant -/

/-- The versions of a state can be told apart, and so can their shadow files. -/
structure Tidy (env : Env) (s : State) : Prop where
  store : StoreInv env s.store
  clock : ∀ ino, ((s.versions env ino).map CowVersion.timestamp).Nodup
  based : ∀ ino v, v ∈ s.versions env ino → v.hasData = true →
    shadowBase v.shadowPath = shadowName ino v.timestamp

structure Stamped (env : Env) (s₀ : State) (past : List Op) (s : State) : Prop
    extends Tidy env s where
  stamped : ∀ ino v, v ∈ s.versions env ino →
    (ino, v.timestamp) ∈ observe (step env) stampOf s₀ past

variable {s₀ s : State} {past : List Op} {op : Op}

/-- A version about to be recorded has a stamp none of those in the table has. -/
lemma Stamped.stamp_fresh (h : Stamped env s₀ past s)
    (hclock : (observe (step env) stampOf s₀ past ++ stampOf s op).Nodup) {x : Snapshot}
    (hx : snapshotOf s op = some x) (halloc : x.φ.alloc = false) {ino : UInt64}
    {w : CowVersion} (hw : w ∈ s.versions env ino) : (ino, w.timestamp) ≠ (x.inode.ino, x.now) := by
  have hstamp : stampOf s op = [(x.inode.ino, x.now)] := by
    simp [stampOf, hx, halloc]
  rw [hstamp, List.nodup_append] at hclock
  intro he
  exact hclock.2.2 _ (h.stamped ino w hw) _ List.mem_cons_self he

/-- The stamps of an inode number's list stay distinct with the new version in front. -/
lemma Stamped.clock_cons (h : Stamped env s₀ past s)
    (hclock : (observe (step env) stampOf s₀ past ++ stampOf s op).Nodup) {x : Snapshot}
    (hx : snapshotOf s op = some x) (halloc : x.φ.alloc = false) (copied : Bool) :
    ((x.version s.store.nextNode copied :: s.versions env x.inode.ino).map
      CowVersion.timestamp).Nodup := by
  rw [List.map_cons, List.nodup_cons]
  refine ⟨fun hmem => ?_, h.clock _⟩
  obtain ⟨w, hw, hts⟩ := List.mem_map.1 hmem
  have hne := h.stamp_fresh hclock hx halloc hw
  exact hne (by rw [hts]; rfl)

lemma Stamped.stamped_step (h : Stamped env s₀ past s)
    (hs : s = run (step env) s₀ past) :
    ∀ ino v, v ∈ (step env s op).versions env ino →
      (ino, v.timestamp) ∈ observe (step env) stampOf s₀ (past ++ [op]) := by
  intro ino v hv
  rw [observe_concat, ← hs, List.mem_append]
  have hstep := step_versions h.store.table op
  generalize (step env s op).versions env = m at hv hstep
  cases hstep with
  | same => exact .inl (h.stamped ino v hv)
  | @pushed x copied hx halloc _ =>
    rcases mem_push hv with ⟨rfl, rfl⟩ | hv'
    · right
      simp [stampOf, hx, halloc, Snapshot.version]
    · exact .inl (h.stamped ino v hv')
  | pruned p => exact .inl (h.stamped ino v (List.mem_of_mem_filter hv))

lemma Stamped.clock_step (h : Stamped env s₀ past s)
    (hclock : (observe (step env) stampOf s₀ past ++ stampOf s op).Nodup) (ino : UInt64) :
    (((step env s op).versions env ino).map CowVersion.timestamp).Nodup := by
  have hstep := step_versions h.store.table op
  generalize (step env s op).versions env = m at hstep
  cases hstep with
  | same => exact h.clock ino
  | @pushed x copied hx halloc _ =>
    by_cases hi : ino = x.inode.ino
    · subst hi
      rw [push_self]
      have hnd := h.clock_cons hclock hx halloc copied
      exact hnd.sublist ((List.take_sublist _ _).map _)
    · rw [push_of_ne hi]
      exact h.clock ino
  | pruned p => exact (h.clock ino).sublist (List.filter_sublist.map _)

/-- A collector pass leaves the file of a version it keeps alone. -/
lemma Tidy.fileAt_gc (h : Tidy env s) {now windowSeconds : UInt64} (fail : ℕ → Bool)
    {ino : UInt64} {v : CowVersion} (hv : v ∈ s.versions env ino)
    (hkeep : expired (gcCutoff now windowSeconds) v = false) (r : Fid) :
    (s.store.versionGc now windowSeconds fail).fileAt r (shadowName ino v.timestamp) =
      s.store.fileAt r (shadowName ino v.timestamp) := by
  obtain ⟨t, freed, hgc, hst⟩ := versionGc_store s.store now windowSeconds fail
  rw [hst, fileAt_versionsFree]
  · rfl
  intro o ho hvictim
  have hmem : o ∈ (versionGc s.store.table now windowSeconds).2 := by
    rw [hgc]
    exact ho
  obtain ⟨⟨ino', hold⟩, hexp⟩ := (mem_versionGc_freed h.store.table).1 hmem
  obtain ⟨hd, hbase⟩ := victim_eq_some hvictim
  rw [h.based ino' o hold hd] at hbase
  obtain ⟨rfl, hts⟩ := shadowName_injective hbase
  -- equal stamps under one number: the kept version would be the expired one
  obtain rfl : o = v := List.inj_on_of_nodup_map (h.clock ino') hold hv hts
  rw [hkeep] at hexp
  cases hexp

/-- The same of the file at the path of the version. -/
lemma Tidy.shadowAt_gc (h : Tidy env s) {now windowSeconds : UInt64} (fail : ℕ → Bool)
    {ino : UInt64} {v : CowVersion} (hv : v ∈ s.versions env ino) (hd : v.hasData = true)
    (hkeep : expired (gcCutoff now windowSeconds) v = false) :
    (s.store.versionGc now windowSeconds fail).shadowAt env v.shadowPath =
      s.store.shadowAt env v.shadowPath := by
  refine shadowAt_congr ?_ fun r => ?_
  · obtain ⟨t, freed, -, hst⟩ := versionGc_store s.store now windowSeconds fail
    rw [hst, outside_versionsFree]
  · rw [h.based ino v hv hd]
    exact h.fileAt_gc fail hv hkeep r

lemma versions_gc (env : Env) (s : State) (now windowSeconds : UInt64) (fail : ℕ → Bool) :
    (step env s (.gc now windowSeconds fail)).versions env =
      prune (fun v => !expired (gcCutoff now windowSeconds) v) (s.versions env) := by
  obtain ⟨t, freed, hgc, hst⟩ := versionGc_store s.store now windowSeconds fail
  have hview : tableView env.hash (versionGc s.store.table now windowSeconds).1 = _ :=
    versionGc_view s.store.table now windowSeconds
  rw [hgc] at hview
  rw [step_gc, State.versions, hst, (versionsFree_same _ _ _).table, hview]
  rfl

lemma Tidy.gc (h : Tidy env s) (now windowSeconds : UInt64) (fail : ℕ → Bool) :
    Tidy env (step env s (.gc now windowSeconds fail)) := by
  have hview := versions_gc env s now windowSeconds fail
  refine ⟨h.store.step _, ?_, ?_⟩
  · intro ino
    rw [hview]
    exact (h.clock ino).sublist (List.filter_sublist.map _)
  · intro ino v hv
    rw [hview] at hv
    exact h.based ino v (List.mem_of_mem_filter hv)

lemma Stamped.based_step (h : Stamped env s₀ past s) (hfit : PathFits s op) :
    ∀ ino v, v ∈ (step env s op).versions env ino → v.hasData = true →
      shadowBase v.shadowPath = shadowName ino v.timestamp := by
  intro ino v hv hd
  have hstep := step_versions h.store.table op
  generalize (step env s op).versions env = m at hv hstep
  cases hstep with
  | same => exact h.based ino v hv hd
  | @pushed x copied hx halloc _ =>
    rcases mem_push hv with ⟨rfl, rfl⟩ | hv'
    · have hcopied : copied = true := hd
      rw [hcopied, Snapshot.version_shadowPath, shadowBase, (path_base hx hfit).2]
      rfl
    · exact h.based ino v hv' hd
  | pruned p => exact h.based ino v (List.mem_of_mem_filter hv) hd

lemma Stamped.concat (h : Stamped env s₀ past s) (hs : s = run (step env) s₀ past)
    (hfit : PathFits s op)
    (hclock : (observe (step env) stampOf s₀ past ++ stampOf s op).Nodup) :
    Stamped env s₀ (past ++ [op]) (step env s op) where
  store := h.store.step op
  clock := h.clock_step hclock
  based := h.based_step hfit
  stamped := h.stamped_step hs

lemma stamped_init (env : Env) (l : Lower) (shadow : Fid → Option ShadowFiles) :
    Stamped env (State.init l shadow) [] (State.init l shadow) where
  store := storeInv_init env shadow
  stamped ino v hv := by
    simp [State.versions, State.init, Store.init] at hv
  clock ino := by
    simp [State.versions, State.init, Store.init]
  based ino v hv := by
    simp [State.versions, State.init, Store.init] at hv

/-- The stamps used up to a step and the one it uses. -/
lemma nodup_stamps_at {s₀ : State} {past post : List Op} {op : Op}
    (h : (observe (step env) stampOf s₀ (past ++ op :: post)).Nodup) :
    (observe (step env) stampOf s₀ past ++ stampOf (run (step env) s₀ past) op).Nodup := by
  have hsplit : past ++ op :: post = (past ++ [op]) ++ post := by simp
  rw [hsplit, observe_append, List.nodup_append, observe_concat] at h
  exact h.1

/-- Every state of a run with distinct stamps and paths that fit. -/
theorem stamped_run {l : Lower} {shadow : Fid → Option ShadowFiles} {ops : List Op}
    (hclock : (observe (step env) stampOf (State.init l shadow) ops).Nodup)
    (hfit : Along (step env) PathFits (State.init l shadow) ops) :
    Stamped env (State.init l shadow) ops (run (step env) (State.init l shadow) ops) := by
  refine prefix_run (stamped_init env l shadow) ?_
  rintro past op post rfl h
  exact h.concat rfl hfit.at (nodup_stamps_at hclock)

end Cowfs
