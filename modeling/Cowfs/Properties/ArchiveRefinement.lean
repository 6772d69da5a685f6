import Cowfs.Framework.LogHistory
import Cowfs.Properties.CleanRollback
import Cowfs.Properties.Fidelity
import Cowfs.Properties.RepeatedRollback
import Cowfs.Properties.SnapshotOutcome

/-!
# What the store is for

Seen from outside, cowfs keeps an archive: for every inode number the states a file was in before
the last changes, newest first, at most 64 and none that a pass of the collector has expired.  An
archived state is complete in itself; nothing of the hash table, of shadow paths and of the shadow
directory is left in it.

`archive_refines` says that the table and the shadow directory together are that archive after
every run, and `recover` that a rollback gives back what it holds.  From the history of the
archive follows what a user may rely on (`recover_recent`): a content that was overwritten can be
had back, whatever happened since, while fewer than 64 newer versions have been saved and no pass
has expired it.
-/

namespace Cowfs

open KeyedLog

variable {env : Env}

/-! ## The archive -/

/-- A state of a file, kept. -/
structure ArchivedState where
  stamp : UInt64
  op : CowOp
  name : CStr
  stat : Kstat
  data : Option Content
  deriving DecidableEq

/-- What a version and its shadow file stand for. -/
def Store.archived (env : Env) (st : Store) (v : CowVersion) : ArchivedState where
  stamp := v.timestamp
  op := v.opType
  name := v.origName
  stat := v.savedStat
  data := if v.hasData then st.shadowAt env v.shadowPath else none

def State.archive (env : Env) (s : State) : KeyedLog UInt64 ArchivedState :=
  fun ino => (s.versions env ino).map (s.store.archived env)

/-- The state a snapshot archives: the file as it is, with the content if the copy succeeds. -/
def Snapshot.archived (env : Env) (x : Snapshot) (st : Store) : ArchivedState where
  stamp := x.now
  op := x.kind.op
  name := strscpy pathBufSize x.kind.name
  stat := snapStat x.inode x.φ
  data := if x.enteredCopied env st then some x.inode.data else none

/-- What a call does to the archive. -/
def archiveEvent (env : Env) (s : State) (op : Op) : List (LogEvent UInt64 ArchivedState) :=
  match snapshotOf s op with
  | some x => if x.Enters env s.store then [.save x.inode.ino (x.archived env s.store)] else []
  | none =>
    match op with
    | .gc now windowSeconds _ => [.keep fun r => !decide (r.stamp < gcCutoff now windowSeconds)]
    | _ => []

/-- The history of the archive in a run from the loading of the module. -/
def archiveHistory (env : Env) (l : Lower) (shadow : Fid → Option ShadowFiles) (ops : List Op) :
    List (LogEvent UInt64 ArchivedState) :=
  observe (step env) (archiveEvent env) (State.init l shadow) ops

/-! ## Files of versions that stay -/

/-- A version stands for the same state as long as its file is the same. -/
lemma archived_congr {st st' : Store} {v : CowVersion}
    (hfile : v.hasData = true → st'.shadowAt env v.shadowPath = st.shadowAt env v.shadowPath) :
    st'.archived env v = st.archived env v := by
  unfold Store.archived
  by_cases hd : v.hasData = true
  · rw [if_pos hd, if_pos hd, hfile hd]
  · rw [if_neg hd, if_neg hd]

section Step

variable {s₀ s : State} {past : List Op} {op : Op} {x : Snapshot}

/-- The copy of a snapshot, up to the insertion. -/
lemma Stamped.shadowAt_copy (h : Stamped env s₀ past s)
    (hclock : (observe (step env) stampOf s₀ past ++ stampOf s op).Nodup) (hfit : PathFits s op)
    (hx : snapshotOf s op = some x) (halloc : x.φ.alloc = false) {ino : UInt64} {v : CowVersion}
    (hv : v ∈ s.versions env ino) (hd : v.hasData = true) :
    (x.copy env s.store).2.shadowAt env v.shadowPath = s.store.shadowAt env v.shadowPath := by
  rcases hcopy : x.copy env s.store with ⟨err, st₁⟩
  exact h.shadowAt_copied hclock hfit hx halloc (Snapshot.copy_cases hcopy) hv hd

/-- The file of a version that the list keeps is not the file of one it drops. -/
lemma Stamped.shadowAt_kept (h : Stamped env s₀ past s)
    (hclock : (observe (step env) stampOf s₀ past ++ stampOf s op).Nodup) (hfit : PathFits s op)
    (hx : snapshotOf s op = some x) (henters : x.Enters env s.store) {ino : UInt64}
    {v : CowVersion} (hv : v ∈ (step env s op).versions env ino) (hd : v.hasData = true) :
    (step env s op).store.shadowAt env v.shadowPath =
      (x.copy env s.store).2.shadowAt env v.shadowPath := by
  obtain ⟨t, htake, hview⟩ := x.take_of_enters h.store.table henters
  have hnd := h.clock_cons hclock hx henters.1 (x.enteredCopied env s.store)
  rw [step_store_of_snapshot hx, htake]
  refine shadowAt_congr (outside_versionsFree _ _ _) fun r => ?_
  rw [h.based_step hfit ino v hv hd]
  refine fileAt_versionsFree fun o ho hvictim => ?_
  obtain ⟨hod, hbase⟩ := victim_eq_some hvictim
  have hoOld : o ∈ s.versions env x.inode.ino := by
    rw [maxVersions, List.drop_succ_cons] at ho
    exact List.mem_of_mem_drop ho
  rw [h.based _ o hoOld hod] at hbase
  obtain ⟨rfl, ht⟩ := shadowName_injective hbase
  rw [versions_of_enters h.store.table hx henters, push_self] at hv
  exact timestamp_ne_of_take_drop hnd hv ho ht.symm

/-- The new version stands for the file as it was. -/
lemma Stamped.archived_new (h : Stamped env s₀ past s)
    (hclock : (observe (step env) stampOf s₀ past ++ stampOf s op).Nodup) (hfit : PathFits s op)
    (hfull : CopiesFully s op) (hx : snapshotOf s op = some x) (henters : x.Enters env s.store) :
    (step env s op).store.archived env
        (x.version s.store.nextNode (x.enteredCopied env s.store)) =
      x.archived env s.store := by
  have hnew : x.version s.store.nextNode (x.enteredCopied env s.store) ∈
      (step env s op).versions env x.inode.ino := by
    rw [versions_of_enters h.store.table hx henters, push_self, maxVersions, List.take_succ_cons]
    exact List.mem_cons_self
  rcases hcopy : x.copy env s.store with ⟨err, st₁⟩
  have hcopied := Snapshot.copy_cases hcopy
  have hentered : x.enteredCopied env s.store = (x.kind.copies && err.isNone) := by
    rw [Snapshot.enteredCopied, hcopy]
  rcases hc : x.enteredCopied env s.store with _ | _
  · simp [Store.archived, Snapshot.archived, Snapshot.version, hc]
  · rw [← hentered, hc] at hcopied
    rw [hc] at hnew
    have hfile := h.shadowAt_kept hclock hfit hx henters hnew rfl
    rw [hcopy, x.version_shadowPath, hcopied.shadowAt_self (hfull x hx)] at hfile
    unfold Store.archived Snapshot.archived
    rw [x.version_shadowPath, hfile, hc]
    rfl

/-! ## One call -/

/-- Nothing of the archive changes with the same versions and the same files. -/
lemma archive_same {s' : State}
    (hversions : s'.versions env = s.versions env)
    (hfile : ∀ ino, ∀ v ∈ s.versions env ino, v.hasData = true →
      s'.store.shadowAt env v.shadowPath = s.store.shadowAt env v.shadowPath) :
    s'.archive env = s.archive env := by
  funext ino
  unfold State.archive
  rw [hversions]
  refine List.map_congr_left fun v hv => ?_
  exact archived_congr (hfile ino v hv)

lemma Stamped.archive_enters (h : Stamped env s₀ past s)
    (hclock : (observe (step env) stampOf s₀ past ++ stampOf s op).Nodup) (hfit : PathFits s op)
    (hfull : CopiesFully s op) (hx : snapshotOf s op = some x) (henters : x.Enters env s.store) :
    (step env s op).archive env =
      push maxVersions x.inode.ino (x.archived env s.store) (s.archive env) := by
  have hversions := versions_of_enters h.store.table hx henters
  have hold : ∀ ino, ∀ v ∈ s.versions env ino, v ∈ (step env s op).versions env ino →
      (step env s op).store.archived env v = s.store.archived env v := by
    intro ino v hv hv'
    refine archived_congr fun hd => ?_
    rw [h.shadowAt_kept hclock hfit hx henters hv' hd,
      h.shadowAt_copy hclock hfit hx henters.1 hv hd]
  funext ino
  by_cases hino : ino = x.inode.ino
  · subst hino
    have hlist : (step env s op).versions env x.inode.ino =
        x.version s.store.nextNode (x.enteredCopied env s.store) ::
          (s.versions env x.inode.ino).take 63 := by
      rw [hversions, push_self, maxVersions, List.take_succ_cons]
    have hrest : ((s.versions env x.inode.ino).take 63).map ((step env s op).store.archived env) =
        ((s.versions env x.inode.ino).take 63).map (s.store.archived env) := by
      refine List.map_congr_left fun v hv => hold _ v (List.mem_of_mem_take hv) ?_
      rw [hlist]
      exact List.mem_cons_of_mem _ hv
    rw [push_self, maxVersions, List.take_succ_cons]
    unfold State.archive
    rw [hlist, List.map_cons, h.archived_new hclock hfit hfull hx henters, hrest, List.map_take]
  · rw [push_of_ne hino]
    have hlist : (step env s op).versions env ino = s.versions env ino := by
      rw [hversions, push_of_ne hino]
    unfold State.archive
    rw [hlist]
    exact List.map_congr_left fun v hv => hold ino v hv (by rwa [hlist])

lemma Stamped.archive_not_enters (h : Stamped env s₀ past s)
    (hclock : (observe (step env) stampOf s₀ past ++ stampOf s op).Nodup) (hfit : PathFits s op)
    (hx : snapshotOf s op = some x) (henters : ¬ x.Enters env s.store) :
    (step env s op).archive env = s.archive env := by
  refine archive_same (versions_of_not_enters hx henters) fun ino v hv hd => ?_
  rw [step_store_of_snapshot hx, x.take_of_not_enters henters]
  by_cases halloc : x.φ.alloc = true
  · rw [if_pos halloc]
  · rw [if_neg halloc]
    exact h.shadowAt_copy hclock hfit hx (by simpa using halloc) hv hd

lemma Tidy.archive_gc (h : Tidy env s) (now windowSeconds : UInt64) (fail : ℕ → Bool) :
    (step env s (.gc now windowSeconds fail)).archive env =
      prune (fun r => !decide (r.stamp < gcCutoff now windowSeconds)) (s.archive env) := by
  have hstore : (step env s (.gc now windowSeconds fail)).store =
      s.store.versionGc now windowSeconds fail := by
    rw [step_gc]
  funext ino
  unfold State.archive
  rw [versions_gc, hstore, prune_apply, prune_apply, List.filter_map]
  refine List.map_congr_left fun v hv => ?_
  obtain ⟨hv, hkeep⟩ := List.mem_filter.1 hv
  exact archived_congr fun hd => h.shadowAt_gc fail hv hd (by simpa using hkeep)

/-- A call that takes no snapshot and is no pass of the collector. -/
lemma archive_idle (env : Env) (hx : snapshotOf s op = none)
    (hgc : ∀ now windowSeconds fail, op ≠ .gc now windowSeconds fail) :
    (step env s op).archive env = s.archive env := by
  have hstep := step_store env s op
  unfold State.archive State.versions
  generalize (step env s op).store = st' at hstep ⊢
  rcases hstep with - | ⟨-, -⟩ | - | hx' | ⟨now, windowSeconds, fail, hop⟩
  · rfl
  · funext ino
    rw [shadowInit_table]
    refine List.map_congr_left fun v hv => ?_
    exact archived_congr fun _ =>
      shadowAt_congr (outside_shadowInit _ _ _) fun r => fileAt_shadowInit _ _ r _ _
  · funext ino
    refine List.map_congr_left fun v hv => ?_
    exact archived_congr fun _ => rfl
  · rw [hx] at hx'
    exact absurd hx' (by simp)
  · exact absurd hop (hgc now windowSeconds fail)

/-- **One call** does to the archive what its event says. -/
lemma Stamped.archive_step (h : Stamped env s₀ past s)
    (hclock : (observe (step env) stampOf s₀ past ++ stampOf s op).Nodup) (hfit : PathFits s op)
    (hfull : CopiesFully s op) :
    (step env s op).archive env =
      run (LogEvent.apply maxVersions) (s.archive env) (archiveEvent env s op) := by
  unfold archiveEvent
  rcases hx : snapshotOf s op with _ | x
  · by_cases hgc : ∃ now windowSeconds fail, op = .gc now windowSeconds fail
    · obtain ⟨now, windowSeconds, fail, rfl⟩ := hgc
      exact h.archive_gc now windowSeconds fail
    · have hidle := archive_idle env hx fun now windowSeconds fail hop => hgc ⟨_, _, _, hop⟩
      dsimp only
      split
      · exact absurd ⟨_, _, _, rfl⟩ hgc
      · exact hidle
  · dsimp only
    split_ifs with henters
    · exact h.archive_enters hclock hfit hfull hx henters
    · exact h.archive_not_enters hclock hfit hx henters

end Step

/-! ## Runs -/

/-- **The store is the archive.**  After any run in which any call may fail, in which the clock
gives no stamp twice, shadow paths fit their buffer and writes to shadow files are not cut short,
the table with the shadow directory holds what the history of the archive leaves. -/
theorem archive_refines (env : Env) (l : Lower) (shadow : Fid → Option ShadowFiles)
    (ops : List Op) (hclock : (observe (step env) stampOf (State.init l shadow) ops).Nodup)
    (hfit : Along (step env) PathFits (State.init l shadow) ops)
    (hfull : Along (step env) CopiesFully (State.init l shadow) ops) :
    (run (step env) (State.init l shadow) ops).archive env =
      run (LogEvent.apply maxVersions) KeyedLog.empty (archiveHistory env l shadow ops) := by
  refine (prefix_run (I := fun past s =>
    Stamped env (State.init l shadow) past s ∧ s.archive env =
      run (LogEvent.apply maxVersions) KeyedLog.empty (archiveHistory env l shadow past))
    ⟨stamped_init env l shadow, ?_⟩ ?_).2
  · funext ino
    simp [State.archive, State.versions, State.init, Store.init, archiveHistory, observe]
  · rintro past op post rfl ⟨hst, harchive⟩
    have hclock' := nodup_stamps_at hclock
    refine ⟨hst.concat rfl hfit.at hclock', ?_⟩
    rw [hst.archive_step hclock' hfit.at hfull.at, archiveHistory, observe_concat, run_append,
      harchive]
    rfl

/-- The one byte the file had when it was removed is what the archive has left of it. -/
theorem archive_refines_sample :
    (run (step smallEnv) (State.init smallTree fun _ => none) sampleOps).archive smallEnv =
      run (LogEvent.apply maxVersions) KeyedLog.empty
        (archiveHistory smallEnv smallTree (fun _ => none) sampleOps) :=
  archive_refines smallEnv smallTree (fun _ => none) sampleOps (by decide +kernel)
    (by decide +kernel) copiesFully_sampleOps

/-! ## Going back -/

section Recover

variable {s : State} {path : CStr} {p : Place} {c : Content}

lemma archive_of_store_eq {s' : State} (h : s'.store = s.store) :
    s'.archive env = s.archive env := by
  unfold State.archive State.versions
  rw [h]

/-- **A rollback gives back what the archive holds**, when no lower call fails: the file gets the
archived content, no other file changes, and the archive stays as it is. -/
lemma Tidy.recover (h : Tidy env s) (hpath : cowfsPath env s path none = .ok p)
    {r : ArchivedState} (hr : r ∈ s.archive env (s.lower.inoOf p.file)) (hstamp : r.stamp ≠ 0)
    (hop : r.op = .write ∨ r.op = .setattr) (hdata : r.data = some c) (cred : Cred)
    (ino : UInt64) (now : ℕ) :
    (exec env s (.rollback path r.stamp (.clean cred ino now))).1 = none ∧
      (step env s (.rollback path r.stamp (.clean cred ino now))).lower.content p.file = c ∧
      OnlyFile p.file s (step env s (.rollback path r.stamp (.clean cred ino now))) ∧
      (step env s (.rollback path r.stamp (.clean cred ino now))).archive env =
        s.archive env := by
  obtain ⟨v, hv, rfl⟩ := List.mem_map.1 hr
  have hd : v.hasData = true := by
    by_contra hd
    simp [Store.archived, hd] at hdata
  have hshadow : s.store.shadowAt env v.shadowPath = some c := by
    simpa only [Store.archived, hd, if_true] using hdata
  have hfind : versionFind env.hash s.store.table (s.lower.inoOf p.file) v.timestamp = some v :=
    versionFind_of_mem (h.clock _) hv hstamp
  have hfine := RollbackFaults.clean_fine cred ino now
  have hunlink : v.opType ≠ .unlink := by
    rcases hop with hop | hop <;> exact fun h => absurd (hop.symm.trans h) (by simp)
  have hrename : v.opType ≠ .rename := by
    rcases hop with hop | hop <;> exact fun h => absurd (hop.symm.trans h) (by simp)
  have hsuccess : (ioctlRollback env s path v.timestamp (.clean cred ino now)).1 = none := by
    rw [rollback_found hfine hpath hfind, rollback_of_fine hfine (cowfsPath_entry hpath) hunlink
      (fun _ => hshadow) fun h => absurd h hrename]
  have hrestores : RestoresData env p.file s path v.timestamp (.clean cred ino now) v :=
    ⟨⟨p, hpath, rfl⟩, hfind, hd, hop, fullWrites_clean, hsuccess⟩
  obtain ⟨hcontent, honly⟩ := hrestores.restores
  rw [hshadow, Option.some.injEq] at hcontent
  exact ⟨hsuccess, hcontent.symm, honly, archive_of_store_eq honly.store⟩

/-- Only the collector expires states. -/
lemma keep_mem_observe {s : State} {ops : List Op} {q : ArchivedState → Bool}
    (h : .keep q ∈ observe (step env) (archiveEvent env) s ops) :
    ∃ now windowSeconds fail, .gc now windowSeconds fail ∈ ops ∧
      q = fun r => !decide (r.stamp < gcCutoff now windowSeconds) := by
  induction ops generalizing s with
  | nil => simp [observe] at h
  | cons op ops ih =>
    rw [observe, List.mem_append] at h
    rcases h with h | h
    · unfold archiveEvent at h
      split at h
      · split at h <;> simp at h
      · split at h
        · next now windowSeconds fail _ =>
          rw [List.mem_singleton, LogEvent.keep.injEq] at h
          exact ⟨now, windowSeconds, fail, List.mem_cons_self, h⟩
        · simp at h
    · obtain ⟨now, windowSeconds, fail, hgc, hq⟩ := ih h
      exact ⟨now, windowSeconds, fail, List.mem_cons_of_mem _ hgc, hq⟩

/-- **What a user may rely on.**  A call that overwrites or truncates a file saves its content.
Whatever calls follow, in whatever order and with whatever failures, as long as fewer than 64
versions are saved under the same number and no pass of the collector expires it, a rollback on a
path to the file of this number with which nothing fails puts exactly this content back.  The run
is one of `archive_refines`: distinct stamps, none of them 0 for the content in question, paths
that fit and no short writes. -/
theorem recover_recent {l : Lower} {shadow : Fid → Option ShadowFiles} {pre post : List Op}
    {op : Op} {x : Snapshot}
    (hclock : (observe (step env) stampOf (State.init l shadow) (pre ++ op :: post)).Nodup)
    (hfit : Along (step env) PathFits (State.init l shadow) (pre ++ op :: post))
    (hfull : Along (step env) CopiesFully (State.init l shadow) (pre ++ op :: post))
    (hx : snapshotOf (run (step env) (State.init l shadow) pre) op = some x)
    (henters : x.Enters env (run (step env) (State.init l shadow) pre).store)
    (hcopied : x.enteredCopied env (run (step env) (State.init l shadow) pre).store = true)
    (hkind : x.kind.op = .write ∨ x.kind.op = .setattr) (hnow : x.now ≠ 0)
    (hfew : saves x.inode.ino (observe (step env) (archiveEvent env)
      (run (step env) (State.init l shadow) (pre ++ [op])) post) < maxVersions)
    (hspares : ∀ now windowSeconds fail, .gc now windowSeconds fail ∈ post →
      gcCutoff now windowSeconds ≤ x.now)
    (hpath : cowfsPath env (run (step env) (State.init l shadow) (pre ++ op :: post)) path none =
      .ok p)
    (hino : (run (step env) (State.init l shadow) (pre ++ op :: post)).lower.inoOf p.file =
      x.inode.ino) (cred : Cred) (ino : UInt64) (now : ℕ) :
    let s := run (step env) (State.init l shadow) (pre ++ op :: post)
    let s' := step env s (.rollback path x.now (.clean cred ino now))
    (exec env s (.rollback path x.now (.clean cred ino now))).1 = none ∧
      s'.lower.content p.file =
        (run (step env) (State.init l shadow) pre).lower.content x.file ∧
      OnlyFile p.file s s' ∧ s'.archive env = s.archive env := by
  intro s s'
  have htidy : Tidy env s := (stamped_run hclock hfit).toTidy
  have hcontent : (run (step env) (State.init l shadow) pre).lower.content x.file =
      x.inode.data := by
    rw [Lower.content, (snapshotOf_spec hx).2.1]
    rfl
  -- the history: what came before, the save, what came after
  have hevent : archiveEvent env (run (step env) (State.init l shadow) pre) op =
      [.save x.inode.ino (x.archived env (run (step env) (State.init l shadow) pre).store)] := by
    simp [archiveEvent, hx, henters]
  have hhistory : archiveHistory env l shadow (pre ++ op :: post) =
      archiveHistory env l shadow pre ++
        .save x.inode.ino (x.archived env (run (step env) (State.init l shadow) pre).store) ::
          observe (step env) (archiveEvent env)
            (run (step env) (State.init l shadow) (pre ++ [op])) post := by
    rw [archiveHistory, observe_append, observe, hevent, run_concat]
    rfl
  have hr : x.archived env (run (step env) (State.init l shadow) pre).store ∈
      s.archive env (s.lower.inoOf p.file) := by
    rw [hino, archive_refines env l shadow _ hclock hfit hfull, hhistory, run_append]
    refine mem_run_of_recent _ (fun q hq => ?_) hfew
    obtain ⟨now, windowSeconds, fail, hgc, rfl⟩ := keep_mem_observe hq
    have hspared := hspares now windowSeconds fail hgc
    rw [Bool.not_eq_true', decide_eq_false_iff_not]
    exact UInt64.not_lt.2 hspared
  have hdata : (x.archived env (run (step env) (State.init l shadow) pre).store).data =
      some x.inode.data := by
    simp only [Snapshot.archived, hcopied, if_true]
  rw [hcontent]
  exact htidy.recover hpath hr hnow hkind hdata cred ino now

end Recover

/-- A file is made and written through a descriptor, twice. -/
def beforeCut : List Op :=
  [.mount ['/', 'l'] none none, .make sIFREG 1 ['x'] 0x1A4#16 ⟨0, 0, 0⟩ 10 1 none,
    .open 0 4 true none, .write 0 0 [1, 2, 3] 1000 .clean none,
    .write 0 1 [9] 2000 .clean none]

def cut : Op := .setattr 4 { Iattr.zero with iaSize := some 1 } 3000 .clean none

/-- A pass that spares the version of the truncation, and a write through the same descriptor. -/
def afterCut : List Op := [.gc 3000 0 fun _ => false, .write 0 0 [7] 5000 .clean none]

theorem recover_recent_cut :
    (step smallEnv (run (step smallEnv) (State.init smallTree fun _ => none)
        (beforeCut ++ cut :: afterCut))
      (.rollback ['/', 'm', '/', 'x'] 3000 (.clean ⟨0, 0, 0⟩ 11 6000))).lower.content 4 =
    [1, 9, 3] := by
  obtain ⟨x, hx, henters, hcopied, hop, hnow, hino, hfile⟩ :
      ∃ x ∈ snapshotOf (run (step smallEnv) (State.init smallTree fun _ => none) beforeCut) cut,
        x.Enters smallEnv (run (step smallEnv) (State.init smallTree fun _ => none)
          beforeCut).store ∧
        x.enteredCopied smallEnv (run (step smallEnv) (State.init smallTree fun _ => none)
          beforeCut).store = true ∧
        x.kind.op = .setattr ∧ x.now = 3000 ∧ x.inode.ino = 10 ∧ x.file = 4 := by
    decide +kernel
  have hidle : snapshotOf (step smallEnv (run (step smallEnv) (State.init smallTree fun _ => none)
      (beforeCut ++ [cut])) (.gc 3000 0 fun _ => false)) (.write 0 0 [7] 5000 .clean none) =
        none := Option.isNone_iff_eq_none.1 (by decide +kernel)
  have hpost : observe (step smallEnv) (archiveEvent smallEnv) (run (step smallEnv)
      (State.init smallTree fun _ => none) (beforeCut ++ [cut])) afterCut =
        [.keep fun r => !decide (r.stamp < gcCutoff 3000 0)] := by
    simp only [afterCut, observe, archiveEvent, hidle]
    rfl
  have hfull : Along (step smallEnv) CopiesFully (State.init smallTree fun _ => none)
      (beforeCut ++ cut :: afterCut) := by
    refine along_of_forall _ (fun op hop s => copiesFully_of_clean ?_ s) _
    intro φ hφ
    simp only [beforeCut, cut, afterCut, List.cons_append, List.nil_append, List.mem_cons,
      List.not_mem_nil, or_false] at hop
    rcases hop with rfl | rfl | rfl | rfl | rfl | rfl | rfl | rfl <;> cases hφ <;> rfl
  have hpath : cowfsPath smallEnv (run (step smallEnv) (State.init smallTree fun _ => none)
      (beforeCut ++ cut :: afterCut)) ['/', 'm', '/', 'x'] none = .ok ⟨1, ['x'], 4⟩ := by
    decide +kernel
  have hinoOf : (run (step smallEnv) (State.init smallTree fun _ => none)
      (beforeCut ++ cut :: afterCut)).lower.inoOf 4 = x.inode.ino := by
    rw [hino]
    decide +kernel
  have hback := recover_recent (by decide +kernel) (by decide +kernel) hfull hx henters hcopied
    (.inr hop) (by rw [hnow]; decide) (by rw [hpost]; simp [saves, maxVersions]) ?_ hpath hinoOf
    ⟨0, 0, 0⟩ 11 6000
  · have hcontent := hback.2.1
    rw [hnow, hfile] at hcontent
    rw [hcontent]
    decide +kernel
  · intro now windowSeconds fail hgc
    obtain ⟨rfl, rfl, -⟩ : now = 3000 ∧ windowSeconds = 0 ∧ fail = fun _ => false := by
      simpa [afterCut] using hgc
    rw [hnow]
    decide

end Cowfs
