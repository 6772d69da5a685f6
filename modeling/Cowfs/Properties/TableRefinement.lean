import Cowfs.Construction.Ctl
import Cowfs.Properties.VersionTable

/-!
# Runs of the version table

The version table as a component of its own: `TableCall` is a call of `cowfs_versions.c` with
its arguments and `tableExec` its effect, reply included.  `logStep` is what the same call
means for a keyed log that keeps the newest 64 records of every key, and `ReplyMatches` what
the reply must be there.  `table_refines_log` runs any sequence of calls side by side on both.

A version handed to `cowfs_version_add` has just been allocated, so its address is not that
of a version in the table (`TableCall.Ok`); an address may well be used again after its
version was freed.
-/

namespace Cowfs

open KeyedLog

/-! ## Calls and replies -/

/-- A call of the version table; `nomem` is the failure of the `GFP_ATOMIC` allocation. -/
inductive TableCall
  | add (ino : UInt64) (v : CowVersion) (nomem : Bool)
  | gc (now windowSeconds : UInt64)
  | gcAll
  | list (ino : UInt64) (maxCount : ℤ)
  | find (ino timestamp : UInt64)

/-- What a call hands out: versions to `cowfs_version_free`, or search results. -/
inductive TableReply
  | freed (vs : List CowVersion)
  | listed (vs : List CowVersion)
  | found (v : Option CowVersion)

def tableExec (hash : UInt64 → Bucket) (t : VersionsHtable) :
    TableCall → TableReply × VersionsHtable
  | .add ino v nomem =>
    match versionAdd hash t ino v nomem with
    | none => (.freed [], t)
    | some (t', oldest) => (.freed oldest.toList, t')
  | .gc now windowSeconds =>
    (.freed (versionGc t now windowSeconds).2, (versionGc t now windowSeconds).1)
  | .gcAll => (.freed (versionsGcAll t).2, (versionsGcAll t).1)
  | .list ino maxCount => (.listed (versionList hash t ino maxCount), t)
  | .find ino timestamp => (.found (versionFind hash t ino timestamp), t)

def tableStep (hash : UInt64 → Bucket) (t : VersionsHtable) (call : TableCall) :
    VersionsHtable :=
  (tableExec hash t call).2

lemma tableExec_gc (hash : UInt64 → Bucket) (t : VersionsHtable) (now windowSeconds : UInt64) :
    tableExec hash t (.gc now windowSeconds) =
      (.freed (versionGc t now windowSeconds).2, (versionGc t now windowSeconds).1) := rfl

lemma tableExec_gcAll (hash : UInt64 → Bucket) (t : VersionsHtable) :
    tableExec hash t .gcAll = (.freed (versionsGcAll t).2, (versionsGcAll t).1) := rfl

lemma tableStep_of_exec {call : TableCall} {hash : UInt64 → Bucket} {t t' : VersionsHtable}
    {reply : TableReply} (h : tableExec hash t call = (reply, t')) :
    tableStep hash t call = t' := by
  rw [tableStep, h]

lemma tableStep_gc (hash : UInt64 → Bucket) (t : VersionsHtable) (now windowSeconds : UInt64) :
    tableStep hash t (.gc now windowSeconds) = (versionGc t now windowSeconds).1 :=
  tableStep_of_exec (tableExec_gc hash t now windowSeconds)

/-- The allocation of the call succeeds and the version it adds is not in the table. -/
def TableCall.Ok (hash : UInt64 → Bucket) (t : VersionsHtable) : TableCall → Prop
  | .add _ v nomem => nomem = false ∧ (tableView hash t).Fresh CowVersion.node v
  | _ => True

/-! ## The same calls on a keyed log -/

/-- The call as an operation of a keyed log. -/
def logStep (m : KeyedLog UInt64 CowVersion) : TableCall → KeyedLog UInt64 CowVersion
  | .add ino v _ => push 64 ino v m
  | .gc now windowSeconds => prune (fun v => gcCutoff now windowSeconds ≤ v.timestamp) m
  | .gcAll => KeyedLog.empty
  | .list _ _ => m
  | .find _ _ => m

/-- The versions that exist while the call runs: those of the log and the one it adds. -/
def Present (m : KeyedLog UInt64 CowVersion) (call : TableCall) (v : CowVersion) : Prop :=
  match call with
  | .add _ w _ => m.Holds v ∨ v = w
  | _ => m.Holds v

/-- The reply the log `m` has for a call.  What is freed is what the call drops, each version
once. -/
def ReplyMatches (m : KeyedLog UInt64 CowVersion) : TableCall → TableReply → Prop
  | .list ino maxCount, .listed vs => vs = (m ino).take maxCount.toNat
  | .find ino timestamp, .found o =>
    o = if timestamp = 0 then (m ino).head? else (m ino).find? (·.timestamp == timestamp)
  | .list _ _, _ => False
  | .find _ _, _ => False
  | call, .freed vs => Frees CowVersion.node (Present m call) (logStep m call) vs
  | _, _ => False

/-! ## One call -/

variable {hash : UInt64 → Bucket} {t : VersionsHtable}

lemma tableExec_add (ht : TableInv hash t) (hd : (tableView hash t).Distinct CowVersion.node)
    (ino : UInt64) {v : CowVersion} (hv : (tableView hash t).Fresh CowVersion.node v) :
    ∃ oldest t', tableExec hash t (.add ino v false) = (.freed oldest, t') ∧
      TableInv hash t' ∧ tableView hash t' = push 64 ino v (tableView hash t) ∧
      Frees CowVersion.node (Present (tableView hash t) (.add ino v false))
        (push 64 ino v (tableView hash t)) oldest := by
  have hsome : (versionAdd hash t ino v false).isSome := versionAdd_isSome rfl
  obtain ⟨⟨t', oldest⟩, hadd⟩ := Option.isSome_iff_exists.1 hsome
  obtain ⟨ht', hview, hold⟩ := versionAdd_spec ht hadd
  refine ⟨oldest.toList, t', ?_, ht', hview, ?_⟩
  · simp only [tableExec, hadd]
  · rw [hold]
    exact hd.frees_push 64 ino hv

/-- The test of the collector, negated, is the comparison with the cutoff. -/
lemma not_expired_eq (cutoff : UInt64) :
    (fun v => !expired cutoff v) = fun v => decide (cutoff ≤ v.timestamp) := by
  funext v
  by_cases h : v.timestamp < cutoff
  · have hle : ¬ cutoff ≤ v.timestamp := UInt64.not_le.2 h
    simp [expired, h, hle]
  · have hle : cutoff ≤ v.timestamp := UInt64.not_lt.1 h
    simp [expired, h, hle]

lemma versionGc_frees (ht : TableInv hash t)
    (hd : (tableView hash t).Distinct CowVersion.node) (now windowSeconds : UInt64) :
    Frees CowVersion.node (tableView hash t).Holds
      (prune (fun v => !expired (gcCutoff now windowSeconds) v) (tableView hash t))
      (versionGc t now windowSeconds).2 := by
  apply frees_prune
  · have hnd := ht.nodup_allVersions hd
    rw [versionGc_eq, List.map_reverse, List.nodup_reverse]
    exact hnd.sublist (List.filter_sublist.map _)
  · intro v
    rw [mem_versionGc_freed ht]
    simp

lemma versionsGcAll_frees (ht : TableInv hash t)
    (hd : (tableView hash t).Distinct CowVersion.node) :
    Frees CowVersion.node (tableView hash t).Holds (logStep (tableView hash t) .gcAll)
      (versionsGcAll t).2 := by
  rw [versionsGcAll_eq]
  constructor
  · rw [List.map_reverse, List.nodup_reverse]
    exact ht.nodup_allVersions hd
  · intro v
    rw [List.mem_reverse, ht.mem_allVersions]
    simp [logStep]

lemma versionFind_eq_ite (t : VersionsHtable) (ino timestamp : UInt64) :
    versionFind hash t ino timestamp =
      if timestamp = 0 then (tableView hash t ino).head?
      else (tableView hash t ino).find? (·.timestamp == timestamp) := by
  by_cases h : timestamp = 0
  · rw [if_pos h, h, versionFind_latest]
  · have hbeq : (timestamp == 0) = false := by simpa using h
    simp only [versionFind_eq, hbeq, Bool.false_or, if_neg h]

/-- **One call.**  On a table that meets its invariant and holds no version twice, a call
steps the log the table stands for, replies what the log replies, and leaves such a table. -/
theorem tableExec_spec (ht : TableInv hash t)
    (hd : (tableView hash t).Distinct CowVersion.node) {call : TableCall}
    (hok : call.Ok hash t) :
    TableInv hash (tableStep hash t call) ∧
      (tableView hash (tableStep hash t call)).Distinct CowVersion.node ∧
      tableView hash (tableStep hash t call) = logStep (tableView hash t) call ∧
      ReplyMatches (tableView hash t) call (tableExec hash t call).1 := by
  cases call with
  | add ino v nomem =>
    obtain ⟨rfl, hv⟩ := hok
    obtain ⟨oldest, t', hexec, ht', hview, hfrees⟩ := tableExec_add ht hd ino hv
    rw [tableStep_of_exec hexec, hexec]
    refine ⟨ht', ?_, hview, hfrees⟩
    rw [hview]
    exact hd.push 64 ino hv
  | gc now windowSeconds =>
    have hview : tableView hash (versionGc t now windowSeconds).1 = _ :=
      versionGc_view t now windowSeconds
    have hfrees := versionGc_frees ht hd now windowSeconds
    rw [not_expired_eq] at hview hfrees
    rw [tableStep_gc, tableExec_gc]
    refine ⟨versionGc_inv ht now windowSeconds, ?_, hview, hfrees⟩
    rw [hview]
    exact hd.prune _
  | gcAll =>
    have hinit : (versionsGcAll t).1 = VersionsHtable.init := by rw [versionsGcAll_eq]
    have hfrees := versionsGcAll_frees ht hd
    rw [tableStep_of_exec (tableExec_gcAll hash t), tableExec_gcAll, hinit, tableView_init]
    exact ⟨tableInv_init, distinct_empty, rfl, hfrees⟩
  | list ino maxCount => exact ⟨ht, hd, rfl, versionList_eq t ino maxCount⟩
  | find ino timestamp => exact ⟨ht, hd, rfl, versionFind_eq_ite t ino timestamp⟩

/-! ## Runs of calls -/

/-- What a run of calls keeps: the invariant, that no version is held twice, and the log the
table stands for. -/
lemma tableRun_spec (calls : List TableCall)
    (hok : Along (tableStep hash) (TableCall.Ok hash) VersionsHtable.init calls) :
    TableInv hash (run (tableStep hash) VersionsHtable.init calls) ∧
      (tableView hash (run (tableStep hash) VersionsHtable.init calls)).Distinct
        CowVersion.node ∧
      tableView hash (run (tableStep hash) VersionsHtable.init calls) =
        run logStep KeyedLog.empty calls := by
  refine prefix_run
    (I := fun past t => TableInv hash t ∧ (tableView hash t).Distinct CowVersion.node ∧
      tableView hash t = run logStep KeyedLog.empty past) ?_ ?_
  · refine ⟨tableInv_init, ?_, tableView_init⟩
    rw [tableView_init]
    exact distinct_empty
  · rintro past call post rfl ⟨ht, hd, hview⟩
    obtain ⟨ht', hd', hview', -⟩ := tableExec_spec ht hd hok.at
    refine ⟨ht', hd', ?_⟩
    rw [hview', hview, run_concat]

/-! ## What a run adds -/

/-- The version a call links into the table. -/
def addedBy (hash : UInt64 → Bucket) (t : VersionsHtable) : TableCall → List CowVersion
  | .add ino v nomem => if (versionAdd hash t ino v nomem).isSome then [v] else []
  | _ => []

/-- The versions a sequence of calls links into the table, in order. -/
def added (hash : UInt64 → Bucket) (calls : List TableCall) : List CowVersion :=
  observe (tableStep hash) (addedBy hash) VersionsHtable.init calls

/-- A call keeps the invariant, and what is in the table afterwards was there or is added. -/
lemma tableStep_added (ht : TableInv hash t) (call : TableCall) :
    TableInv hash (tableStep hash t call) ∧
      ∀ v, (tableView hash (tableStep hash t call)).Holds v →
        (tableView hash t).Holds v ∨ v ∈ addedBy hash t call := by
  cases call with
  | add ino v nomem =>
    simp only [tableStep, tableExec, addedBy]
    cases hadd : versionAdd hash t ino v nomem with
    | none => exact ⟨ht, fun w hw => .inl hw⟩
    | some p =>
      obtain ⟨ht', hview, -⟩ := versionAdd_spec ht hadd
      refine ⟨ht', ?_⟩
      rintro w ⟨ino', hw⟩
      have hw' : w ∈ tableView hash p.1 ino' := hw
      rw [hview] at hw'
      rcases mem_push hw' with ⟨-, rfl⟩ | hold
      · exact .inr (by simp)
      · exact .inl ⟨ino', hold⟩
  | gc now windowSeconds =>
    rw [tableStep_gc]
    refine ⟨versionGc_inv ht now windowSeconds, ?_⟩
    rintro w ⟨ino, hw⟩
    rw [versionGc_view] at hw
    exact .inl ⟨ino, List.mem_of_mem_filter hw⟩
  | gcAll =>
    rw [tableStep_of_exec (tableExec_gcAll hash t), versionsGcAll_eq]
    refine ⟨tableInv_init, fun w hw => ?_⟩
    rw [tableView_init] at hw
    exact absurd hw (not_holds_empty w)
  | list ino maxCount => exact ⟨ht, fun w hw => .inl hw⟩
  | find ino timestamp => exact ⟨ht, fun w hw => .inl hw⟩

/-- After any calls the table meets its invariant, and what it holds was added by one of them. -/
lemma tableRun_added (hash : UInt64 → Bucket) (calls : List TableCall) :
    TableInv hash (run (tableStep hash) VersionsHtable.init calls) ∧
      ∀ v, (tableView hash (run (tableStep hash) VersionsHtable.init calls)).Holds v →
        v ∈ added hash calls := by
  refine prefix_run (I := fun past t => TableInv hash t ∧
    ∀ v, (tableView hash t).Holds v → v ∈ added hash past) ?_ ?_
  · refine ⟨tableInv_init, fun v hv => ?_⟩
    rw [tableView_init] at hv
    exact absurd hv (not_holds_empty v)
  · rintro past call post - ⟨ht, hheld⟩
    obtain ⟨ht', hstep⟩ := tableStep_added ht call
    refine ⟨ht', fun v hv => ?_⟩
    rw [added, observe_concat, List.mem_append]
    exact (hstep v hv).imp_left (hheld v)

/-! ## What every reachable table looks like -/

/-- The record a call adds is in no list. -/
def TableCall.AddsNew (t : VersionsHtable) : TableCall → Prop
  | .add _ v _ => ∀ w ∈ allVersions t, w.node ≠ v.node
  | _ => True

instance (t : VersionsHtable) : ∀ call : TableCall, Decidable (call.AddsNew t)
  | .add _ v _ => inferInstanceAs (Decidable (∀ w ∈ allVersions t, w.node ≠ v.node))
  | .gc _ _ => isTrue trivial
  | .gcAll => isTrue trivial
  | .list _ _ => isTrue trivial
  | .find _ _ => isTrue trivial

/-- The records of all buckets, in the order of `hash_for_each`. -/
def allInfos (t : VersionsHtable) : List CowInodeInfo := (List.finRange 256).flatMap t

/-- One record for each inode number, in the right bucket, with the right counter; and no version
is linked twice, in one list or in two. -/
structure WellFormed (hash : UInt64 → Bucket) (t : VersionsHtable) : Prop where
  unique : ((allInfos t).map CowInodeInfo.lowerIno).Nodup
  home : ∀ b, ∀ info ∈ t b, hash info.lowerIno = b
  counted : ∀ info ∈ allInfos t, info.versionCount = info.versions.length
  bounded : ∀ info ∈ allInfos t, 0 ≤ info.versionCount ∧ info.versionCount ≤ 64
  linked : (((allInfos t).flatMap CowInodeInfo.versions).map CowVersion.node).Nodup

lemma mem_allInfos {info : CowInodeInfo} : info ∈ allInfos t ↔ ∃ b, info ∈ t b := by
  simp [allInfos]

lemma TableInv.nodup_allInfos (ht : TableInv hash t) :
    ((allInfos t).map CowInodeInfo.lowerIno).Nodup := by
  rw [allInfos, List.map_flatMap, List.nodup_flatMap]
  refine ⟨fun b _ => (ht b).unique, ?_⟩
  have hne : (List.finRange 256).Pairwise (· ≠ ·) := List.nodup_finRange 256
  refine hne.imp fun {b b'} hbb ino hi hi' => hbb ?_
  obtain ⟨info, hmem, rfl⟩ := List.mem_map.1 hi
  obtain ⟨info', hmem', he⟩ := List.mem_map.1 hi'
  rw [← (ht b).home info hmem, ← (ht b').home info' hmem', he]

lemma TableInv.wellFormed (ht : TableInv hash t)
    (hd : (tableView hash t).Distinct CowVersion.node) : WellFormed hash t where
  unique := ht.nodup_allInfos
  home b := (ht b).home
  counted info hinfo := by
    obtain ⟨b, hb⟩ := mem_allInfos.1 hinfo
    exact (ht b).counted info hb
  bounded info hinfo := by
    obtain ⟨b, hb⟩ := mem_allInfos.1 hinfo
    have hlen : info.versions.length ≤ 64 := (ht b).bounded info hb
    have hcount := (ht b).counted info hb
    omega
  linked := by
    have hall : (allInfos t).flatMap CowInodeInfo.versions = allVersions t := by
      rw [allInfos, List.flatMap_assoc]
      rfl
    rw [hall]
    exact ht.nodup_allVersions hd

/-- A call whose allocation may fail keeps the invariant. -/
lemma tableStep_inv (ht : TableInv hash t) (hd : (tableView hash t).Distinct CowVersion.node)
    {call : TableCall} (hnew : call.AddsNew t) :
    TableInv hash (tableStep hash t call) ∧
      (tableView hash (tableStep hash t call)).Distinct CowVersion.node := by
  refine ⟨(tableStep_added ht call).1, ?_⟩
  cases call with
  | add ino v nomem =>
    have hfresh : (tableView hash t).Fresh CowVersion.node v :=
      fun w hw => hnew w (ht.mem_allVersions.2 hw)
    simp only [tableStep, tableExec]
    cases hadd : versionAdd hash t ino v nomem with
    | none =>
      -- -ENOMEM, before anything was linked
      exact hd
    | some p =>
      obtain ⟨-, hview, -⟩ := versionAdd_spec ht hadd
      show (tableView hash p.1).Distinct CowVersion.node
      rw [hview]
      exact hd.push _ _ hfresh
  | gc now windowSeconds =>
    have hok : TableCall.Ok hash t (.gc now windowSeconds) := trivial
    exact (tableExec_spec ht hd hok).2.1
  | gcAll =>
    have hok : TableCall.Ok hash t .gcAll := trivial
    exact (tableExec_spec ht hd hok).2.1
  | list ino maxCount => exact hd
  | find ino timestamp => exact hd

/-- **The representation of the version table.**  After every sequence of calls, in which any
allocation may fail and every record added is one that is in no list. -/
theorem table_wellFormed (hash : UInt64 → Bucket) (calls : List TableCall)
    (hnew : Along (tableStep hash) TableCall.AddsNew VersionsHtable.init calls) :
    WellFormed hash (run (tableStep hash) VersionsHtable.init calls) := by
  have hrun : TableInv hash (run (tableStep hash) VersionsHtable.init calls) ∧
      (tableView hash (run (tableStep hash) VersionsHtable.init calls)).Distinct
        CowVersion.node := by
    refine invariant_run (I := fun t => TableInv hash t ∧
      (tableView hash t).Distinct CowVersion.node) ?_ ?_ hnew
    · intro t call h hcall
      exact tableStep_inv h.1 h.2 hcall
    · refine ⟨tableInv_init, ?_⟩
      rw [tableView_init]
      exact distinct_empty
  exact hrun.1.wellFormed hrun.2

/-- The addresses of the records a call hands over. -/
def TableCall.nodes : TableCall → List ℕ
  | .add _ v _ => [v.node]
  | _ => []

lemma mem_nodes_of_added {call : TableCall} {v : CowVersion} (h : v ∈ addedBy hash t call) :
    v.node ∈ call.nodes := by
  cases call with
  | add ino w nomem =>
    simp only [addedBy] at h
    split_ifs at h
    · exact List.mem_singleton.2 (congrArg CowVersion.node (List.mem_singleton.1 h))
    · exact absurd h List.not_mem_nil
  | _ => exact absurd h List.not_mem_nil

/-- Records at addresses of their own are new when they are added. -/
lemma along_addsNew {calls : List TableCall} (ht : TableInv hash t)
    (hout : ∀ w ∈ allVersions t, w.node ∉ calls.flatMap TableCall.nodes)
    (hnd : (calls.flatMap TableCall.nodes).Nodup) :
    Along (tableStep hash) TableCall.AddsNew t calls := by
  induction calls generalizing t with
  | nil => trivial
  | cons call calls ih =>
    rw [List.flatMap_cons] at hout hnd
    obtain ⟨-, hrest, hapart⟩ := List.nodup_append.1 hnd
    obtain ⟨ht', hadded⟩ := tableStep_added ht call
    refine ⟨?_, ih ht' (fun w hw hmem => ?_) hrest⟩
    · cases call with
      | add ino v nomem =>
        exact fun w hw he => hout w hw (List.mem_append_left _ (List.mem_singleton.2 he))
      | _ => trivial
    · rcases hadded w (ht'.mem_allVersions.1 hw) with hold | hnew
      · exact hout w (ht.mem_allVersions.2 hold) (List.mem_append_right _ hmem)
      · exact hapart _ (mem_nodes_of_added hnew) _ hmem rfl

/-- An insertion without memory, 65 insertions under one inode number, of which the last evicts
the first, and a pass of the collector. -/
def fullCalls : List TableCall :=
  .add 7 (versionAlloc .write 1 0) true ::
    (List.range 65).map (fun n =>
      .add 7 (versionAlloc .write (UInt64.ofNat n + 1000000000) n) false) ++
    [.gc 2000000000 1]

lemma fullCalls_addsNew :
    Along (tableStep fun _ => 0) TableCall.AddsNew VersionsHtable.init fullCalls := by
  have hempty : ∀ w, w ∉ allVersions VersionsHtable.init := by
    simp [allVersions, VersionsHtable.init]
  refine ⟨fun w hw => absurd hw (hempty w), ?_⟩
  -- the insertion without memory leaves the table as it was
  have hexec : tableExec (fun _ => 0) VersionsHtable.init
      (.add 7 (versionAlloc .write 1 0) true) = (.freed [], VersionsHtable.init) := rfl
  rw [tableStep_of_exec hexec]
  exact along_addsNew tableInv_init (fun w hw => absurd hw (hempty w)) (by decide +kernel)

theorem table_wellFormed_full :
    WellFormed (fun _ => 0) (run (tableStep fun _ => 0) VersionsHtable.init fullCalls) :=
  table_wellFormed (fun _ => 0) fullCalls fullCalls_addsNew

/-! ## Listings -/

/-- A listing that is answered resolved its path and shows what the table has. -/
lemma ioctlList_answered {env : Env} {s : State} {path : CStr} {maxCount : UInt32}
    {φ : ListFaults} {out : List CowfsVersionInfo}
    (h : ioctlList env s path maxCount φ = .ok out) :
    ∃ ino, pathToLowerIno env s path φ.path = .ok ino ∧
      out = (versionList env.hash s.store.table ino (listCount maxCount)).map fun v =>
        ⟨v.timestamp, v.opType, strscpy pathBufSize v.shadowPath⟩ := by
  unfold ioctlList at h
  split at h
  · cases h
  split at h
  · cases h
  split at h
  · cases h
  next ino hino =>
  split at h
  · cases h
  exact ⟨ino, hino, (Except.ok.inj h).symm⟩

lemma ioctlList_length_le {env : Env} {s : State} {path : CStr} {maxCount : UInt32}
    {φ : ListFaults} {out : List CowfsVersionInfo}
    (h : ioctlList env s path maxCount φ = .ok out) : out.length ≤ 32 := by
  obtain ⟨ino, -, rfl⟩ := ioctlList_answered h
  rw [List.length_map, versionList_eq, List.length_take]
  have hcount : (listCount maxCount).toNat ≤ 32 := by
    unfold listCount iocMaxVersions
    omega
  omega

/-- **The hashed table refines the keyed log.**  For every hash function and every sequence of
calls, the table reached stands for the log reached by the same calls, and every call on the
way got the reply of the log; a `LIST` request is answered with at most 32 entries. -/
theorem table_refines_log (hash : UInt64 → Bucket) (calls : List TableCall)
    (hok : Along (tableStep hash) (TableCall.Ok hash) VersionsHtable.init calls) :
    tableView hash (run (tableStep hash) VersionsHtable.init calls) =
        run logStep KeyedLog.empty calls ∧
      (∀ past call post, calls = past ++ call :: post →
        ReplyMatches (run logStep KeyedLog.empty past) call
          (tableExec hash (run (tableStep hash) VersionsHtable.init past) call).1) ∧
      ∀ env s path maxCount φ out,
        ioctlList env s path maxCount φ = .ok out → out.length ≤ 32 := by
  refine ⟨(tableRun_spec calls hok).2.2, ?_, fun _ _ _ _ _ _ => ioctlList_length_le⟩
  rintro past call post rfl
  have hpast := ((along_append _ _ _ past (call :: post)).1 hok).1
  obtain ⟨ht, hd, hview⟩ := tableRun_spec past hpast
  obtain ⟨-, -, -, hreply⟩ := tableExec_spec ht hd hok.at
  rwa [hview] at hreply

/-- Two inode numbers in one bucket, a search, a pass of the collector that drops the older
version, and the unloading of the module. -/
def sampleCalls : List TableCall :=
  [.add 7 (versionAlloc .write 1000000000 0) false,
    .add 8 (versionAlloc .unlink 9000000000 1) false,
    .find 7 0, .gc 12000000000 5, .list 8 32, .gcAll]

lemma sampleCalls_ok :
    Along (tableStep fun _ => 0) (TableCall.Ok fun _ => 0) VersionsHtable.init sampleCalls := by
  have hfirst : TableCall.Ok (fun _ => 0) VersionsHtable.init
      (.add 7 (versionAlloc .write 1000000000 0) false) :=
    ⟨rfl, fun b hb => by simp at hb⟩
  refine ⟨hfirst, ⟨rfl, ?_⟩, trivial, trivial, trivial, trivial, trivial⟩
  have hd : (tableView (fun _ => 0) VersionsHtable.init).Distinct CowVersion.node := by
    rw [tableView_init]
    exact distinct_empty
  obtain ⟨-, -, hview, -⟩ := tableExec_spec tableInv_init hd hfirst
  rw [hview, tableView_init]
  rintro b ⟨ino, hb⟩
  rcases mem_push hb with ⟨-, rfl⟩ | hb'
  · decide
  · simp at hb'

theorem table_refines_log_sample :
    tableView (fun _ => 0) (run (tableStep fun _ => 0) VersionsHtable.init sampleCalls) =
        run logStep KeyedLog.empty sampleCalls ∧
      (∀ past call post, sampleCalls = past ++ call :: post →
        ReplyMatches (run logStep KeyedLog.empty past) call
          (tableExec (fun _ => 0) (run (tableStep fun _ => 0) VersionsHtable.init past) call).1) ∧
      ∀ env s path maxCount φ out,
        ioctlList env s path maxCount φ = .ok out → out.length ≤ 32 :=
  table_refines_log (fun _ => 0) sampleCalls sampleCalls_ok

end Cowfs
