import Cowfs.Properties.CleanSnapshot
import Cowfs.Properties.Stamps

/-!
# Versions and the contents they stand for

An entry is a version together with the content its file had when it was recorded.  A list of
entries is archived in a state when their versions are in the table under one inode number and
the shadow files of those with data hold the contents.  What may happen to the store while a
user still wants to go back keeps the archive: a call that leaves the store alone, a pass of the
collector that expires none of the entries, and, as long as there are at most 64 of them, the
recording of a further one.
-/

namespace Cowfs

open KeyedLog

variable {env : Env} {s : State} {ino : UInt64} {es : List (CowVersion × Content)}

/-- What a call records when nothing fails. -/
def recordedBy (s : State) (op : Op) : List (CowVersion × Content) :=
  match snapshotOf s op with
  | none => []
  | some x => [(x.version s.store.nextNode x.kind.copies, x.inode.data)]

/-- The versions of the entries are in the table, and their files hold the contents. -/
structure Available (env : Env) (s : State) (ino : UInt64) (es : List (CowVersion × Content)) :
    Prop where
  tidy : Tidy env s
  mem : ∀ e ∈ es, e.1 ∈ s.versions env ino
  filed : ∀ e ∈ es, e.1.hasData = true → s.store.shadowAt env e.1.shadowPath = some e.2
  nonzero : ∀ e ∈ es, e.1.timestamp ≠ 0

/-- Moreover they are the newest versions of their inode number. -/
structure Archived (env : Env) (s : State) (ino : UInt64) (es : List (CowVersion × Content)) :
    Prop extends Available env s ino es where
  listed : ∃ old, s.versions env ino = es.map Prod.fst ++ old

lemma Available.tail {e : CowVersion × Content} (h : Available env s ino (e :: es)) :
    Available env s ino es :=
  ⟨h.tidy, fun e' he => h.mem e' (List.mem_cons_of_mem e he),
    fun e' he => h.filed e' (List.mem_cons_of_mem e he),
    fun e' he => h.nonzero e' (List.mem_cons_of_mem e he)⟩

/-- Availability is a matter of the store. -/
lemma Available.of_store_eq {s' : State} (h : Available env s ino es)
    (hs : s'.store = s.store) : Available env s' ino es := by
  have hv : s'.versions env = s.versions env := by
    unfold State.versions
    rw [hs]
  refine ⟨⟨hs ▸ h.tidy.store, hv ▸ h.tidy.clock, hv ▸ h.tidy.based⟩, hv ▸ h.mem, ?_, h.nonzero⟩
  rw [hs]
  exact h.filed

lemma Archived.of_store_eq {s' : State} (h : Archived env s ino es) (hs : s'.store = s.store) :
    Archived env s' ino es := by
  refine ⟨h.toAvailable.of_store_eq hs, ?_⟩
  unfold State.versions
  rw [hs]
  exact h.listed

/-- The name of the file with the content of an entry. -/
lemma Available.base (h : Available env s ino es) {e : CowVersion × Content} (he : e ∈ es)
    (hd : e.1.hasData = true) : shadowBase e.1.shadowPath = shadowName ino e.1.timestamp :=
  h.tidy.based ino e.1 (h.mem e he) hd

/-- A pass of the collector that expires no entry. -/
lemma Available.gc (h : Available env s ino es) {now windowSeconds : UInt64} (fail : ℕ → Bool)
    (hkeep : ∀ e ∈ es, expired (gcCutoff now windowSeconds) e.1 = false) :
    Available env (step env s (.gc now windowSeconds fail)) ino es where
  tidy := h.tidy.gc now windowSeconds fail
  mem e he := by
    rw [versions_gc, prune_apply, List.mem_filter]
    exact ⟨h.mem e he, by simp [hkeep e he]⟩
  filed e he hd := by
    have hsame : (s.store.versionGc now windowSeconds fail).shadowAt env e.1.shadowPath =
        s.store.shadowAt env e.1.shadowPath :=
      h.tidy.shadowAt_gc fail (h.mem e he) hd (hkeep e he)
    rw [step_gc, hsame]
    exact h.filed e he hd
  nonzero := h.nonzero

lemma Archived.gc (h : Archived env s ino es) {now windowSeconds : UInt64} (fail : ℕ → Bool)
    (hkeep : ∀ e ∈ es, expired (gcCutoff now windowSeconds) e.1 = false) :
    Archived env (step env s (.gc now windowSeconds fail)) ino es where
  toAvailable := h.toAvailable.gc fail hkeep
  listed := by
    obtain ⟨old, hold⟩ := h.listed
    refine ⟨old.filter fun v => !expired (gcCutoff now windowSeconds) v, ?_⟩
    have hall : (es.map Prod.fst).filter (fun v => !expired (gcCutoff now windowSeconds) v) =
        es.map Prod.fst := by
      rw [List.filter_eq_self]
      intro v hv
      obtain ⟨e, he, rfl⟩ := List.mem_map.1 hv
      simp [hkeep e he]
    rw [versions_gc, prune_apply, hold, List.filter_append, hall]

/-! ## Recording a further entry -/

section Push

variable {s₀ : State} {past : List Op} {op : Op} {x : Snapshot}

/-- The copy writes the file of the new version and no other of that inode number. -/
lemma opens_ne (hx : snapshotOf s op = some x) (hfit : PathFits s op) {path : CStr} {t : UInt64}
    (hbase : shadowBase path = shadowName ino t) (hne : t ≠ x.now) :
    x.opens env s.store ≠ some (shadowPlace env path) := by
  intro hopens
  have hname := shadowBase_of_place (Snapshot.opens_eq_some.1 hopens).2
  rw [hbase, shadowBase, (path_base hx hfit).2] at hname
  exact hne (shadowName_injective hname).2

/-- A file removed with the version pushed out is the file of a version of the table. -/
lemma removes_mem (h : Tidy env s) (hino : x.inode.ino = ino) {path : CStr} {t : UInt64}
    (hbase : shadowBase path = shadowName ino t)
    (hrem : x.removes env s.store = some (shadowPlace env path)) :
    ∃ o, (s.versions env ino)[maxVersions - 1]? = some o ∧ o ∈ s.versions env ino ∧
      o.timestamp = t := by
  obtain ⟨o, ho, hrem⟩ := Option.bind_eq_some_iff.1 hrem
  split at hrem
  · cases hrem
  obtain ⟨⟨r, base⟩, hvictim, hplace⟩ := Option.map_eq_some_iff.1 hrem
  obtain ⟨hd, hname⟩ := victim_eq_some hvictim
  have hget : (s.versions env ino)[maxVersions - 1]? = some o := by
    rw [← hino]
    exact ho
  have hmem : o ∈ s.versions env ino := List.mem_of_getElem? hget
  have hpath : shadowBase path = base := shadowBase_of_locate (shadowPlace_eq_inside.1 hplace.symm)
  rw [h.based ino o hmem hd, ← hpath, hbase] at hname
  exact ⟨o, hget, hmem, (shadowName_injective hname).2⟩

/-- While there is room for the entries, the version pushed out is none of theirs. -/
lemma Archived.removes_ne (h : Archived env s ino es) (hino : x.inode.ino = ino)
    (hlen : es.length < maxVersions) {e : CowVersion × Content} (he : e ∈ es)
    (hd : e.1.hasData = true) :
    x.removes env s.store ≠ some (shadowPlace env e.1.shadowPath) := by
  intro hrem
  obtain ⟨o, hget, hmem, hts⟩ := removes_mem h.tidy hino (h.base he hd) hrem
  obtain ⟨old, hold⟩ := h.listed
  have hoe : o = e.1 := List.inj_on_of_nodup_map (h.tidy.clock ino) hmem (h.mem _ he) hts
  have hoold : o ∈ old := by
    rw [hold, List.getElem?_append_right (by rw [List.length_map]; omega)] at hget
    exact List.mem_of_getElem? hget
  have hnd := (h.tidy.clock ino).of_map
  rw [hold, List.nodup_append] at hnd
  exact hnd.2.2 e.1 (List.mem_map_of_mem he) o hoold hoe.symm

/-- A further entry, under the same inode number. -/
lemma Archived.push (h : Archived env s ino es) (hst : Stamped env s₀ past s)
    (hclock : (observe (step env) stampOf s₀ past ++ stampOf s op).Nodup)
    (hfit : PathFits s op) (ht : Tidy env (step env s op)) (hx : snapshotOf s op = some x)
    (hclean : x.Clean env s.store) (hino : x.inode.ino = ino) (hnow : x.now ≠ 0)
    (hlen : es.length < maxVersions) :
    Archived env (step env s op) ino
      ((x.version s.store.nextNode x.kind.copies, x.inode.data) :: es) := by
  have hstore : (step env s op).store = x.take env s.store := step_store_of_snapshot hx
  have hfresh : ∀ {w : CowVersion}, w ∈ s.versions env ino → w.timestamp ≠ x.now := by
    intro w hw he
    exact hst.stamp_fresh hclock hx hclean.alloc hw (by rw [he, hino])
  obtain ⟨old, hold⟩ := h.listed
  have hlisted : (step env s op).versions env ino =
      (x.version s.store.nextNode x.kind.copies :: es.map Prod.fst) ++
        old.take (maxVersions - 1 - es.length) := by
    have hview := hclean.take_versions h.tidy.store.table
    have hroom : (es.map Prod.fst).length ≤ 63 := by
      rw [List.length_map]
      exact Nat.le_of_lt_succ hlen
    unfold State.versions at hold ⊢
    rw [hstore, hview, hino, push_self, maxVersions, List.take_succ_cons, hold, List.take_append,
      List.take_of_length_le hroom, List.length_map, List.cons_append]
  refine ⟨⟨ht, ?_, ?_, ?_⟩, _, hlisted⟩
  · intro e he
    rw [hlisted]
    exact List.mem_append_left _ (List.mem_map_of_mem (f := Prod.fst) he)
  · intro e he hd
    rw [hstore]
    rcases List.mem_cons.1 he with rfl | he
    · have hcopies : x.kind.copies = true := hd
      have hbase : shadowBase x.path = shadowName ino x.now := by
        rw [shadowBase, (path_base hx hfit).2, hino]
      have hkept : x.removes env s.store ≠ some (shadowPlace env x.path) := by
        intro hrem
        obtain ⟨o, -, hmem, hts⟩ := removes_mem h.tidy hino hbase hrem
        exact hfresh hmem hts
      dsimp only
      rw [hcopies, Snapshot.version_shadowPath, Store.shadowAt,
        hclean.take_fileIn h.tidy.store.table, if_neg hkept, if_pos (hclean.opens hcopies)]
    · rw [Store.shadowAt, hclean.take_fileIn h.tidy.store.table,
        if_neg (h.removes_ne hino hlen he hd),
        if_neg (opens_ne hx hfit (h.base he hd) (hfresh (h.mem _ he)))]
      exact h.filed e he hd
  · intro e he
    rcases List.mem_cons.1 he with rfl | he
    · exact hnow
    · exact h.nonzero e he

end Push

end Cowfs
