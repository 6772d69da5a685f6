import Cowfs.Construction.VersionMemory
import Cowfs.Properties.TableRefinement

/-!
# The memory of the version table

`Layout` says what is at which address: the records of the inode numbers, the chain of each
bucket, and the versions a collector has in its hands.  A memory represents a layout when its
rings and chains are those of the layout, with nothing shared, and the records read as they
should (`Represents`).  Each pointer operation leads from a memory that represents a layout to one
that represents the layout changed at one place; the loops follow the lists of `Versions`.
-/

namespace Cowfs

open VersionMemory

/-! ## Layouts -/

structure Layout where
  /-- The record at an address. -/
  cells : ℕ → Option CowInodeInfo
  buckets : Bucket → List ℕ
  /-- The list `freed` of a collector at work. -/
  freed : Option (List CowVersion)

def nodesOf (vs : List CowVersion) : List ListHead := vs.map fun v => .node v.node

def CowInodeInfo.cell (info : CowInodeInfo) : InfoCell := ⟨info.lowerIno, info.versionCount⟩

namespace Layout

def init : Layout := ⟨fun _ => none, fun _ => [], none⟩

/-- The table the layout holds. -/
def table (A : Layout) : VersionsHtable := fun b => (A.buckets b).filterMap A.cells

/-- The elements of each list head. -/
def rings (A : Layout) : ListHead → Option (List ListHead)
  | .versions i => (A.cells i).map fun info => nodesOf info.versions
  | .freed => A.freed.map nodesOf
  | .node _ => none

def setCell (A : Layout) (i : ℕ) (info : CowInodeInfo) : Layout :=
  { A with cells := Function.update A.cells i (some info) }

def setFreed (A : Layout) (freed : Option (List CowVersion)) : Layout :=
  { A with freed := freed }

@[simp] lemma setCell_cells (A : Layout) (i : ℕ) (info : CowInodeInfo) :
    (A.setCell i info).cells = Function.update A.cells i (some info) := rfl
@[simp] lemma setCell_buckets (A : Layout) (i : ℕ) (info : CowInodeInfo) :
    (A.setCell i info).buckets = A.buckets := rfl
@[simp] lemma setCell_freed (A : Layout) (i : ℕ) (info : CowInodeInfo) :
    (A.setCell i info).freed = A.freed := rfl
@[simp] lemma setFreed_cells (A : Layout) (freed : Option (List CowVersion)) :
    (A.setFreed freed).cells = A.cells := rfl
@[simp] lemma setFreed_buckets (A : Layout) (freed : Option (List CowVersion)) :
    (A.setFreed freed).buckets = A.buckets := rfl
@[simp] lemma setFreed_freed (A : Layout) (freed : Option (List CowVersion)) :
    (A.setFreed freed).freed = freed := rfl

lemma setCell_setCell (A : Layout) (i : ℕ) (info info' : CowInodeInfo) :
    (A.setCell i info).setCell i info' = A.setCell i info' := by simp [setCell]

lemma setCell_self {A : Layout} {i : ℕ} {info : CowInodeInfo} (h : A.cells i = some info) :
    A.setCell i info = A := by rw [setCell, ← h, Function.update_eq_self]

lemma setFreed_self {A : Layout} {freed : Option (List CowVersion)} (h : A.freed = freed) :
    A.setFreed freed = A := by rw [setFreed, ← h]

/-- A record, and what was taken from it. -/
def put (A : Layout) (i : ℕ) (info : CowInodeInfo) (freed : List CowVersion) : Layout :=
  (A.setCell i info).setFreed (some freed)

lemma put_cells (A : Layout) (i : ℕ) (info : CowInodeInfo) (freed : List CowVersion) :
    (A.put i info freed).cells i = some info := Function.update_self ..

lemma put_put (A : Layout) (i : ℕ) (info info' : CowInodeInfo) (freed freed' : List CowVersion) :
    (A.put i info freed).put i info' freed' = A.put i info' freed' := by
  simp [put, setCell, setFreed]

lemma put_self {A : Layout} {i : ℕ} {info : CowInodeInfo} {freed : List CowVersion}
    (hi : A.cells i = some info) (hfreed : A.freed = some freed) : A.put i info freed = A := by
  rw [put, setCell_self hi, setFreed_self hfreed]

/-- The list of the record at `i` is what `o` says. -/
lemma rings_update (A : Layout) (i : ℕ) (o : Option CowInodeInfo) (buckets : Bucket → List ℕ) :
    Layout.rings ⟨Function.update A.cells i o, buckets, A.freed⟩ =
      Function.update A.rings (.versions i) (o.map fun info => nodesOf info.versions) := by
  funext h
  cases h with
  | versions j =>
    by_cases hj : j = i
    · subst hj
      simp [rings]
    · simp [rings, hj]
  | node v => rfl
  | freed => rfl

lemma rings_setCell (A : Layout) (i : ℕ) (info : CowInodeInfo) :
    (A.setCell i info).rings =
      Function.update A.rings (.versions i) (some (nodesOf info.versions)) :=
  A.rings_update i (some info) A.buckets

lemma rings_setFreed (A : Layout) (freed : Option (List CowVersion)) :
    (A.setFreed freed).rings = Function.update A.rings .freed (freed.map nodesOf) := by
  funext h
  cases h <;> simp [rings]

end Layout

structure Represents (hash : UInt64 → Bucket) (m : VersionMemory) (A : Layout) : Prop where
  rings : m.lists.Holds A.rings
  chains : m.chains.Holds A.buckets
  infos : ∀ i, m.infos i = (A.cells i).map CowInodeInfo.cell
  home : ∀ b i, i ∈ A.buckets b ↔ ∃ info, A.cells i = some info ∧ hash info.lowerIno = b
  data : ∀ i info, A.cells i = some info → ∀ v ∈ info.versions, m.versions v.node = some v
  freedData : ∀ vs, A.freed = some vs → ∀ v ∈ vs, m.versions v.node = some v
  unused : ∀ i, m.nextInfo ≤ i → A.cells i = none

variable {hash : UInt64 → Bucket} {m : VersionMemory} {A : Layout} {i : ℕ} {info : CowInodeInfo}
  {v : CowVersion} {fuel : ℕ}

lemma represents_init : Represents hash .init .init where
  rings := by
    have hnone : Layout.init.rings = fun _ => none := by
      funext h
      cases h <;> rfl
    rw [hnone]
    exact Links.holds_none _
  chains := Chains.holds_nil
  infos _ := rfl
  home b i := by simp [Layout.init]
  data _ _ h := by cases h
  freedData _ h := by cases h
  unused _ _ := rfl

namespace Represents

/-! ## One pointer operation -/

/-- The record at `i` changes, and with it its list. -/
lemma setCell (hm : Represents hash m A) (hi : A.cells i = some info) (info' : CowInodeInfo)
    (m' : VersionMemory) (hino : info'.lowerIno = info.lowerIno)
    (hdata : ∀ v ∈ info'.versions, m.versions v.node = some v)
    (hlists : m'.lists.Holds (A.setCell i info').rings)
    (hinfos : m'.infos = Function.update m.infos i (some info'.cell))
    (hchains : m'.chains = m.chains) (hversions : m'.versions = m.versions)
    (hnext : m'.nextInfo = m.nextInfo) : Represents hash m' (A.setCell i info') where
  rings := hlists
  chains := hchains ▸ hm.chains
  infos j := by
    rw [hinfos]
    by_cases hj : j = i
    · subst hj
      simp
    · simp [hj, hm.infos j]
  home b j := by
    rw [Layout.setCell_buckets, hm.home b j]
    by_cases hj : j = i
    · subst hj
      simp [hi, hino]
    · simp [hj]
  data j info₁ hj v hv := by
    rw [hversions]
    by_cases he : j = i
    · subst he
      rw [Layout.setCell_cells, Function.update_self] at hj
      obtain rfl := Option.some.inj hj
      exact hdata v hv
    · rw [Layout.setCell_cells, Function.update_of_ne he] at hj
      exact hm.data j info₁ hj v hv
  freedData := hversions ▸ hm.freedData
  unused j hj := by
    rw [hnext] at hj
    have hne : j ≠ i := by
      rintro rfl
      rw [hm.unused j hj] at hi
      cases hi
    rw [Layout.setCell_cells, Function.update_of_ne hne]
    exact hm.unused j hj

lemma setFreed (hm : Represents hash m A) {freed : Option (List CowVersion)}
    (hdata : ∀ vs, freed = some vs → ∀ v ∈ vs, m.versions v.node = some v)
    {lists : Links ListHead} (hlists : lists.Holds (A.setFreed freed).rings) :
    Represents hash { m with lists := lists } (A.setFreed freed) where
  rings := hlists
  chains := hm.chains
  infos := hm.infos
  home := hm.home
  data := hm.data
  freedData := hdata
  unused := hm.unused

lemma infos_of (hm : Represents hash m A) (hi : A.cells i = some info) :
    m.infos i = some info.cell := by rw [hm.infos i, hi, Option.map_some]

/-- A version is taken out of the list of its record. -/
lemma listDel (hm : Represents hash m A) (hi : A.cells i = some info) {kept todo : List CowVersion}
    (hvs : info.versions = kept ++ v :: todo) :
    ∃ m', m.listDel (.node v.node) = some m' ∧
      Represents hash m' (A.setCell i { info with versions := kept ++ todo }) ∧
      Links.Loose (A.setCell i { info with versions := kept ++ todo }).rings (.node v.node) ∧
      m'.versions = m.versions := by
  have hring : A.rings (.versions i) = some (nodesOf kept ++ .node v.node :: nodesOf todo) := by
    simp [Layout.rings, hi, hvs, nodesOf]
  obtain ⟨lists, hdel, hlists, hloose⟩ := hm.rings.del hring
  have hnew : (A.setCell i { info with versions := kept ++ todo }).rings =
      Function.update A.rings (.versions i) (some (nodesOf kept ++ nodesOf todo)) := by
    simp [Layout.rings_setCell, nodesOf]
  have hcell : m.infos = Function.update m.infos i (some info.cell) := by
    rw [← hm.infos_of hi, Function.update_eq_self]
  refine ⟨{ m with lists := lists }, by rw [VersionMemory.listDel, hdel, Option.map_some], ?_,
    hnew ▸ hloose, rfl⟩
  refine hm.setCell hi _ _ rfl (fun w hw => ?_) (by rw [hnew]; exact hlists) hcell rfl rfl rfl
  have hmem : w ∈ info.versions := by
    rw [hvs]
    simp only [List.mem_append, List.mem_cons] at hw ⊢
    tauto
  exact hm.data i info hi w hmem

/-- A version goes in front of the list of a record. -/
lemma listAdd (hm : Represents hash m A) (hi : A.cells i = some info)
    (hloose : Links.Loose A.rings (.node v.node)) (hv : m.versions v.node = some v) :
    ∃ m', m.listAdd (.node v.node) (.versions i) = some m' ∧
      Represents hash m' (A.setCell i { info with versions := v :: info.versions }) ∧
      m'.versions = m.versions := by
  have hring : A.rings (.versions i) = some (nodesOf info.versions) := by simp [Layout.rings, hi]
  obtain ⟨lists, hadd, hlists⟩ := hm.rings.add hring hloose
  have hcell : m.infos = Function.update m.infos i (some info.cell) := by
    rw [← hm.infos_of hi, Function.update_eq_self]
  refine ⟨{ m with lists := lists }, by rw [VersionMemory.listAdd, hadd, Option.map_some], ?_,
    rfl⟩
  refine hm.setCell hi _ _ rfl (fun w hw => ?_) ?_ hcell rfl rfl rfl
  · rcases List.mem_cons.1 hw with rfl | hw
    · exact hv
    · exact hm.data i info hi w hw
  · rw [Layout.rings_setCell]
    exact hlists

/-- The counter of a record changes. -/
lemma addCount (hm : Represents hash m A) (hi : A.cells i = some info) (d : ℤ) :
    ∃ m', m.addCount i d = some m' ∧
      Represents hash m' (A.setCell i { info with versionCount := info.versionCount + d }) ∧
      (A.setCell i { info with versionCount := info.versionCount + d }).rings = A.rings ∧
      m'.versions = m.versions := by
  have hrings :
      (A.setCell i { info with versionCount := info.versionCount + d }).rings = A.rings := by
    rw [Layout.rings_setCell]
    refine Function.update_eq_self_iff.2 ?_
    simp [Layout.rings, hi]
  refine ⟨m.setInfo i (some { info.cell with versionCount := info.versionCount + d }),
    by rw [VersionMemory.addCount, hm.infos_of hi]; rfl, ?_, hrings, rfl⟩
  refine hm.setCell hi _ _ rfl (fun w hw => hm.data i info hi w hw) ?_ rfl rfl rfl rfl
  rw [hrings]
  exact hm.rings

/-- A version goes in front of `freed`. -/
lemma listAdd_freed (hm : Represents hash m A) {freed : List CowVersion}
    (hfreed : A.freed = some freed) (hloose : Links.Loose A.rings (.node v.node))
    (hv : m.versions v.node = some v) :
    ∃ m', m.listAdd (.node v.node) .freed = some m' ∧
      Represents hash m' (A.setFreed (some (v :: freed))) ∧ m'.versions = m.versions := by
  have hring : A.rings .freed = some (nodesOf freed) := by simp [Layout.rings, hfreed]
  obtain ⟨lists, hadd, hlists⟩ := hm.rings.add hring hloose
  refine ⟨{ m with lists := lists }, by rw [VersionMemory.listAdd, hadd, Option.map_some],
    hm.setFreed (fun vs hvs w hw => ?_) ?_, rfl⟩
  · obtain rfl := Option.some.inj hvs
    rcases List.mem_cons.1 hw with rfl | hw
    · exact hv
    · exact hm.freedData freed hfreed w hw
  · rw [Layout.rings_setFreed]
    exact hlists

/-- The first version is taken out of `freed`. -/
lemma listDel_freed (hm : Represents hash m A) {todo : List CowVersion}
    (hfreed : A.freed = some (v :: todo)) :
    ∃ m', m.listDel (.node v.node) = some m' ∧ Represents hash m' (A.setFreed (some todo)) ∧
      Links.Loose (A.setFreed (some todo)).rings (.node v.node) ∧ m'.versions = m.versions := by
  have hring : A.rings .freed = some ([] ++ .node v.node :: nodesOf todo) := by
    simp [Layout.rings, hfreed, nodesOf]
  obtain ⟨lists, hdel, hlists, hloose⟩ := hm.rings.del hring
  have hnew : (A.setFreed (some todo)).rings =
      Function.update A.rings .freed (some ([] ++ nodesOf todo)) := by
    simp [Layout.rings_setFreed]
  refine ⟨{ m with lists := lists }, by rw [VersionMemory.listDel, hdel, Option.map_some],
    hm.setFreed (fun vs hvs w hw => ?_) (by rw [hnew]; exact hlists), hnew ▸ hloose, rfl⟩
  obtain rfl := Option.some.inj hvs
  exact hm.freedData _ hfreed w (List.mem_cons_of_mem v hw)

/-- A record that is in no list is nobody's. -/
lemma setVersion (hm : Represents hash m A) {n : ℕ} (hn : Links.Loose A.rings (.node n))
    (o : Option CowVersion) : Represents hash (m.setVersion n o) A where
  rings := hm.rings
  chains := hm.chains
  infos := hm.infos
  home := hm.home
  data i info hi w hw := by
    have hmem : ListHead.node w.node ∈ ListHead.versions i :: nodesOf info.versions :=
      List.mem_cons_of_mem _ (List.mem_map_of_mem hw)
    have hne : w.node ≠ n := fun he =>
      hn (.versions i) (nodesOf info.versions) (by simp [Layout.rings, hi]) (he ▸ hmem)
    exact (Function.update_of_ne hne ..).trans (hm.data i info hi w hw)
  freedData vs hvs w hw := by
    have hmem : ListHead.node w.node ∈ ListHead.freed :: nodesOf vs :=
      List.mem_cons_of_mem _ (List.mem_map_of_mem hw)
    have hne : w.node ≠ n := fun he =>
      hn .freed (nodesOf vs) (by simp [Layout.rings, hvs]) (he ▸ hmem)
    exact (Function.update_of_ne hne ..).trans (hm.freedData vs hvs w hw)
  unused := hm.unused

/-- A list head without elements. -/
lemma initFreed (hm : Represents hash m A) (hfreed : A.freed = none) :
    Represents hash (m.initListHead .freed) (A.setFreed (some [])) := by
  refine hm.setFreed (fun vs hvs w hw => ?_) ?_
  · obtain rfl := Option.some.inj hvs
    exact absurd hw List.not_mem_nil
  · rw [Layout.rings_setFreed]
    refine hm.rings.initHead fun h xs hxs hmem => ?_
    cases h with
    | freed => simp [Layout.rings, hfreed] at hxs
    | node v => cases hxs
    | versions i =>
      obtain ⟨info, -, rfl⟩ := Option.map_eq_some_iff.1 hxs
      simp [nodesOf] at hmem

/-- The call returns, and its list head is gone. -/
lemma dropFreed (hm : Represents hash m A) : Represents hash m (A.setFreed none) := by
  refine hm.setFreed (fun vs hvs => by cases hvs) ?_
  rw [Layout.rings_setFreed]
  exact hm.rings.drop .freed

/-! ## One list -/

lemma rings_cell (hi : A.cells i = some info) :
    A.rings (.versions i) = some (nodesOf info.versions) := by simp [Layout.rings, hi]

lemma rings_freed {freed : List CowVersion} (h : A.freed = some freed) :
    A.rings .freed = some (nodesOf freed) := by simp [Layout.rings, h]

/-- A walk over versions that may go elsewhere; `J` is what holds with some of them still to be
visited. -/
lemma walk_versions {σ : Type} (mem : σ → VersionMemory) {h : ListHead}
    {body : ListHead → σ → Option σ} (J : List CowVersion → σ → Prop)
    (hring : ∀ todo s, J todo s →
      ∃ kept A, Represents hash (mem s) A ∧ A.rings h = some (nodesOf (kept ++ todo)))
    (hbody : ∀ v todo s, J (v :: todo) s → ∃ s', body (.node v.node) s = some s' ∧ J todo s')
    {vs : List CowVersion} (hfuel : vs.length < fuel) {s : σ} (hm : Represents hash (mem s) A)
    (hvs : A.rings h = some (nodesOf vs)) (hJ : J vs s) :
    ∃ s', Links.forEachSafe (fun s => (mem s).lists) h body fuel s = some s' ∧ J [] s' := by
  have hlen : (nodesOf vs).length < fuel := by rwa [nodesOf, List.length_map]
  obtain ⟨s', hs', todo, htodo, hJ'⟩ := Links.forEachSafe_rule
    (fun _ xs s => ∃ todo, xs = nodesOf todo ∧ J todo s)
    (fun _ xs s hI => by
      obtain ⟨todo, rfl, hJ⟩ := hI
      obtain ⟨kept, A, hA, hr⟩ := hring todo s hJ
      refine ⟨nodesOf kept, ?_⟩
      have hsplit : nodesOf (kept ++ todo) = nodesOf kept ++ nodesOf todo := List.map_append
      exact hsplit ▸ hA.rings.ring h _ hr)
    (fun _ x xs s hI => by
      obtain ⟨todo, htodo, hJ⟩ := hI
      cases todo with
      | nil => cases htodo
      | cons v todo =>
        obtain ⟨rfl, rfl⟩ := List.cons.inj htodo
        obtain ⟨s', hs', hJ'⟩ := hbody v todo s hJ
        exact ⟨s', hs', todo, rfl, hJ'⟩)
    hlen (hm.rings.ring h _ hvs) ⟨vs, rfl, hJ⟩
  cases todo with
  | nil => exact ⟨s', hs', hJ'⟩
  | cons v todo => cases htodo

end Represents

/-! ## The collectors on one record -/

/-- What `gcScan` does to the record at `i`. -/
def Layout.gcCell (cutoff : UInt64) (A : Layout) (i : ℕ) : Layout :=
  match A.cells i, A.freed with
  | some info, some freed =>
    let r := gcScan cutoff info.versions info.versionCount freed
    A.put i ⟨info.lowerIno, r.1, r.2.1⟩ r.2.2
  | _, _ => A

lemma gcVersion_spec (hm : Represents hash m A) (hi : A.cells i = some info)
    {kept todo freed : List CowVersion} (hvs : info.versions = kept ++ v :: todo)
    (hfreed : A.freed = some freed) (cutoff : UInt64) :
    ∃ m', gcVersion cutoff i (.node v.node) m = some m' ∧
      Represents hash m' (if v.timestamp < cutoff then
        A.put i ⟨info.lowerIno, kept ++ todo, info.versionCount - 1⟩ (v :: freed) else A) := by
  have hv : m.versions v.node = some v := hm.data i info hi v (by simp [hvs])
  by_cases hold : v.timestamp < cutoff
  · obtain ⟨m₁, hdel, hm₁, hloose, hv₁⟩ := hm.listDel hi hvs
    obtain ⟨m₂, hcount, hm₂, hrings, hv₂⟩ := hm₁.addCount (Function.update_self ..) (-1)
    rw [Layout.setCell_setCell] at hm₂ hrings
    obtain ⟨m₃, hadd, hm₃, -⟩ := hm₂.listAdd_freed (v := v) hfreed (by rw [hrings]; exact hloose)
      (by rw [hv₂, hv₁, hv])
    refine ⟨m₃, ?_, by rw [if_pos hold]; exact hm₃⟩
    simp [gcVersion, ListHead.entry, hv, hold, hdel, hcount, hadd]
  · exact ⟨m, by simp [gcVersion, ListHead.entry, hv, hold], by rwa [if_neg hold]⟩

lemma gcList_spec (hm : Represents hash m A) (hi : A.cells i = some info)
    {freed : List CowVersion} (hfreed : A.freed = some freed) (cutoff : UInt64)
    (hfuel : info.versions.length < fuel) :
    ∃ m', Links.forEachSafe lists (.versions i) (gcVersion cutoff i) fuel m = some m' ∧
      Represents hash m' (A.gcCell cutoff i) := by
  obtain ⟨m', hm', kept, count, freed', hrep, hscan⟩ := Represents.walk_versions id
    (fun todo m' => ∃ kept count freed',
      Represents hash m' (A.put i ⟨info.lowerIno, kept ++ todo, count⟩ freed') ∧
      gcScan cutoff info.versions info.versionCount freed =
        (kept ++ (gcScan cutoff todo count freed').1, (gcScan cutoff todo count freed').2))
    (fun todo m' hJ => by
      obtain ⟨kept, count, freed', hrep, -⟩ := hJ
      exact ⟨kept, _, hrep, Represents.rings_cell (A.put_cells i ⟨_, kept ++ todo, count⟩ freed')⟩)
    (fun v todo m' hJ => by
      obtain ⟨kept, count, freed', hrep, hscan⟩ := hJ
      obtain ⟨m'', hm'', hrep'⟩ := gcVersion_spec hrep (A.put_cells i _ freed') rfl rfl cutoff
      refine ⟨m'', hm'', ?_⟩
      by_cases hold : v.timestamp < cutoff
      · rw [if_pos hold, Layout.put_put] at hrep'
        refine ⟨kept, count - 1, v :: freed', hrep', ?_⟩
        rw [hscan, gcScan, if_pos hold]
      · rw [if_neg hold] at hrep'
        refine ⟨kept ++ [v], count, freed', by simpa using hrep', ?_⟩
        rw [hscan, gcScan, if_neg hold]
        simp)
    hfuel hm (Represents.rings_cell hi)
    ⟨[], _, _, (Layout.put_self hi hfreed).symm ▸ hm, by simp⟩
  refine ⟨m', hm', ?_⟩
  rw [Layout.gcCell, hi, hfreed]
  simp only [hscan, gcScan]
  exact hrep

lemma drainVersion_spec (hm : Represents hash m A) (hi : A.cells i = some info)
    {todo freed : List CowVersion} (hvs : info.versions = v :: todo)
    (hfreed : A.freed = some freed) :
    ∃ m', drainVersion (.node v.node) m = some m' ∧
      Represents hash m' (A.put i { info with versions := todo } (v :: freed)) := by
  have hv : m.versions v.node = some v := hm.data i info hi v (by simp [hvs])
  have hsplit : info.versions = [] ++ v :: todo := hvs
  obtain ⟨m₁, hdel, hm₁, hloose, hv₁⟩ := hm.listDel hi hsplit
  obtain ⟨m₂, hadd, hm₂, -⟩ := hm₁.listAdd_freed (v := v) hfreed hloose (by rw [hv₁, hv])
  exact ⟨m₂, by rw [drainVersion, hdel, Option.bind_some, hadd], hm₂⟩

lemma drainList_spec (hm : Represents hash m A) (hi : A.cells i = some info)
    {freed : List CowVersion} (hfreed : A.freed = some freed)
    (hfuel : info.versions.length < fuel) :
    ∃ m', Links.forEachSafe lists (.versions i) drainVersion fuel m = some m' ∧
      Represents hash m'
        (A.put i { info with versions := [] } (drainVersions info.versions freed)) := by
  obtain ⟨m', hm', freed', hrep, hdrain⟩ := Represents.walk_versions id
    (fun todo m' => ∃ freed', Represents hash m' (A.put i { info with versions := todo } freed') ∧
      drainVersions info.versions freed = drainVersions todo freed')
    (fun todo m' hJ => by
      obtain ⟨freed', hrep, -⟩ := hJ
      exact ⟨[], _, hrep, Represents.rings_cell
        (A.put_cells i { info with versions := todo } freed')⟩)
    (fun v todo m' hJ => by
      obtain ⟨freed', hrep, hdrain⟩ := hJ
      obtain ⟨m'', hm'', hrep'⟩ := drainVersion_spec hrep (A.put_cells i _ freed') rfl rfl
      rw [Layout.put_put] at hrep'
      exact ⟨m'', hm'', v :: freed', hrep', hdrain⟩)
    hfuel hm (Represents.rings_cell hi) ⟨freed, (Layout.put_self hi hfreed).symm ▸ hm, rfl⟩
  rw [hdrain]
  exact ⟨m', hm', hrep⟩

/-- The versions collected are released in order, and their records are gone. -/
lemma releaseFreed_spec (hm : Represents hash m A) {freed : List CowVersion}
    (hfreed : A.freed = some freed) (hfuel : freed.length < fuel) :
    ∃ m', m.releaseFreed fuel = some (freed.map CowVersion.node, m') ∧
      Represents hash m' (A.setFreed none) := by
  obtain ⟨⟨out, m'⟩, hm', hrep, hout⟩ := Represents.walk_versions
    (fun acc : List ℕ × VersionMemory => acc.2)
    (fun todo acc => Represents hash acc.2 (A.setFreed (some todo)) ∧
      acc.1 ++ todo.map CowVersion.node = freed.map CowVersion.node)
    (fun todo acc hJ => ⟨[], _, hJ.1, Represents.rings_freed rfl⟩)
    (fun v todo acc hJ => by
      obtain ⟨hrep, hout⟩ := hJ
      have hv : acc.2.versions v.node = some v := hrep.freedData _ rfl v List.mem_cons_self
      obtain ⟨m₁, hdel, hm₁, hloose, hv₁⟩ := hrep.listDel_freed rfl
      refine ⟨(acc.1 ++ [v.node], m₁.setVersion v.node none), ?_, hm₁.setVersion hloose none, ?_⟩
      · show releaseVersion (.node v.node) acc = _
        simp [releaseVersion, hdel, ListHead.entry, VersionMemory.versionFree, hv₁, hv]
      · simpa using hout)
    hfuel (s := ([], m)) hm (Represents.rings_freed hfreed)
    ⟨(Layout.setFreed_self hfreed).symm ▸ hm, (List.nil_append _ : ([] : List ℕ) ++ _ = _)⟩
  rw [List.map_nil, List.append_nil] at hout
  refine ⟨m', ?_, hrep.dropFreed⟩
  rw [← hout]
  exact hm'

/-! ## The loops over the table -/

/-- The records in the order of `hash_for_each`. -/
def addresses (buckets : Bucket → List ℕ) : List ℕ := (List.finRange 256).flatMap buckets

/-- The rule of `hash_for_each`; `I` knows the records visited. -/
lemma hashForEach_rule {σ : Type} (mem : σ → VersionMemory) (body : ℕ → σ → Option σ)
    (buckets : Bucket → List ℕ) (I : List ℕ → σ → Prop)
    (hholds : ∀ done s, I done s → (mem s).chains.Holds buckets)
    (hbody : ∀ done x rest s, addresses buckets = done ++ x :: rest → I done s →
      ∃ s', body x s = some s' ∧ I (done ++ [x]) s')
    (hfuel : ∀ b, (buckets b).length < fuel) {s : σ} (hI : I [] s) :
    ∃ s', hashForEach fuel mem body s = some s' ∧ I (addresses buckets) s' := by
  unfold hashForEach addresses at *
  generalize List.finRange 256 = bs at *
  have hloop : ∃ s', bs.foldlM (fun s b =>
      Chains.walk (fun s => (mem s).chains) body fuel ((mem s).chains.first b) s) s = some s' ∧
      (bs = bs ++ [] ∧ I (bs.flatMap buckets) s') := by
    refine foldlM_rule (fun (pre post : List Bucket) s => bs = pre ++ post ∧
      I (pre.flatMap buckets) s) ?_ ⟨rfl, hI⟩
    rintro pre b post s ⟨hall, hI⟩
    have hsplit : bs.flatMap buckets =
        pre.flatMap buckets ++ (buckets b ++ post.flatMap buckets) := by
      rw [hall, List.flatMap_append, List.flatMap_cons]
    obtain ⟨s', hs', -, hI'⟩ := Chains.walk_rule body
      (fun done todo s => buckets b = done ++ todo ∧ I (pre.flatMap buckets ++ done) s)
      (fun done x todo s hK => (hholds _ s hK.2).next
        (hK.1.trans (List.append_cons done x todo).symm))
      (fun done x todo s hK => by
        obtain ⟨hb, hI⟩ := hK
        obtain ⟨s', hs', hI'⟩ := hbody (pre.flatMap buckets ++ done) x
          (todo ++ post.flatMap buckets) s (by rw [hsplit, hb]; simp) hI
        exact ⟨s', hs', hb.trans (List.append_cons done x todo), by simpa using hI'⟩)
      (hfuel b) ⟨rfl, by simpa using hI⟩
    refine ⟨s', ?_, by simpa using hall, by simpa using hI'⟩
    rw [(hholds _ s hI).first b]
    exact hs'
  obtain ⟨s', hs', -, hI'⟩ := hloop
  exact ⟨s', hs', hI'⟩

lemma Represents.nodup_addresses (hm : Represents hash m A) : (addresses A.buckets).Nodup := by
  rw [addresses, List.nodup_flatMap]
  refine ⟨fun b _ => hm.chains.nodup b, (List.nodup_finRange 256).imp fun {b b'} hne i hi hi' => ?_⟩
  exact hne (hm.chains.apart b b' i hi hi')

lemma mem_addresses {buckets : Bucket → List ℕ} : i ∈ addresses buckets ↔ ∃ b, i ∈ buckets b := by
  simp [addresses]

lemma Represents.cell_of_mem (hm : Represents hash m A) (hi : i ∈ addresses A.buckets) :
    ∃ info, A.cells i = some info := by
  obtain ⟨b, hb⟩ := mem_addresses.1 hi
  obtain ⟨info, hinfo, -⟩ := (hm.home b i).1 hb
  exact ⟨info, hinfo⟩

/-! ## `cowfs_version_gc` -/

namespace Layout

variable {cutoff : UInt64} {is : List ℕ}

lemma gcCell_buckets (cutoff : UInt64) (A : Layout) (i : ℕ) :
    (A.gcCell cutoff i).buckets = A.buckets := by
  unfold gcCell
  split <;> rfl

lemma gcCell_cells_of_ne {j : ℕ} (h : j ≠ i) : (A.gcCell cutoff i).cells j = A.cells j := by
  unfold gcCell
  split
  · exact Function.update_of_ne h ..
  · rfl

lemma gcCells_buckets (cutoff : UInt64) (A : Layout) (is : List ℕ) :
    (is.foldl (gcCell cutoff) A).buckets = A.buckets := by
  induction is generalizing A with
  | nil => rfl
  | cons i is ih => rw [List.foldl_cons, ih, gcCell_buckets]

lemma gcCells_cells_of_notMem {j : ℕ} (h : j ∉ is) :
    (is.foldl (gcCell cutoff) A).cells j = A.cells j := by
  induction is generalizing A with
  | nil => rfl
  | cons i is ih =>
    rw [List.foldl_cons, ih (List.not_mem_of_not_mem_cons h),
      gcCell_cells_of_ne (List.ne_of_not_mem_cons h)]

lemma gcCells_cells {j : ℕ} (h : ∃ info, A.cells j = some info) :
    ∃ info, (is.foldl (gcCell cutoff) A).cells j = some info := by
  induction is generalizing A with
  | nil => exact h
  | cons i is ih =>
    refine ih ?_
    by_cases hj : j = i
    · subst hj
      unfold gcCell
      split
      · exact ⟨_, put_cells ..⟩
      · exact h
    · rwa [gcCell_cells_of_ne hj]

lemma gcCells_freed (cutoff : UInt64) (is : List ℕ) (h : ∃ freed, A.freed = some freed) :
    ∃ freed, (is.foldl (gcCell cutoff) A).freed = some freed := by
  induction is generalizing A with
  | nil => exact h
  | cons i is ih =>
    refine ih ?_
    unfold gcCell
    split
    · exact ⟨_, rfl⟩
    · exact h

lemma filterMap_congr_cells {B : Layout} (h : ∀ j ∈ is, B.cells j = A.cells j) :
    is.filterMap B.cells = is.filterMap A.cells :=
  List.filterMap_congr h

/-- One bucket, as `gcBucket` goes through it. -/
lemma gcCells_bucket (cutoff : UInt64) (hnodup : is.Nodup)
    (hall : ∀ i ∈ is, ∃ info, A.cells i = some info) {freed : List CowVersion}
    (hfreed : A.freed = some freed) :
    is.filterMap (is.foldl (gcCell cutoff) A).cells =
        (gcBucket cutoff (is.filterMap A.cells) freed).1 ∧
      (is.foldl (gcCell cutoff) A).freed =
        some (gcBucket cutoff (is.filterMap A.cells) freed).2 := by
  induction is generalizing A freed with
  | nil => exact ⟨rfl, hfreed⟩
  | cons i is ih =>
    obtain ⟨hi, his⟩ := List.nodup_cons.1 hnodup
    obtain ⟨info, hinfo⟩ := hall i List.mem_cons_self
    have hne : ∀ j ∈ is, j ≠ i := fun j hj he => hi (he ▸ hj)
    have hput : A.gcCell cutoff i =
        A.put i ⟨info.lowerIno, (gcScan cutoff info.versions info.versionCount freed).1,
          (gcScan cutoff info.versions info.versionCount freed).2.1⟩
          (gcScan cutoff info.versions info.versionCount freed).2.2 := by
      rw [gcCell, hinfo, hfreed]
    have hsame : ∀ j ∈ is, (A.gcCell cutoff i).cells j = A.cells j := fun j hj =>
      gcCell_cells_of_ne (hne j hj)
    have hfreed₁ : (A.gcCell cutoff i).freed =
        some (gcScan cutoff info.versions info.versionCount freed).2.2 := by
      rw [hput]
      rfl
    obtain ⟨hcells, hfreed'⟩ := ih (A := A.gcCell cutoff i) his
      (fun j hj => by rw [hsame j hj]; exact hall j (List.mem_cons_of_mem i hj))
      hfreed₁
    have hself : ((i :: is).foldl (gcCell cutoff) A).cells i =
        some ⟨info.lowerIno, (gcScan cutoff info.versions info.versionCount freed).1,
          (gcScan cutoff info.versions info.versionCount freed).2.1⟩ := by
      rw [List.foldl_cons, gcCells_cells_of_notMem hi, hput, put_cells]
    rw [filterMap_congr_cells hsame] at hcells hfreed'
    rw [List.filterMap_cons_some hself, List.filterMap_cons_some hinfo, List.foldl_cons, hcells,
      hfreed', gcBucket]
    exact ⟨rfl, rfl⟩

/-- All buckets of `bs`, as `gcBuckets` goes through them. -/
lemma gcCells_buckets_eq (cutoff : UInt64) {bs : List Bucket} (hnodup : ∀ b, (A.buckets b).Nodup)
    (hapart : ∀ b b' i, i ∈ A.buckets b → i ∈ A.buckets b' → b = b') (hbs : bs.Nodup)
    (hall : ∀ b, ∀ i ∈ A.buckets b, ∃ info, A.cells i = some info)
    {freed : List CowVersion} (hfreed : A.freed = some freed) :
    ((bs.flatMap A.buckets).foldl (gcCell cutoff) A).table =
        (gcBuckets cutoff bs A.table freed).1 ∧
      ((bs.flatMap A.buckets).foldl (gcCell cutoff) A).freed =
        some (gcBuckets cutoff bs A.table freed).2 := by
  induction bs generalizing A freed with
  | nil => exact ⟨rfl, hfreed⟩
  | cons b bs ih =>
    obtain ⟨hb, hbs'⟩ := List.nodup_cons.1 hbs
    set B := (A.buckets b).foldl (gcCell cutoff) A with hB
    have hbuckets : B.buckets = A.buckets := gcCells_buckets cutoff A _
    obtain ⟨hcells, hfreedB⟩ := gcCells_bucket cutoff (hnodup b) (hall b) hfreed
    have hother : ∀ b' ≠ b, ∀ i ∈ A.buckets b', B.cells i = A.cells i := fun b' hne i hi =>
      gcCells_cells_of_notMem fun hi' => hne (hapart b' b i hi hi')
    have htable : B.table = Function.update A.table b
        (gcBucket cutoff (A.table b) freed).1 := by
      funext b'
      by_cases he : b' = b
      · subst he
        rw [Function.update_self, table, hbuckets]
        exact hcells
      · rw [Function.update_of_ne he, table, hbuckets]
        exact filterMap_congr_cells (hother b' he)
    have hallB : ∀ b', ∀ i ∈ B.buckets b', ∃ info, B.cells i = some info := fun b' i hi =>
      gcCells_cells (hall b' i (hbuckets ▸ hi))
    obtain ⟨htable', hfreed'⟩ := ih (A := B) (by rwa [hbuckets]) (by rwa [hbuckets]) hbs' hallB
      hfreedB
    rw [hbuckets, htable] at htable' hfreed'
    rw [List.flatMap_cons, List.foldl_append, ← hB, htable', hfreed', gcBuckets]
    exact ⟨rfl, rfl⟩

end Layout

lemma versionGc_spec (hm : Represents hash m A) (hfreed : A.freed = none)
    (now windowSeconds : UInt64) (hchain : ∀ b, (A.buckets b).length < fuel)
    (hlists : ∀ i info, A.cells i = some info → info.versions.length < fuel)
    (hfuel : (Cowfs.versionGc A.table now windowSeconds).2.length < fuel) :
    ∃ m' B, m.versionGc fuel now windowSeconds =
        some ((Cowfs.versionGc A.table now windowSeconds).2.map CowVersion.node, m') ∧
      Represents hash m' B ∧ B.freed = none ∧
      B.table = (Cowfs.versionGc A.table now windowSeconds).1 := by
  set cutoff := gcCutoff now windowSeconds with hcutoff
  set A₀ := A.setFreed (some []) with hA₀
  have hm₀ : Represents hash (m.initListHead .freed) A₀ := hm.initFreed hfreed
  obtain ⟨m₁, hm₁, hrep⟩ := hashForEach_rule id
    (fun i => Links.forEachSafe lists (.versions i) (gcVersion cutoff i) fuel) A₀.buckets
    (fun done m' => Represents hash m' (done.foldl (Layout.gcCell cutoff) A₀))
    (fun done m' h => Layout.gcCells_buckets cutoff A₀ done ▸ h.chains)
    (fun done x rest m' hall h => by
      have hnodup : (done ++ x :: rest).Nodup := hall ▸ hm₀.nodup_addresses
      have hx : x ∉ done := fun hmem =>
        (List.nodup_append.1 hnodup).2.2 x hmem x List.mem_cons_self rfl
      obtain ⟨info, hinfo⟩ := hm₀.cell_of_mem (i := x) (by rw [hall]; simp)
      obtain ⟨freed, hfreed⟩ := Layout.gcCells_freed cutoff done (A := A₀) ⟨[], rfl⟩
      obtain ⟨m'', hm'', hrep⟩ := gcList_spec h
        ((Layout.gcCells_cells_of_notMem hx).trans hinfo) hfreed cutoff (hlists x info hinfo)
      exact ⟨m'', hm'', by rwa [List.foldl_concat]⟩)
    hchain hm₀
  obtain ⟨htable, hfreed₁⟩ := Layout.gcCells_buckets_eq cutoff (A := A₀)
    hm₀.chains.nodup hm₀.chains.apart (List.nodup_finRange 256)
    (fun b i hi => hm₀.cell_of_mem (mem_addresses.2 ⟨b, hi⟩)) rfl
  obtain ⟨m₂, hm₂, hrep₂⟩ := releaseFreed_spec hrep hfreed₁ hfuel
  refine ⟨m₂, _, ?_, hrep₂, rfl, htable⟩
  rw [VersionMemory.versionGc, hm₁, Option.bind_some]
  exact hm₂

/-! ## `cowfs_versions_gc_all` -/

/-- What is left of a list when its front is gone. -/
lemma filter_gone {pre done todo : List ℕ} (h : (pre ++ (done ++ todo)).Nodup) :
    (done ++ todo).filter (· ∉ pre ++ done) = todo := by
  obtain ⟨-, hback, hapart⟩ := List.nodup_append.1 h
  obtain ⟨-, -, hapart'⟩ := List.nodup_append.1 hback
  rw [List.filter_append, List.filter_eq_nil_iff.2, List.nil_append, List.filter_eq_self.2]
  · intro i hi
    have hpre : i ∉ pre := fun hmem => hapart i hmem i (List.mem_append_right _ hi) rfl
    have hdone : i ∉ done := fun hmem => hapart' i hmem i hi rfl
    simp [hpre, hdone]
  · intro i hi
    simp [hi]

/-- The rule of `hash_for_each_safe`, with a body that takes its record out of its chain. -/
lemma hashForEachSafe_rule {σ : Type} (mem : σ → VersionMemory) (body : ℕ → σ → Option σ)
    {buckets : Bucket → List ℕ} (hnodup : (addresses buckets).Nodup) (I : List ℕ → σ → Prop)
    (hholds : ∀ done s, I done s →
      (mem s).chains.Holds fun b => (buckets b).filter (· ∉ done))
    (hbody : ∀ done x b todo s, x ∉ done → (buckets b).filter (· ∉ done) = x :: todo → I done s →
      ∃ s', body x s = some s' ∧ I (done ++ [x]) s')
    (hfuel : ∀ b, (buckets b).length < fuel) {s : σ} (hI : I [] s) :
    ∃ s', hashForEachSafe fuel mem body s = some s' ∧ I (addresses buckets) s' := by
  unfold hashForEachSafe addresses at *
  generalize List.finRange 256 = bs at *
  have hloop : ∃ s', bs.foldlM (fun s b =>
      Chains.walkSafe (fun s => (mem s).chains) body fuel ((mem s).chains.first b) s) s =
        some s' ∧ (bs = bs ++ [] ∧ I (bs.flatMap buckets) s') := by
    refine foldlM_rule (fun (pre post : List Bucket) s => bs = pre ++ post ∧
      I (pre.flatMap buckets) s) ?_ ⟨rfl, hI⟩
    rintro pre b post s ⟨hall, hI⟩
    have hfront : (pre.flatMap buckets ++ buckets b).Nodup := by
      rw [hall, List.flatMap_append, List.flatMap_cons, ← List.append_assoc] at hnodup
      exact (List.nodup_append.1 hnodup).1
    -- the chain of `b` with `done` gone
    have hleft : ∀ done todo, buckets b = done ++ todo →
        (buckets b).filter (· ∉ pre.flatMap buckets ++ done) = todo := fun done todo hb => by
      rw [hb] at hfront ⊢
      exact filter_gone hfront
    obtain ⟨s', hs', -, hI'⟩ := Chains.walkSafe_rule body
      (fun done todo s => buckets b = done ++ todo ∧ I (pre.flatMap buckets ++ done) s)
      (fun done x todo s hK => by
        have hfirst : (buckets b).filter (· ∉ pre.flatMap buckets ++ done) = [] ++ x :: todo :=
          hleft done _ hK.1
        exact (hholds _ s hK.2).next hfirst)
      (fun done x todo s hK => by
        obtain ⟨hb, hI⟩ := hK
        have hx : x ∉ pre.flatMap buckets ++ done := by
          rw [hb, ← List.append_assoc] at hfront
          exact fun hmem => (List.nodup_append.1 hfront).2.2 x hmem x List.mem_cons_self rfl
        obtain ⟨s', hs', hI'⟩ := hbody _ x b todo s hx (hleft done _ hb) hI
        exact ⟨s', hs', hb.trans (List.append_cons done x todo), by simpa using hI'⟩)
      (hfuel b) ⟨rfl, by simpa using hI⟩
    refine ⟨s', ?_, by simpa using hall, by simpa using hI'⟩
    have hfirst : (mem s).chains.first b = (buckets b).head? := by
      have hwhole := hleft [] _ rfl
      rw [List.append_nil] at hwhole
      rw [(hholds _ s hI).first b, hwhole]
    rw [hfirst]
    exact hs'
  obtain ⟨s', hs', -, hI'⟩ := hloop
  exact ⟨s', hs', hI'⟩

/-- A record that is the first of its chain is unhashed and given back. -/
lemma Represents.freeInfo (hm : Represents hash m A) (hi : A.cells i = some info) {b : Bucket}
    {todo : List ℕ} (hb : A.buckets b = i :: todo) :
    ∃ m', m.freeInfo i = some m' ∧ Represents hash m'
      ⟨Function.update A.cells i none, Function.update A.buckets b todo, A.freed⟩ := by
  obtain ⟨chains, hdel, hchains⟩ := hm.chains.del hb
  have hib : i ∈ A.buckets b := hb ▸ List.mem_cons_self
  have hne : ∀ {j : ℕ} {info' : CowInodeInfo}, Function.update A.cells i none j = some info' →
      j ≠ i ∧ A.cells j = some info' := by
    intro j info' hj
    by_cases he : j = i
    · subst he
      rw [Function.update_self] at hj
      cases hj
    · rw [Function.update_of_ne he] at hj
      exact ⟨he, hj⟩
  refine ⟨{ m with chains := chains }.setInfo i none, ?_, ?_, hchains, fun j => ?_, fun b' j => ?_,
    fun j info' hj => hm.data j info' (hne hj).2, hm.freedData, fun j hj => ?_⟩
  · simp [VersionMemory.freeInfo, hdel, hm.infos_of hi]
  · rw [Layout.rings_update]
    exact hm.rings.drop (.versions i)
  · by_cases hj : j = i
    · subst hj
      simp [VersionMemory.setInfo]
    · simp [VersionMemory.setInfo, hj, hm.infos j]
  · by_cases hj : j = i
    · subst hj
      have hout : j ∉ Function.update A.buckets b todo b' := by
        by_cases he : b' = b
        · subst he
          rw [Function.update_self]
          exact (List.nodup_cons.1 (hb ▸ hm.chains.nodup b')).1
        · rw [Function.update_of_ne he]
          exact fun hmem => he (hm.chains.apart b' b j hmem hib)
      simp [hout]
    · have hsame : j ∈ Function.update A.buckets b todo b' ↔ j ∈ A.buckets b' := by
        by_cases he : b' = b
        · subst he
          simp [hb, hj]
        · rw [Function.update_of_ne he]
      have hcell : Function.update A.cells i none j = A.cells j := Function.update_of_ne hj ..
      rw [hsame, hm.home b' j, ← hcell]
  · by_cases he : j = i
    · subst he
      exact Function.update_self ..
    · exact (Function.update_of_ne he ..).trans (hm.unused j hj)

/-- The records `gone` are freed, and their versions are in `freed`. -/
def Layout.without (A : Layout) (gone : List ℕ) : Layout where
  cells i := if i ∈ gone then none else A.cells i
  buckets b := (A.buckets b).filter (· ∉ gone)
  freed := some ((gone.filterMap A.cells).flatMap CowInodeInfo.versions).reverse

lemma Layout.without_concat (A : Layout) {gone todo : List ℕ} {x : ℕ} {b : Bucket}
    (hx : A.cells x = some info) (hb : (A.buckets b).filter (· ∉ gone) = x :: todo)
    (hnodup : (A.buckets b).Nodup) (hapart : ∀ b', x ∈ A.buckets b' → b' = b)
    (info' : CowInodeInfo) :
    Layout.mk
      (Function.update ((A.without gone).put x info'
        (drainVersions info.versions
          ((gone.filterMap A.cells).flatMap CowInodeInfo.versions).reverse)).cells x none)
      (Function.update (A.without gone).buckets b todo)
      (some (drainVersions info.versions
        ((gone.filterMap A.cells).flatMap CowInodeInfo.versions).reverse)) =
      A.without (gone ++ [x]) := by
  unfold without
  congr 1
  · funext j
    by_cases hj : j = x
    · subst hj
      simp
    · simp [put, setCell, setFreed, hj]
  · funext b'
    have hfilter : ∀ is : List ℕ, is.filter (· ∉ gone ++ [x]) =
        (is.filter (· ∉ gone)).filter (· ≠ x) := by
      intro is
      rw [List.filter_filter]
      refine List.filter_congr fun j _ => ?_
      simp [and_comm]
    by_cases he : b' = b
    · subst he
      have hxt : x ∉ todo := (List.nodup_cons.1 (hb ▸ hnodup.filter _)).1
      rw [Function.update_self, hfilter, hb, List.filter_cons_of_neg (by simp),
        List.filter_eq_self.2]
      intro j hj
      have hne : j ≠ x := fun he => hxt (he ▸ hj)
      simpa using hne
    · rw [Function.update_of_ne he, hfilter, List.filter_eq_self.2]
      intro j hj
      have hne : j ≠ x := fun hjx => he (hapart b' (hjx ▸ List.mem_of_mem_filter hj))
      simpa using hne
  · simp [drainVersions_eq, hx]

lemma versionsGcAll_spec (hm : Represents hash m A) (hfreed : A.freed = none)
    (hchain : ∀ b, (A.buckets b).length < fuel)
    (hlists : ∀ i info, A.cells i = some info → info.versions.length < fuel)
    (hfuel : (Cowfs.versionsGcAll A.table).2.length < fuel) :
    ∃ m' B, m.versionsGcAll fuel =
        some ((Cowfs.versionsGcAll A.table).2.map CowVersion.node, m') ∧
      Represents hash m' B ∧ B.freed = none ∧ B.table = (Cowfs.versionsGcAll A.table).1 := by
  have hnodup := hm.nodup_addresses
  have hstart : A.without [] = A.setFreed (some []) := by
    simp [Layout.without, Layout.setFreed]
  obtain ⟨m₁, hm₁, hrep⟩ := hashForEachSafe_rule id (fun i m =>
      (Links.forEachSafe lists (.versions i) drainVersion fuel m).bind (freeInfo i)) hnodup
    (fun done m' => Represents hash m' (A.without done))
    (fun done m' h => h.chains)
    (fun done x b todo m' hx hb h => by
      have hxb : x ∈ A.buckets b := by
        have hmem : x ∈ (A.buckets b).filter (· ∉ done) := hb ▸ List.mem_cons_self
        exact List.mem_of_mem_filter hmem
      obtain ⟨info, hinfo, -⟩ := (hm.home b x).1 hxb
      have hcell : (A.without done).cells x = some info := (if_neg hx).trans hinfo
      obtain ⟨m₁, hm₁, hrep₁⟩ := drainList_spec h hcell rfl (hlists x info hinfo)
      obtain ⟨m₂, hm₂, hrep₂⟩ := hrep₁.freeInfo (Layout.put_cells ..) hb
      refine ⟨m₂, by rw [hm₁, Option.bind_some, hm₂], ?_⟩
      rw [← A.without_concat hinfo hb (hm.chains.nodup b)
        (fun b' hb' => hm.chains.apart b' b x hb' hxb)]
      exact hrep₂)
    hchain (by rw [hstart]; exact hm.initFreed hfreed)
  have hall : ((addresses A.buckets).filterMap A.cells).flatMap CowInodeInfo.versions =
      allVersions A.table := by
    rw [addresses, allVersions, List.filterMap_flatMap, List.flatMap_assoc]
    rfl
  have hgone : (A.without (addresses A.buckets)).freed =
      some (Cowfs.versionsGcAll A.table).2 := by
    rw [versionsGcAll_eq, Layout.without, hall]
  obtain ⟨m₂, hm₂, hrep₂⟩ := releaseFreed_spec hrep hgone hfuel
  refine ⟨m₂, _, ?_, hrep₂, rfl, ?_⟩
  · rw [VersionMemory.versionsGcAll, hm₁, Option.bind_some]
    exact hm₂
  · rw [versionsGcAll_eq]
    funext b
    have hempty : (A.without (addresses A.buckets)).buckets b = [] := by
      refine List.filter_eq_nil_iff.2 fun i hi => ?_
      simpa using mem_addresses.2 ⟨b, hi⟩
    rw [Layout.table, Layout.setFreed_buckets, hempty]
    rfl

end Cowfs
