import Cowfs.Construction.Lookup
import Cowfs.Properties.FaithfulCopy
import Cowfs.Properties.Listing

/-!
# Lookup and listing

The name of the shadow directory is left out of listings by `cowfs_filldir`, in every directory;
`cowfs_lookup` hands every name on.  The two agree on all other names, and the shadow directory of
the mount, with the snapshots in it, can be entered by its name.
-/

namespace Cowfs

variable {s : State} {d : DirData} {dir : LowerObject} {name : CStr} {φ : Upper.LookupFaults}

/-- The names a complete reading of a directory delivers. -/
lemma mem_listing_iff {rooms : List Room}
    (hend : AtEnd d (run (dirStep d) .opened (reads rooms))) :
    name ∈ (observe (dirStep d) (dirSeen d) .opened (reads rooms)).map DirEntry.name ↔
      name ≠ shadowDir ∧ ∃ e ∈ d.entries, e.2.name = name := by
  rw [reads_to_end hend]
  simp only [visible, DirData.entriesFrom, OpenDir.opened, Nat.zero_le, decide_true,
    List.filter_true, List.mem_map, List.mem_filter, decide_eq_true_eq]
  constructor
  · rintro ⟨e, ⟨⟨e', he', rfl⟩, hne⟩, rfl⟩
    exact ⟨hne, e', he', rfl⟩
  · rintro ⟨hne, e, he, rfl⟩
    exact ⟨e.2, ⟨⟨e, he, rfl⟩, hne⟩, rfl⟩

/-- A lookup that does not fail finds what is there. -/
lemma cowfsLookup_ok {answer : Option LowerObject} (h : s.cowfsLookup dir name φ = .ok answer) :
    answer = s.lowerEntry dir name := by
  unfold State.cowfsLookup at h
  split at h
  · cases h
  split at h
  · cases h
  split at h
  · next hnone =>
    rw [hnone]
    exact (Except.ok.inj h).symm
  · next o hsome =>
    split at h
    · cases h
    · rw [hsome]
      exact (Except.ok.inj h).symm

/-! ## The caches above the mount -/

/-- The dentry that `Upper.cowfsLookup` hashes has the sign of the answer, and it hashes none when
the lookup fails. -/
theorem upper_cowfsLookup {u : Upper} {dir : Fid} (hfree : u.dcache dir name = none)
    (hname : name ≠ shadowDir) :
    ((u.cowfsLookup dir name φ).dcache dir name).map Option.isSome =
      (u.sys.cowfsLookup (.node dir) name φ).toOption.map Option.isSome := by
  have hentry : u.sys.lowerEntry (.node dir) name = (u.sys.lower.entries dir name).map .node := by
    simp [State.lowerEntry, hname]
  unfold Upper.cowfsLookup State.cowfsLookup
  rw [hentry, hfree]
  cases hlookup : φ.lookup with
  | some e => simp [hfree, Except.toOption]
  | none =>
    cases hkzalloc : φ.kzalloc with
    | true => simp [hfree, Except.toOption]
    | false =>
      cases hf : u.sys.lower.entries dir name with
      | none => simp [Upper.lowerInode, Lower.inodeAt, hf, Upper.setDentry, Except.toOption]
      | some f =>
        obtain ⟨i, hi⟩ := Option.isSome_iff_exists.1 (u.sys.lower.linked dir name f hf)
        have hinode : u.lowerInode dir name = some i := by
          simp [Upper.lowerInode, Lower.inodeAt, hf, hi]
        cases hnomem : φ.inode with
        | true => simp [hinode, Upper.instantiate, getInode, hfree, Except.toOption]
        | false =>
          simp only [hinode, Upper.instantiate, getInode]
          cases u.icache i.ino <;> simp [Upper.setDentry, Except.toOption]

/-- The same in a shadow directory. -/
theorem upper_lookupShadow (u : Upper) (r : Fid) (base : CStr) {answer : Option LowerObject}
    (h : u.sys.cowfsLookup (.shadowDir r) base φ = .ok answer) :
    (u.lookupShadow r base).shadowCache r base = some answer.isSome := by
  rw [cowfsLookup_ok h, State.lowerEntry, Option.isSome_map]
  simp [Upper.lookupShadow]

/-! ## Walks -/

/-- Nothing leads out of a shadow directory. -/
lemma isShadow_of_lowerEntry {o : LowerObject} (hdir : dir.isShadow = true)
    (h : s.lowerEntry dir name = some o) : o.isShadow = true := by
  cases dir with
  | node f => cases hdir
  | shadowDir r =>
    obtain ⟨c, -, rfl⟩ := Option.map_eq_some_iff.1 h
    rfl
  | shadowFile r base => cases h

/-- The shadow directory is what `lowerEntry` finds first. -/
lemma lowerEntry_node {f : Fid} {o : LowerObject} (h : s.lowerEntry (.node f) name = some o) :
    (o = .shadowDir f ∧ name = shadowDir ∧ (s.store.shadow f).isSome) ∨
      ((∃ g, o = .node g) ∧ (name = shadowDir → s.store.shadow f = none)) := by
  simp only [State.lowerEntry] at h
  split at h
  · next hs => exact .inl ⟨(Option.some.inj h).symm, hs⟩
  · next hs =>
    obtain ⟨g, -, rfl⟩ := Option.map_eq_some_iff.1 h
    refine .inr ⟨⟨g, rfl⟩, fun hname => ?_⟩
    simpa [hname] using hs

lemma lookups_cons {o : LowerObject} {walk : List (CStr × Upper.LookupFaults)}
    (h : s.lookups dir ((name, φ) :: walk) = some o) :
    ∃ o', s.lowerEntry dir name = some o' ∧ s.cowfsLookup dir name φ = .ok (some o') ∧
      s.lookups o' walk = some o := by
  unfold State.lookups at h
  split at h
  · next o' hok => exact ⟨o', (cowfsLookup_ok hok).symm, hok, h⟩
  · cases h

/-- A walk that starts in a shadow directory stays there. -/
lemma isShadow_lookups {o : LowerObject} {walk : List (CStr × Upper.LookupFaults)}
    (hdir : dir.isShadow = true) (h : s.lookups dir walk = some o) : o.isShadow = true := by
  induction walk generalizing dir with
  | nil =>
    cases h
    exact hdir
  | cons step walk ih =>
    obtain ⟨o', hentry, -, hrest⟩ := lookups_cons h
    exact ih (isShadow_of_lowerEntry hdir hentry) hrest

/-- A walk enters a shadow directory where it looks up its name. -/
lemma walk_iff {f : Fid} {walk : List (CStr × Upper.LookupFaults)} {o : LowerObject}
    (h : s.lookups (.node f) walk = some o) :
    o.isShadow = false ↔
      ∀ pre φ rest r, walk = pre ++ (shadowDir, φ) :: rest →
        s.lookups (.node f) pre = some (.node r) → s.store.shadow r = none := by
  induction walk generalizing f with
  | nil =>
    cases h
    refine iff_of_true rfl fun pre φ rest r hwalk => ?_
    simp at hwalk
  | cons first walk ih =>
    obtain ⟨name, φ⟩ := first
    obtain ⟨o', hentry, hok, hrest⟩ := lookups_cons h
    rcases lowerEntry_node hentry with ⟨rfl, rfl, hthere⟩ | ⟨⟨g, rfl⟩, habsent⟩
    · -- the first lookup enters it
      refine iff_of_false ?_ fun hno => ?_
      · rw [isShadow_lookups rfl hrest]
        simp
      · rw [hno [] φ walk f rfl rfl] at hthere
        cases hthere
    · rw [ih hrest]
      constructor
      · rintro hno pre φ' rest r hwalk hpre
        cases pre with
        | nil =>
          obtain ⟨hfirst, -⟩ := List.cons.inj hwalk
          cases hpre
          exact habsent (Prod.mk.inj hfirst).1
        | cons first' pre =>
          obtain ⟨rfl, hwalk'⟩ := List.cons.inj hwalk
          obtain ⟨o'', hentry', -, hpre'⟩ := lookups_cons hpre
          obtain rfl := Option.some.inj (hentry.symm.trans hentry')
          exact hno pre φ' rest r hwalk' hpre'
      · intro hno pre φ' rest r hwalk hpre
        refine hno ((name, φ) :: pre) φ' rest r (by rw [hwalk]; rfl) ?_
        rw [State.lookups, hok]
        exact hpre

/-- **When lookup and listing agree.**  For every directory and every name but the dots: a lookup
that does not fail gives a positive dentry exactly when a complete reading lists the name, unless
the name is that of the shadow directory and there is an object of this name.  A sequence of
lookups ends outside all shadow directories exactly when it nowhere looks up the name of one where
it is. -/
theorem lookup_listing_iff (s : State) :
    (∀ (dir : LowerObject) (d : DirData) (rooms : List Room) (name : CStr)
        (φ : Upper.LookupFaults) (answer : Option LowerObject), d.Of s dir →
        AtEnd d (run (dirStep d) .opened (reads rooms)) →
        name ≠ ['.'] → name ≠ ['.', '.'] → s.cowfsLookup dir name φ = .ok answer →
        ((answer.isSome ↔
            name ∈ (observe (dirStep d) (dirSeen d) .opened (reads rooms)).map DirEntry.name) ↔
          ¬ (name = shadowDir ∧ (s.lowerEntry dir shadowDir).isSome))) ∧
      ∀ (f : Fid) (walk : List (CStr × Upper.LookupFaults)) (o : LowerObject),
        s.lookups (.node f) walk = some o →
        (o.isShadow = false ↔
          ∀ pre φ rest r, walk = pre ++ (shadowDir, φ) :: rest →
            s.lookups (.node f) pre = some (.node r) → s.store.shadow r = none) := by
  refine ⟨fun dir d rooms name φ answer hd hend hdot hdots hok => ?_,
    fun f walk o h => walk_iff h⟩
  rw [mem_listing_iff hend, hd name hdot hdots, cowfsLookup_ok hok]
  by_cases hname : name = shadowDir
  · subst hname
    simp
  · simp [hname]

/-! ## A stored snapshot within reach -/

/-- The file is opened and written to, so that its content is saved. -/
def snapshotTaken : State :=
  run (step smallEnv) fileMounted [.open 0 4 true none, .write 0 0 [1] 1000 .clean none]

/-- A lookup in which nothing fails. -/
def cleanLookup : Upper.LookupFaults := ⟨none, false, false⟩

/-- The names from the root of the mount to the shadow file. -/
def wayToSnapshot : List (CStr × Upper.LookupFaults) :=
  [(shadowDir, cleanLookup), (decimalPair 10 1000, cleanLookup)]

/-- The root of the mount as the lower file system lists it. -/
def rootListing : DirData where
  entries := [(0, ⟨['.'], 2, 4⟩), (1, ⟨['.', '.'], 1, 4⟩), (2, ⟨['a'], 3, 4⟩), (3, ⟨['b'], 4, 4⟩),
    (4, ⟨['x'], 10, 8⟩), (5, ⟨shadowDir, 11, 4⟩)]
  sorted := by decide
  endPos := 6
  bounded := by decide

/-- The shadow directory is found by its name and not listed, and the next lookup leads to the
saved content. -/
theorem lookup_listing_shadow :
    snapshotTaken.cowfsLookup (.node 1) shadowDir cleanLookup = .ok (some (.shadowDir 1)) ∧
      AtEnd rootListing (run (dirStep rootListing) .opened (reads [fun _ _ => true])) ∧
      shadowDir ∉ (observe (dirStep rootListing) (dirSeen rootListing) .opened
        (reads [fun _ _ => true])).map DirEntry.name ∧
      snapshotTaken.lookups (.node 1) wayToSnapshot =
        some (.shadowFile 1 (decimalPair 10 1000)) ∧
      (snapshotTaken.versions smallEnv 10).map (fun v =>
        snapshotTaken.store.shadowAt smallEnv v.shadowPath) = [some [9]] ∧
      (snapshotTaken.store.fileAt 1 (decimalPair 10 1000)) = some [9] := by
  exact ⟨by decide +kernel, atEnd_unbounded rootListing .opened, by decide, by decide +kernel,
    by decide +kernel, by decide +kernel⟩

/-- What the lower file system has in the root of the mount. -/
lemma rootListing_of : rootListing.Of snapshotTaken (.node 1) := by
  intro name hdot hdots
  have hentries : snapshotTaken.lower.entries = fileTree.entries := rfl
  have hthere : (snapshotTaken.store.shadow 1).isSome = true := by decide +kernel
  have hnames : (fileTree.entries 1 name).isSome ↔
      name = ['a'] ∨ name = ['b'] ∨ name = ['x'] := by
    have hempty : (Lower.empty.alloc (dirInode 1)).entries 1 name = none := rfl
    simp only [fileTree, smallTree, Lower.addNode_entries, true_and, one_ne_zero, false_and,
      if_false, hempty]
    by_cases hx : name = ['x']
    · simp [hx]
    · by_cases hb : name = ['b'] <;> simp [hx, hb]
  by_cases hs : name = shadowDir
  · subst hs
    simp [State.lowerEntry, hthere, rootListing]
  · simp only [State.lowerEntry, hs, false_and, if_false, Option.isSome_map, hentries, hnames]
    simp [rootListing, @eq_comm _ _ name, hdot, hdots, hs]

/-- The file `x` is found and listed. -/
theorem lookup_listing_file :
    snapshotTaken.cowfsLookup (.node 1) ['x'] cleanLookup = .ok (some (.node 4)) ∧
      ['x'] ∈ (observe (dirStep rootListing) (dirSeen rootListing) .opened
        (reads [fun _ _ => true])).map DirEntry.name := by
  have hok : snapshotTaken.cowfsLookup (.node 1) ['x'] cleanLookup = .ok (some (.node 4)) := by
    decide +kernel
  have hend : AtEnd rootListing (run (dirStep rootListing) .opened (reads [fun _ _ => true])) :=
    atEnd_unbounded rootListing .opened
  have hiff := (lookup_listing_iff snapshotTaken).1 (.node 1) rootListing [fun _ _ => true] ['x']
    cleanLookup _ rootListing_of hend (by decide) (by decide) hok
  exact ⟨hok, (hiff.2 (by decide)).1 rfl⟩

end Cowfs
