import Cowfs.Construction.Contexts
import Cowfs.Properties.ShadowPaths

/-!
# Shadow files and the process that addresses them

The removal of a shadow file starts from the directory that was looked up at the time of
mounting, and works for every caller.  The copy and the restoration resolve a string for the
current process.  All three mean the same entry exactly when the lower directory, as it was
spelled in the mount option, leads both processes to a directory whose `.cowfs_shadow` is the
one of the mount: for a relative path that is a matter of the working directory, for an absolute
one of the root.
-/

namespace Cowfs

variable {w : PathWalk} {p mounter : Process} {m : ShadowMount} {lowerdir : CStr}

/-! ## Components -/

lemma componentsFrom_slash (acc d rest : CStr) :
    componentsFrom acc (d ++ '/' :: rest) = componentsFrom acc d ++ componentsFrom [] rest := by
  induction d generalizing acc with
  | nil =>
    by_cases hacc : acc = []
    · simp [componentsFrom, hacc]
    · simp [componentsFrom, hacc]
  | cons c cs ih =>
    by_cases hc : c = '/'
    · by_cases hacc : acc = []
      · simp [componentsFrom, hc, hacc, ih]
      · simp [componentsFrom, hc, hacc, ih]
    · simp [componentsFrom, hc, ih]

lemma componentsFrom_name {n : CStr} (hn : '/' ∉ n) (acc : CStr) :
    componentsFrom acc n = if acc.reverse ++ n = [] then [] else [acc.reverse ++ n] := by
  induction n generalizing acc with
  | nil => simp [componentsFrom]
  | cons c cs ih =>
    have hc : c ≠ '/' := fun h => hn (by simp [h])
    have hcs : '/' ∉ cs := fun h => hn (List.mem_cons_of_mem c h)
    simp [componentsFrom, hc, ih hcs]

/-- A name behind a directory is one more component. -/
lemma components_join {n : CStr} (hn : '/' ∉ n) (hne : n ≠ []) (dir : CStr) :
    components (dir ++ '/' :: n) = components dir ++ [n] := by
  rw [components, componentsFrom_slash, componentsFrom_name hn]
  simp [hne, components]

lemma components_slash (dir : CStr) : components (dir ++ ['/']) = components dir := by
  rw [components, componentsFrom_slash]
  simp [componentsFrom, components]

/-! ## The directory a string leads to -/

/-- For the process `p` the spelling of the mount option leads to a directory whose
`.cowfs_shadow` is that of the mount. -/
def LeadsHome (w : PathWalk) (m : ShadowMount) (lowerdir : CStr) (p : Process) : Prop :=
  ∃ d, w.kernPathDir p lowerdir = some d ∧ w.enter p.root d shadowDir = some m.dirpath

/-- The directory part of a shadow path is one component further than the lower directory. -/
lemma kernPathDir_shadowRoot (hne : lowerdir ≠ []) (w : PathWalk) (p : Process) :
    w.kernPathDir p ((lowerdir ++ '/' :: shadowDir) ++ ['/']) =
      (w.kernPathDir p lowerdir).bind fun d => w.enter p.root d shadowDir := by
  have hcomponents : components ((lowerdir ++ '/' :: shadowDir) ++ ['/']) =
      components lowerdir ++ [shadowDir] := by
    rw [components_slash, components_join shadowDir_noSlash (by decide)]
  have hstart : p.start ((lowerdir ++ '/' :: shadowDir) ++ ['/']) = p.start lowerdir := by
    obtain ⟨c, cs, rfl⟩ := List.exists_cons_of_ne_nil hne
    rfl
  unfold PathWalk.kernPathDir
  rw [if_neg (by simp), if_neg hne, hcomponents, hstart, List.foldlM_append]
  simp only [List.foldlM_cons, List.foldlM_nil, bind_pure, Option.bind_eq_bind]

/-- A mount resolves its option. -/
lemma lowerdir_ne_nil (hm : w.fillSuper mounter lowerdir = some m) : lowerdir ≠ [] := by
  rintro rfl
  simp [PathWalk.fillSuper, PathWalk.kernPathDir] at hm

lemma fillSuper_spec (hm : w.fillSuper mounter lowerdir = some m) :
    ∃ root, w.kernPathDir mounter lowerdir = some root ∧
      w.lookupOne root shadowDir = some m.dirpath ∧ m.sbi = fillSbInfo root lowerdir := by
  unfold PathWalk.fillSuper at hm
  cases hroot : w.kernPathDir mounter lowerdir with
  | none => simp [hroot] at hm
  | some root =>
    simp only [hroot, Option.map_eq_some_iff] at hm
    obtain ⟨d, hd, rfl⟩ := hm
    exact ⟨root, rfl, hd, rfl⟩

/-- A whole shadow path opens `ino_timestamp` in the directory its spelling leads to. -/
lemma filpOpen_wholePath (hne : lowerdir ≠ []) (w : PathWalk) (p : Process)
    (q : UInt64 × UInt64) :
    w.filpOpen p (wholePath lowerdir q) =
      ((w.kernPathDir p lowerdir).bind fun d => w.enter p.root d shadowDir).map fun d =>
        (d, decimalPair q.1.toNat q.2.toNat) := by
  have hsplit : strrchr '/' (wholePath lowerdir q) =
      some (lowerdir ++ '/' :: shadowDir, decimalPair q.1.toNat q.2.toNat) :=
    strrchr_append (slash_notMem_decimalPair _ _)
  unfold PathWalk.filpOpen
  simp only [hsplit, kernPathDir_shadowRoot hne]

/-! ## One entry -/

/-- The file copied by `p₁`, the one restored from by `p₂` and the one removed by `p₃` are one
entry of the shadow directory of the mount. -/
def SameEntry (w : PathWalk) (m : ShadowMount) (p₁ p₂ p₃ : Process) (ino ts : UInt64) : Prop :=
  ∃ base, w.copyEntry m p₁ ino ts = some (m.dirpath, base) ∧
    w.restoreEntry m p₂ ino ts = some (m.dirpath, base) ∧
    removeEntry m p₃ ino ts = some (m.dirpath, base)

lemma filpOpen_home_iff (hne : lowerdir ≠ []) (q : UInt64 × UInt64) :
    w.filpOpen p (wholePath lowerdir q) =
        some (m.dirpath, decimalPair q.1.toNat q.2.toNat) ↔ LeadsHome w m lowerdir p := by
  rw [filpOpen_wholePath hne, Option.map_eq_some_iff]
  unfold LeadsHome
  constructor
  · rintro ⟨d, hd, he⟩
    obtain ⟨d', hd', henter⟩ := Option.bind_eq_some_iff.1 hd
    obtain rfl := (Prod.mk.inj he).1
    exact ⟨d', hd', henter⟩
  · rintro ⟨d, hd, henter⟩
    exact ⟨m.dirpath, by rw [hd]; exact henter, rfl⟩

/-- **When shadow files are addressed independently of the caller.**  For every mount, every
shadow path that fits its buffer and any three processes, the three functions mean one entry of
the mount's shadow directory if and only if the spelling of the mount option leads the first two
processes there. -/
theorem same_entry_iff (w : PathWalk) (mounter p₁ p₂ p₃ : Process) (lowerdir : CStr)
    (m : ShadowMount) (hm : w.fillSuper mounter lowerdir = some m) (ino ts : UInt64)
    (hfit : (wholePath lowerdir (ino, ts)).length < pathBufSize) :
    SameEntry w m p₁ p₂ p₃ ino ts ↔
      LeadsHome w m lowerdir p₁ ∧ LeadsHome w m lowerdir p₂ := by
  obtain ⟨root, -, -, hsbi⟩ := fillSuper_spec hm
  have hne := lowerdir_ne_nil hm
  have hpath : shadowMakePath m.sbi ino ts pathBufSize = wholePath lowerdir (ino, ts) := by
    rw [hsbi]
    exact bufferPath_of_lt hfit root
  have hbase : shadowBase (wholePath lowerdir (ino, ts)) = decimalPair ino.toNat ts.toNat := by
    have hsplit : strrchr '/' (wholePath lowerdir (ino, ts)) =
        some (lowerdir ++ '/' :: shadowDir, decimalPair ino.toNat ts.toNat) :=
      strrchr_append (slash_notMem_decimalPair _ _)
    simp only [shadowBase, hsplit]
  unfold SameEntry PathWalk.copyEntry PathWalk.restoreEntry removeEntry
  rw [hpath, strscpy_of_lt hfit, hbase, ← filpOpen_home_iff hne (ino, ts),
    ← filpOpen_home_iff hne (ino, ts)]
  constructor
  · rintro ⟨base, h₁, h₂, h₃⟩
    obtain rfl := (Prod.mk.inj (Option.some.inj h₃)).2
    exact ⟨h₁, h₂⟩
  · rintro ⟨h₁, h₂⟩
    exact ⟨_, h₁, h₂, rfl⟩

/-- A process with the same root, and for a relative path the same working directory, is led to
the same place. -/
lemma leadsHome_of_same {p' : Process} (h : LeadsHome w m lowerdir p) (hroot : p'.root = p.root)
    (hstart : lowerdir.head? = some '/' ∨ p'.cwd = p.cwd) : LeadsHome w m lowerdir p' := by
  have hsame : p'.start lowerdir = p.start lowerdir := by
    unfold Process.start
    rcases hstart with h | h
    · rw [if_pos h, if_pos h, hroot]
    · rw [hroot, h]
  unfold LeadsHome PathWalk.kernPathDir at h ⊢
  rw [hroot, hsame]
  exact h

/-- `locate` is `filp_open` in the context of one process. -/
theorem filpOpen_of_locate {env : Env} (henv : env.lowerRoot = w.kernPathDir p) {path : CStr}
    {r : Fid} {base : CStr} (h : locate env path = some (r, base)) :
    w.filpOpen p path = (w.enter p.root r shadowDir).map fun d => (d, base) := by
  unfold locate shadowHome at h
  split at h
  · cases h
  next dir base' hpath =>
    split at h
    · cases h
    obtain ⟨r₀, hhome, he⟩ := Option.map_eq_some_iff.1 h
    obtain ⟨rfl, rfl⟩ := Prod.mk.inj he
    split at hhome
    · cases hhome
    next lowerdir name hdir =>
      split at hhome
      · next hname =>
        have hr := hhome
        rw [henv] at hr
        have hne : lowerdir ≠ [] := by
          rintro rfl
          simp [PathWalk.kernPathDir] at hr
        obtain ⟨rfl, -⟩ := strrchr_spec hdir
        unfold PathWalk.filpOpen
        simp only [hpath]
        rw [hname, kernPathDir_shadowRoot hne, hr]
        rfl
      · cases hhome

/-! ## A process elsewhere -/

/-- `/l` and `/b/l`, each with a directory `.cowfs_shadow`: the directories 1 and 4, 2 and 5. -/
def contextTree : Lower :=
  (((((Lower.empty.alloc (dirInode 1)).addNode 0 ['l'] (dirInode 2)).addNode 1 shadowDir
    (dirInode 3)).addNode 0 ['b'] (dirInode 4)).addNode 3 ['l'] (dirInode 5)).addNode 4 shadowDir
    (dirInode 6)

/-- The mounting process, at the root. -/
def mountProcess : Process := ⟨0, 0⟩

/-- The mount of `l`, a path relative to the root. -/
def relativeMount : ShadowMount := ⟨fillSbInfo 1 ['l'], 2⟩

/-- The mount of `/l`. -/
def absoluteMount : ShadowMount := ⟨fillSbInfo 1 ['/', 'l'], 2⟩

/-- A process whose working directory is `/b` copies into another shadow directory, and for an
absolute path so does one whose root is `/b`; the removal looks in the right one. -/
theorem same_entry_elsewhere :
    contextTree.pathWalk.fillSuper mountProcess ['l'] = some relativeMount ∧
      contextTree.pathWalk.copyEntry relativeMount ⟨0, 3⟩ 10 1000 =
        some (5, decimalPair 10 1000) ∧
      removeEntry relativeMount mountProcess 10 1000 = some (2, decimalPair 10 1000) ∧
      ¬ SameEntry contextTree.pathWalk relativeMount ⟨0, 3⟩ mountProcess mountProcess 10 1000 ∧
      contextTree.pathWalk.fillSuper mountProcess ['/', 'l'] = some absoluteMount ∧
      contextTree.pathWalk.copyEntry absoluteMount ⟨3, 3⟩ 10 1000 =
        some (5, decimalPair 10 1000) ∧
      ¬ SameEntry contextTree.pathWalk absoluteMount ⟨3, 3⟩ mountProcess mountProcess 10 1000 := by
  have hrelative : contextTree.pathWalk.copyEntry relativeMount ⟨0, 3⟩ 10 1000 =
      some (5, decimalPair 10 1000) := by decide +kernel
  have habsolute : contextTree.pathWalk.copyEntry absoluteMount ⟨3, 3⟩ 10 1000 =
      some (5, decimalPair 10 1000) := by decide +kernel
  refine ⟨by decide +kernel, hrelative, by decide +kernel, ?_, by decide +kernel, habsolute, ?_⟩
  · rintro ⟨base, hcopy, -, -⟩
    rw [hrelative] at hcopy
    cases hcopy
  · rintro ⟨base, hcopy, -, -⟩
    rw [habsolute] at hcopy
    cases hcopy

/-- For an absolute path the working directories play no part. -/
theorem same_entry_absolute :
    SameEntry contextTree.pathWalk absoluteMount ⟨0, 3⟩ ⟨0, 4⟩ ⟨3, 3⟩ 10 1000 := by
  have hm : contextTree.pathWalk.fillSuper mountProcess ['/', 'l'] = some absoluteMount := by
    decide +kernel
  have hhome : LeadsHome contextTree.pathWalk absoluteMount ['/', 'l'] mountProcess :=
    ⟨1, by decide +kernel, by decide +kernel⟩
  exact (same_entry_iff contextTree.pathWalk mountProcess ⟨0, 3⟩ ⟨0, 4⟩ ⟨3, 3⟩ ['/', 'l']
    absoluteMount hm 10 1000 (by decide +kernel)).2
    ⟨leadsHome_of_same hhome rfl (.inl rfl), leadsHome_of_same hhome rfl (.inl rfl)⟩

end Cowfs
