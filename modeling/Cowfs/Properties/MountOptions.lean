import Cowfs.Construction.Memory

/-!
# Options read and shown

`parse_options` takes the value of the last `lowerdir` option it meets: it holds no comma and is
not empty.  `cowfs_show_options` prints the copy of 512 characters in the superblock, so that what
is shown, behind whatever the VFS prints, is read as the same directory exactly when the copy is
whole.  The path of the shadow directory is built from the value itself.
-/

namespace Cowfs

variable {fails : ℕ → Bool} {p text dir : CStr} {ps : List CStr} {h h' : Heap} {block : ℕ}

/-! ## One option -/

lemma matchToken_eq_some : matchToken p = some text ↔ p = lowerdirEq ++ text ∧ text ≠ [] := by
  unfold matchToken
  constructor
  · intro hp
    split at hp
    next hcond =>
      rw [Bool.and_eq_true, List.isPrefixOf_iff_prefix] at hcond
      obtain ⟨⟨rest, rfl⟩, hne⟩ := hcond
      obtain rfl : rest = text := by simpa using hp
      exact ⟨rfl, by simpa using hne⟩
    · cases hp
  · rintro ⟨rfl, hne⟩
    have hcond : (lowerdirEq.isPrefixOf (lowerdirEq ++ text) &&
        !((lowerdirEq ++ text).drop lowerdirEq.length).isEmpty) = true := by
      rw [Bool.and_eq_true, List.isPrefixOf_iff_prefix]
      exact ⟨List.prefix_append _ _, by simpa using hne⟩
    rw [if_pos hcond, List.drop_left]

lemma matchToken_nil : matchToken [] = none := rfl

/-! ## All options -/

/-- **The last option wins**, where every value can be duplicated. -/
lemma parseFields_last (ps : List CStr) (h : Heap) (lowerdir : Option (ℕ × CStr)) :
    (parseFields (fun _ => false) ps h lowerdir).1.map Prod.snd =
      (ps.filterMap matchToken).getLast?.or (lowerdir.map Prod.snd) := by
  induction ps generalizing h lowerdir with
  | nil => rfl
  | cons p ps ih =>
    by_cases hp : p = []
    · subst hp
      rw [parseFields, if_pos rfl, ih, List.filterMap_cons_none matchToken_nil]
    rw [parseFields, if_neg hp]
    rcases htoken : matchToken p with _ | text
    · rw [List.filterMap_cons_none htoken]
      exact ih h lowerdir
    · rw [List.filterMap_cons_some htoken, List.getLast?_cons]
      dsimp only
      rw [ih]
      rcases (ps.filterMap matchToken).getLast? <;> rfl

/-- Whatever fails, the directory is the value of one of the options. -/
lemma parseFields_mem {lowerdir : Option (ℕ × CStr)}
    (hparse : (parseFields fails ps h lowerdir).1 = some (block, dir)) :
    lowerdir.map Prod.snd = some dir ∨ ∃ p ∈ ps, matchToken p = some dir := by
  induction ps generalizing h lowerdir with
  | nil =>
    left
    rw [show lowerdir = some (block, dir) from hparse]
    rfl
  | cons p ps ih =>
    by_cases hp : p = []
    · rw [parseFields, if_pos hp] at hparse
      exact (ih hparse).imp_right fun ⟨q, hq, ht⟩ => ⟨q, List.mem_cons_of_mem _ hq, ht⟩
    rw [parseFields, if_neg hp] at hparse
    rcases htoken : matchToken p with _ | text <;> rw [htoken] at hparse
    · exact (ih hparse).imp_right fun ⟨q, hq, ht⟩ => ⟨q, List.mem_cons_of_mem _ hq, ht⟩
    · right
      rcases ih hparse with hdir | ⟨q, hq, ht⟩
      · refine ⟨p, List.mem_cons_self, htoken.trans ?_⟩
        obtain ⟨⟨b, text'⟩, hblock, hdir'⟩ := Option.map_eq_some_iff.1 hdir
        obtain ⟨b', -, hpair⟩ := Option.map_eq_some_iff.1 hblock
        rw [← hdir', ← (Prod.mk.inj hpair).2]
      · exact ⟨q, List.mem_cons_of_mem _ hq, ht⟩

/-- No piece of a split holds the character that was split on. -/
lemma notMem_of_mem_splitOn {data : CStr} (hp : p ∈ data.splitOn ',') : ',' ∉ p := by
  induction data generalizing p with
  | nil =>
    rw [List.splitOn_nil, List.mem_singleton] at hp
    exact hp ▸ List.not_mem_nil
  | cons c data ih =>
    rw [List.splitOn_cons_eq_if_modifyHead] at hp
    split at hp
    · rcases List.mem_cons.1 hp with rfl | hp'
      · exact List.not_mem_nil
      · exact ih hp'
    next hc =>
      rcases hsplit : data.splitOn ',' with _ | ⟨q, qs⟩
      · exact absurd hsplit (List.splitOn_ne_nil _ _)
      rw [hsplit, List.modifyHead_cons] at hp
      rcases List.mem_cons.1 hp with rfl | hp'
      · rw [List.mem_cons, not_or]
        refine ⟨fun h => hc (by simpa using h.symm), ih ?_⟩
        rw [hsplit]
        exact List.mem_cons_self
      · refine ih ?_
        rw [hsplit]
        exact List.mem_cons_of_mem _ hp'

/-- A directory that is accepted is not empty and holds no comma. -/
lemma accepted_spec {data : Option CStr}
    (hparse : (parseOptions fails data h).1 = some (block, dir)) :
    dir ≠ [] ∧ ',' ∉ dir := by
  rcases data with _ | data
  · cases hparse
  · rcases parseFields_mem hparse with hnone | ⟨p, hp, htoken⟩
    · cases hnone
    · obtain ⟨rfl, hne⟩ := matchToken_eq_some.1 htoken
      exact ⟨hne, fun hcomma => notMem_of_mem_splitOn hp (List.mem_append_right _ hcomma)⟩

/-! ## What is shown -/

/-- What is shown is read as the copy in the superblock. -/
lemma parseOptions_shown (hne : dir ≠ []) (hcomma : ',' ∉ dir) (flags : CStr) (root : Fid)
    (h : Heap) :
    (parseOptions (fun _ => false) (some (flags ++ showOptions (fillSbInfo root dir))) h).1.map
      Prod.snd = some (strscpy 512 dir) := by
  have hcopy : ',' ∉ lowerdirEq ++ strscpy 512 dir := by
    rw [List.mem_append, not_or]
    exact ⟨by decide, fun hmem => hcomma (List.mem_of_mem_take hmem)⟩
  have htoken : matchToken (lowerdirEq ++ strscpy 512 dir) = some (strscpy 512 dir) := by
    refine matchToken_eq_some.2 ⟨rfl, ?_⟩
    rcases dir with _ | ⟨c, dir⟩
    · exact absurd rfl hne
    · simp [strscpy]
  have hfields : (flags ++ showOptions (fillSbInfo root dir)).splitOn ',' =
      flags.splitOn ',' ++ [lowerdirEq ++ strscpy 512 dir] := by
    rw [showOptions, List.splitOn_append_cons_self]
    rw [show (fillSbInfo root dir).lowerdir = strscpy 512 dir from rfl,
      List.splitOn_eq_singleton hcopy]
  rw [parseOptions, parseFields_last, hfields, List.filterMap_append,
    List.filterMap_cons_some htoken]
  simp

/-- **Options round trip.**  For every mount data that is accepted, whatever options the VFS shows
in front: what `cowfs_show_options` shows is read as the directory that was mounted exactly when
this has less than 512 characters. -/
theorem show_options_iff {data : Option CStr} (fails : ℕ → Bool)
    (hparse : (parseOptions fails data h).1 = some (block, dir)) (flags : CStr) (root : Fid)
    (h' : Heap) :
    (parseOptions (fun _ => false) (some (flags ++ showOptions (fillSbInfo root dir))) h').1.map
      Prod.snd = some dir ↔ dir.length < 512 := by
  obtain ⟨hne, hcomma⟩ := accepted_spec hparse
  rw [parseOptions_shown hne hcomma, Option.some.injEq]
  constructor
  · intro hwhole
    have hlen := congrArg List.length hwhole
    have hpos := List.length_pos_iff.2 hne
    simp only [strscpy, List.length_take] at hlen
    omega
  · exact strscpy_of_lt

/-- Two options; the first value is left behind. -/
def twoOptions : CStr :=
  lowerdirEq ++ ['/', 'a', ',', 'r', 'o', ','] ++ (lowerdirEq ++ ['/', 'l'])

theorem show_options_iff_twoOptions :
    (parseOptions (fun _ => false) (some (['r', 'w'] ++
      showOptions (fillSbInfo 1 ['/', 'l']))) ⟨0, []⟩).1.map Prod.snd = some ['/', 'l'] := by
  have hparse : (parseOptions (fun _ => false) (some twoOptions) ⟨0, []⟩).1 =
      some (1, ['/', 'l']) := by decide +kernel
  exact (show_options_iff (fun _ => false) hparse ['r', 'w'] 1 ⟨0, []⟩).2 (by decide)

end Cowfs
