import Cowfs.Construction.Cowctl
import Cowfs.Properties.Rollback

/-!
# What is read of a request

A request whose path field holds a `NUL` is handled as `Ctl` has it, on the string in front of
the `NUL`: nothing behind the field is read, and `rollback_deleted` splits that very string.  The
field has 512 characters and so has the copy `rollback_deleted` works on, hence a terminated path
is never cut, and a slash found in the copy stands at the same place in the field.

Without a `NUL` the first thing done with the path, the copy `kern_path` makes, leaves the
field.  Memory behind it decides what the path is; the copy of `rollback_deleted`, on the other
hand, ends with the field, and a slash further on lands in the base name.
-/

namespace Cowfs

variable {env : Env} {s : State} {path : List Char} {str dirbuf base : CStr}
  {timestamp : UInt64} {φ : RollbackFaults}

/-! ## The split of a string -/

/-- The split of `rollback_deleted` on a string that fits its buffer. -/
def splitString (str : CStr) : Except Errno (CStr × CStr) :=
  match strrchr '/' str with
  | none => .error .einval
  | some (dir, base) =>
    if base = [] then .error .einval else .ok (if dir = [] then ['/'] else dir, base)

/-- A directory and a base name that spell `str`. -/
structure SplitsAs (str dirbuf base : CStr) : Prop where
  spelled : str = dirbuf ++ '/' :: base ∨ dirbuf = ['/'] ∧ str = '/' :: base
  root : str = '/' :: base → dirbuf = ['/']
  named : base ≠ []
  simple : '/' ∉ base

lemma splitString_spec (h : splitString str = .ok (dirbuf, base)) : SplitsAs str dirbuf base := by
  unfold splitString at h
  split at h
  · cases h
  next dir b hsplit =>
    obtain ⟨rfl, hb⟩ := strrchr_spec hsplit
    split at h
    · cases h
    next hne =>
      simp only [Except.ok.injEq, Prod.mk.injEq] at h
      obtain ⟨rfl, rfl⟩ := h
      by_cases hdir : dir = []
      · subst hdir
        exact ⟨.inr ⟨rfl, rfl⟩, fun _ => rfl, hne, hb⟩
      · rw [if_neg hdir]
        refine ⟨.inl rfl, fun hroot => ?_, hne, hb⟩
        -- a directory in front would make the string longer
        have hlen := congrArg List.length hroot
        have hpos := List.length_pos_iff.2 hdir
        simp only [List.length_append, List.length_cons] at hlen
        omega

lemma head_of_readString (h : readString path = some str) :
    ∃ c, path.head? = some c ∧ (c = nul ↔ str = []) := by
  cases path with
  | nil => cases h
  | cons c cs =>
    refine ⟨c, rfl, ?_⟩
    by_cases hc : c = nul
    · simp only [readString, hc, if_true, Option.some.injEq] at h
      simp [hc, ← h]
    · simp only [readString, hc, if_false, Option.map_eq_some_iff] at h
      obtain ⟨s', -, rfl⟩ := h
      simp [hc]

/-- A string that is shorter than the buffer of the copy is split as it stands. -/
lemma splitDeleted_of_string (h : readString path = some str) (hlen : str.length < reqPathSize) :
    splitDeleted path = some (splitString str) := by
  unfold splitDeleted splitString
  rw [strscpyFrom_of_lt h hlen]
  dsimp only
  cases hsplit : strrchr '/' str with
  | none => rfl
  | some p =>
    obtain ⟨dir, base⟩ := p
    obtain ⟨hstr, -⟩ := strrchr_spec hsplit
    have hbase : readString (path.drop (dir.length + 1)) = some base := by
      have hpath : readString path = some ((dir ++ ['/']) ++ base) := by
        rw [h, hstr, List.append_assoc]
        rfl
      simpa using readString_drop hpath
    obtain ⟨c, hc, hnul⟩ := head_of_readString hbase
    rw [List.head?_drop] at hc
    simp only [hc, hbase]
    by_cases hempty : base = []
    · rw [if_pos hempty, if_pos (hnul.2 hempty)]
    · rw [if_neg hempty, if_neg fun he => hempty (hnul.1 he)]

/-! ## Terminated paths -/

lemma rollbackDeletedAt_of_string (h : readString path = some str)
    (hlen : str.length < reqPathSize) :
    rollbackDeletedAt env s path timestamp φ =
      some (rollbackDeleted env s str timestamp φ) := by
  unfold rollbackDeletedAt rollbackDeleted
  rw [splitDeleted_of_string h hlen, strscpy_of_lt hlen, splitString]
  cases hsplit : strrchr '/' str with
  | none => rfl
  | some p =>
    obtain ⟨dir, base⟩ := p
    have hdrop : str.drop (dir.length + 1) = base := by
      rw [(strrchr_spec hsplit).1, List.drop_append]
      simp
    dsimp only
    rw [hdrop]
    by_cases hempty : base = []
    · rw [if_pos hempty, if_pos hempty]
    · rw [if_neg hempty, if_neg hempty]

/-- **A terminated path.**  The request is handled on the string in front of the terminator, and
nothing else is read. -/
theorem ioctlRollbackAt_of_string (h : readString path = some str)
    (hlen : str.length < reqPathSize) :
    ioctlRollbackAt env s path timestamp φ = some (ioctlRollback env s str timestamp φ) := by
  unfold ioctlRollbackAt ioctlRollback pathToLowerInoAt
  rw [h, Option.map_some]
  cases φ.copyIn with
  | true => rfl
  | false =>
    simp only [Bool.false_eq_true, if_false]
    cases pathToLowerIno env s str φ.path with
    | error e =>
      cases e with
      | enoent => exact rollbackDeletedAt_of_string h hlen
      | _ => rfl
    | ok ino =>
      dsimp only
      cases versionFind env.hash s.store.table ino timestamp with
      | none => rfl
      | some v =>
        dsimp only
        cases cowfsPath env s str φ.path₂ <;> rfl

theorem ioctlListAt_of_string {maxCount : UInt32} {φ : ListFaults}
    (h : readString path = some str) :
    ioctlListAt env s path maxCount φ = some (ioctlList env s str maxCount φ) := by
  unfold ioctlListAt ioctlList pathToLowerInoAt
  rw [h, Option.map_some]
  cases φ.kzalloc with
  | true => rfl
  | false =>
    cases φ.copyIn with
    | true => rfl
    | false =>
      simp only [Bool.false_eq_true, if_false]
      cases pathToLowerIno env s str φ.path with
      | error e => rfl
      | ok ino => cases φ.copyOut <;> rfl

/-! ## Fields -/

/-- The terminator is one of the 512 characters. -/
lemma PathField.length_lt (field : PathField) (h : readString field.chars = some str) :
    str.length < reqPathSize := by
  obtain ⟨rest, hchars, -⟩ := readString_spec h
  have hsize := field.size
  rw [hchars, List.length_append, List.length_cons] at hsize
  omega

/-- Whatever `rollback_deleted` takes for the directory and the base name spells the path. -/
def SplitsExactly (path : List Char) : Prop :=
  ∀ dirbuf base, splitDeleted path = some (.ok (dirbuf, base)) →
    ∃ str, readString path = some str ∧ SplitsAs str dirbuf base

lemma splitsExactly_of_terminated (field : PathField) (h : nul ∈ field.chars) :
    SplitsExactly field.chars := by
  obtain ⟨str, hstr⟩ := Option.isSome_iff_exists.1 (isSome_readString.2 h)
  intro dirbuf base hsplit
  rw [splitDeleted_of_string hstr (field.length_lt hstr), Option.some.injEq] at hsplit
  exact ⟨str, hstr, splitString_spec hsplit⟩

/-- Without a terminator the copy made by `kern_path` leaves the field. -/
lemma pathToLowerInoAt_of_unterminated (h : nul ∉ path) (err : Status) :
    pathToLowerInoAt env s path err = none := by
  rw [pathToLowerInoAt, readString_eq_none.2 h]
  rfl

/-- **When a request stays within its path field.**  For every content of the 512 characters, a
rollback and a listing read nothing behind them, and the directory and the base name of a deleted
file spell the path, exactly when one of the characters is a `NUL`. -/
theorem request_path_iff (env : Env) (s : State) (field : PathField) :
    (∀ timestamp φ, φ.copyIn = false →
      ((ioctlRollbackAt env s field.chars timestamp φ).isSome ∧ SplitsExactly field.chars ↔
        nul ∈ field.chars)) ∧
    ∀ maxCount φ, φ.kzalloc = false → φ.copyIn = false →
      ((ioctlListAt env s field.chars maxCount φ).isSome ↔ nul ∈ field.chars) := by
  constructor
  · intro timestamp φ hcopy
    constructor
    · rintro ⟨hsome, -⟩
      by_contra hnul
      simp [ioctlRollbackAt, hcopy, pathToLowerInoAt_of_unterminated hnul] at hsome
    · intro hnul
      obtain ⟨str, hstr⟩ := Option.isSome_iff_exists.1 (isSome_readString.2 hnul)
      refine ⟨?_, splitsExactly_of_terminated field hnul⟩
      rw [ioctlRollbackAt_of_string hstr (field.length_lt hstr)]
      rfl
  · intro maxCount φ halloc hcopy
    constructor
    · intro hsome
      by_contra hnul
      simp [ioctlListAt, halloc, hcopy, pathToLowerInoAt_of_unterminated hnul] at hsome
    · intro hnul
      obtain ⟨str, hstr⟩ := Option.isSome_iff_exists.1 (isSome_readString.2 hnul)
      rw [ioctlListAt_of_string hstr]
      rfl

/-- The requests of `cowctl` are terminated. -/
lemma nul_mem_requestPath {arg : CStr} (harg : nul ∉ arg) : nul ∈ (requestPath arg).chars := by
  rw [← isSome_readString, readString_requestPath harg]
  rfl

theorem request_path_iff_cowctl :
    (ioctlRollbackAt smallEnv unlinkedState (requestPath ['/', 'm', '/', 'x']).chars 0
      (.clean ⟨0, 0, 0⟩ 11 3000)).isSome ∧
      SplitsExactly (requestPath ['/', 'm', '/', 'x']).chars := by
  have hnul : nul ∈ (requestPath ['/', 'm', '/', 'x']).chars :=
    nul_mem_requestPath (by decide)
  obtain ⟨hrollback, -⟩ :=
    request_path_iff smallEnv unlinkedState (requestPath ['/', 'm', '/', 'x'])
  exact (hrollback 0 (.clean ⟨0, 0, 0⟩ 11 3000) rfl).2 hnul

/-- `/aaa…a/`, 512 characters and no `NUL`. -/
def unterminatedField : PathField :=
  ⟨'/' :: (List.replicate 510 'a' ++ ['/']), by
    rw [List.length_cons, List.length_append, List.length_replicate]
    rfl⟩

/-- Both requests leave the field.  When the number `0x62` stands behind it, in the field of the
timestamp, the base name is `aaa…a/b`. -/
theorem request_path_unterminated :
    ioctlRollbackAt smallEnv unlinkedState unterminatedField.chars 0x62
        (.clean ⟨0, 0, 0⟩ 11 3000) = none ∧
      ioctlListAt smallEnv unlinkedState unterminatedField.chars 32 .clean = none ∧
      splitDeleted (unterminatedField.chars ++ ['b', nul]) =
        some (.ok (['/'], List.replicate 510 'a' ++ ['/', 'b'])) ∧
      ¬ SplitsExactly (unterminatedField.chars ++ ['b', nul]) := by
  have hsplit : splitDeleted (unterminatedField.chars ++ ['b', nul]) =
      some (.ok (['/'], List.replicate 510 'a' ++ ['/', 'b'])) := by decide +kernel
  refine ⟨by decide +kernel, by decide +kernel, hsplit, fun hexact => ?_⟩
  obtain ⟨str, -, hspells⟩ := hexact _ _ hsplit
  exact hspells.simple (List.mem_append_right _ List.mem_cons_self)

end Cowfs
