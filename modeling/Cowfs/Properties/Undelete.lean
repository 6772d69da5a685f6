import Cowfs.Properties.CleanRollback
import Cowfs.Properties.Fidelity

/-!
# Rolling back a deletion

The path of a deleted file does not resolve, so `rollback_deleted` cannot know the inode number
the version is under and goes by the base name: it takes the latest version of a removal of that
name, whichever directory it was removed from.  `undelete_run` says what comes back when the
version of the path asked for is that latest one: a file made by the caller, as `vfs_create` makes
it with the mode saved, that has the content the removed one had.
-/

namespace Cowfs

open KeyedLog

variable {env : Env} {s : State} {op : Op} {dir : Fid} {name path : CStr} {v : CowVersion}
  {i : Inode}

/-! ## Statement -/

/-- A name a file can have. -/
structure FileName (name : CStr) : Prop where
  nonempty : name ≠ []
  noSlash : '/' ∉ name
  length : name.length < pathBufSize

/-- The call removes `name` from `dir`, where the inode `i` is, and records `v` in full. -/
structure RecordsRemoval (env : Env) (s : State) (op : Op) (dir : Fid) (name : CStr) (i : Inode)
    (v : CowVersion) : Prop where
  call : ∃ now φ err, op = .unlink dir name now φ err ∧ φ.getattr = false
  records : ∃ f, s.lower.entries dir name = some f ∧ s.lower.inodes f = some i ∧
    Records env s op i.ino v f
  full : v.hasData = true

/-- The path spells `name` in `dir`, where it is absent. -/
structure Absent (env : Env) (s : State) (path : CStr) (dir : Fid) (name : CStr) : Prop where
  gone : cowfsPath env s path none = .error .enoent
  parent : ∃ dirpath p, path = dirpath ++ '/' :: name ∧ p.file = dir ∧
    cowfsPath env s (if dirpath = [] then ['/'] else dirpath) none = .ok p
  isDir : s.lower.isDir dir = true
  free : s.lower.entries dir name = none
  length : path.length < reqPathSize

/-- No other removal of a file called `name` in the table is as late as `v`. -/
def LatestRemoval (t : VersionsHtable) (name : CStr) (v : CowVersion) : Prop :=
  ∀ w ∈ allVersions t, w.opType = .unlink → w.origName = name → w ≠ v → w.timestamp < v.timestamp

/-! ## The version of a removal -/

/-- What the version of a removal saves. -/
lemma RecordsRemoval.version (h : RecordsRemoval env s op dir name i v)
    (ht : TableInv env.hash s.store.table) (hname : FileName name) :
    v.opType = .unlink ∧ v.origName = name ∧ v.savedStat = ⟨i.mode, i.uid, i.gid, i.mtime⟩ ∧
      stampOf s op = [(i.ino, v.timestamp)] := by
  obtain ⟨now, φ, err, rfl, hstat⟩ := h.call
  obtain ⟨f, hf, hi, hrec⟩ := h.records
  obtain ⟨x, copied, hx, -, -, halloc, -, rfl, -⟩ := hrec.pushed ht
  have hx' := hx
  simp only [snapshotOf, hf, hi, Option.bind_eq_bind, Option.bind_eq_some_iff,
    Option.bind_some] at hx'
  obtain ⟨sbi, -, hx'⟩ := hx'
  obtain rfl := Option.some.inj hx'
  refine ⟨rfl, strscpy_of_lt hname.length, ?_, ?_⟩
  · show snapStat i φ = _
    simp [snapStat, hstat]
  · simp only [stampOf, hx]
    rw [if_neg (by simpa using halloc)]
    rfl

/-- Its shadow file has the content the file had when it was removed. -/
lemma RecordsRemoval.content {l : Lower} {shadow : Fid → Option ShadowFiles}
    {past later : List Op}
    (hclock : (observe (step env) stampOf (State.init l shadow) (past ++ op :: later)).Nodup)
    (hfaithful : Faithful env (State.init l shadow) (past ++ op :: later) s)
    (hname : FileName name)
    (h : RecordsRemoval env (run (step env) (State.init l shadow) past) op dir name i v)
    (hkept : v ∈ s.versions env i.ino) : s.store.shadowAt env v.shadowPath = some i.data := by
  have htable : TableInv env.hash (run (step env) (State.init l shadow) past).store.table :=
    (storeInv_run env l shadow past).table
  obtain ⟨-, -, -, hstamp⟩ := h.version htable hname
  obtain ⟨g, c, hc, pre, a, post, hsplit, hrec, hcontent⟩ :=
    hfaithful.kept i.ino v hkept h.full
  -- a version is recorded once, as its stamp is observed once
  have hstamp' : (i.ino, v.timestamp) ∈ stampOf (run (step env) (State.init l shadow) pre) a := by
    obtain ⟨x, copied, hx, -, hino, halloc, -, rfl, -⟩ :=
      hrec.pushed (storeInv_run env l shadow pre).table
    simp only [stampOf, hx]
    rw [if_neg (by simpa using halloc), ← hino]
    exact List.mem_singleton.2 rfl
  have hmem : (i.ino, v.timestamp) ∈
      stampOf (run (step env) (State.init l shadow) past) op := by
    rw [hstamp]
    exact List.mem_cons_self
  obtain ⟨rfl, rfl⟩ := observe_once _ hclock rfl hsplit hmem hstamp'
  obtain ⟨f, -, hi, ⟨⟨x, hx, hfile, -⟩, -⟩⟩ := h.records
  obtain ⟨⟨y, hy, hfile', -⟩, -⟩ := hrec
  obtain rfl := Option.some.inj (hx.symm.trans hy)
  obtain rfl : f = g := hfile.symm.trans hfile'
  have hdata : c = i.data := hcontent.symm.trans (content_eq hi)
  exact hdata ▸ hc

/-! ## The request -/

/-- The latest removal of the name is the one found. -/
lemma versionFindDeleted_of_latest {t : VersionsHtable} (hv : v ∈ allVersions t)
    (hop : v.opType = .unlink) (hname : v.origName = name) (hlatest : LatestRemoval t name v) :
    versionFindDeleted t name 0 = some v := by
  have hfound := versionFindDeleted_latest t name 0
  have hmatch : DeletedAs name 0 v := ⟨hop, hname, .inl rfl⟩
  cases hw : versionFindDeleted t name 0 with
  | none =>
    rw [hw] at hfound
    exact absurd hmatch (hfound v hv)
  | some w =>
    rw [hw] at hfound
    obtain ⟨hmem, ⟨hop', hname', -⟩, hle⟩ := hfound
    by_contra hne
    have hlt := hlatest w hmem hop' hname' fun he => hne (congrArg some he)
    exact absurd (hle v hv hmatch) (UInt64.not_le.2 hlt)

/-- What a request for an absent name acts on. -/
lemma Absent.chosen (h : Absent env s path dir name) (hname : FileName name)
    {φ : RollbackFaults} (hφ : φ.Fine) (hfind : versionFindDeleted s.store.table name 0 = some v) :
    chosen env s path 0 φ = .ok (.deleted dir name v) := by
  obtain ⟨dirpath, p, rfl, rfl, hp⟩ := h.parent
  have hsplit : strrchr '/' (strscpy reqPathSize (dirpath ++ '/' :: name)) =
      some (dirpath, name) := by
    rw [strscpy_of_lt h.length]
    exact strrchr_append hname.noSlash
  have hbase : (dirpath ++ '/' :: name).drop (dirpath.length + 1) = name := by
    simp [List.drop_append]
  have hgone : pathToLowerIno env s (dirpath ++ '/' :: name) none = .error .enoent := by
    rw [pathToLowerIno, h.gone]
    rfl
  unfold Cowfs.chosen chosenDeleted
  simp only [hφ.copyIn, hφ.path, hφ.parent, hgone, hsplit, hbase, hname.nonempty, hfind, hp,
    h.isDir, Bool.not_true, Bool.false_eq_true, if_false]

/-- The file made for a version whose content is there. -/
lemma recreate_of_fine {φ : RollbackFaults} (hφ : φ.Fine) (hfree : s.lower.entries dir name = none)
    (hdata : v.hasData = true) {c : Content} (hc : s.store.shadowAt env v.shadowPath = some c) :
    recreate env s dir name v φ =
      (none, (withNewFile s.lower dir name v φ).setData s.lower.next c φ.now) := by
  unfold recreate
  have hcreate : vfsCreate s.lower dir name v.savedStat.mode φ.cred φ.ino φ.now φ.create =
      (none, withNewFile s.lower dir name v φ) := by
    simp [vfsCreate, vfsMake, hφ.create, hfree, withNewFile]
  rw [hcreate]
  simp only [hdata, if_true, restore_of_fine hφ.restore hc]

lemma mode_of_umask {mode umask : Umode} (hreg : isRegMode mode = true)
    (humask : mode &&& sIALLUGO &&& umask = 0) :
    (mode &&& ~~~umask) &&& sIALLUGO ||| sIFREG = mode := by
  have htype : mode &&& sIFMT = sIFREG := by simpa [isRegMode] using hreg
  have hall : sIALLUGO ||| sIFMT = BitVec.allOnes 16 := by decide
  have hkeep : mode &&& sIALLUGO &&& ~~~umask = mode &&& sIALLUGO := by
    calc mode &&& sIALLUGO &&& ~~~umask
        = (mode &&& sIALLUGO &&& umask) ||| (mode &&& sIALLUGO &&& ~~~umask) := by
          rw [humask]; simp
      _ = mode &&& sIALLUGO &&& (umask ||| ~~~umask) := by rw [BitVec.and_or_distrib_left]
      _ = mode &&& sIALLUGO := by rw [BitVec.or_not_self, BitVec.and_allOnes]
  calc (mode &&& ~~~umask) &&& sIALLUGO ||| sIFREG
      = (mode &&& sIALLUGO &&& ~~~umask) ||| (mode &&& sIFMT) := by
        rw [htype, BitVec.and_assoc, BitVec.and_comm (~~~umask), ← BitVec.and_assoc]
    _ = mode &&& (sIALLUGO ||| sIFMT) := by rw [hkeep, BitVec.and_or_distrib_left]
    _ = mode := by rw [hall, BitVec.and_allOnes]

/-- **Undelete.**  When the version of a removal is still in the table, is later than those of all
other removed files of that name, and the name is absent, a rollback of its path with which
nothing fails makes the file again: with the content it had, the permission bits the caller's
umask leaves of those it had, and the owner of a file the caller makes there. -/
theorem undelete_run (env : Env) (l : Lower) (shadow : Fid → Option ShadowFiles)
    (past later : List Op) (op : Op) (dir : Fid) (name : CStr) (i : Inode) (v : CowVersion)
    (hclock : (observe (step env) stampOf (State.init l shadow) (past ++ op :: later)).Nodup)
    (hfit : Along (step env) PathFits (State.init l shadow) (past ++ op :: later))
    (hfull : Along (step env) CopiesFully (State.init l shadow) (past ++ op :: later))
    (hname : FileName name) (hreg : isRegMode i.mode = true)
    (hremoval : RecordsRemoval env (run (step env) (State.init l shadow) past) op dir name i v)
    (path : CStr) (φ : RollbackFaults) (hφ : φ.Fine) :
    let s := run (step env) (State.init l shadow) (past ++ op :: later)
    v ∈ s.versions env i.ino → LatestRemoval s.store.table name v → Absent env s path dir name →
      ∃ l' g j, ioctlRollback env s path 0 φ = (none, { s with lower := l' }) ∧
        l'.entries dir name = some g ∧ l'.inodes g = some j ∧ j.data = i.data ∧
        j.mode = ((i.mode &&& ~~~φ.cred.umask) &&& sIALLUGO ||| sIFREG) ∧
        (i.mode &&& sIALLUGO &&& φ.cred.umask = 0 → j.mode = i.mode) ∧
        j.uid = φ.cred.fsuid ∧
        j.gid = if (s.lower.getattr dir).mode &&& sISGID = sISGID then (s.lower.getattr dir).gid
          else φ.cred.fsgid := by
  intro s hkept hlatest habsent
  have hfaithful : Faithful env (State.init l shadow) (past ++ op :: later) s :=
    faithful_run hclock hfit hfull
  have htable : TableInv env.hash s.store.table :=
    (storeInv_run env l shadow (past ++ op :: later)).table
  obtain ⟨hop, horig, hstat, -⟩ := hremoval.version (storeInv_run env l shadow past).table hname
  have hcontent := hremoval.content hclock hfaithful hname hkept
  have hfind : versionFindDeleted s.store.table name 0 = some v :=
    versionFindDeleted_of_latest (htable.mem_allVersions.2 ⟨i.ino, hkept⟩) hop horig hlatest
  have hmade : (withNewFile s.lower dir name v φ).inodes s.lower.next =
      some (newInode s.lower dir sIFREG i.mode φ.cred φ.ino φ.now) := by
    rw [withNewFile, hstat]
    exact Lower.addNode_inodes_next _ _ _ _
  refine ⟨(withNewFile s.lower dir name v φ).setData s.lower.next i.data φ.now, s.lower.next,
    { newInode s.lower dir sIFREG i.mode φ.cred φ.ino φ.now with
      data := i.data, mtime := φ.now }, ?_, ?_, ?_, rfl, rfl, mode_of_umask hreg, rfl, rfl⟩
  · rw [ioctlRollback_eq, habsent.chosen hname hφ hfind]
    simp only [act, hφ.lookup, recreate_of_fine hφ habsent.free hremoval.full hcontent]
  · show (withNewFile s.lower dir name v φ).entries dir name = _
    rw [withNewFile, Lower.addNode_entries, if_pos ⟨rfl, rfl⟩]
  · unfold Lower.setData
    rw [Lower.modify_inodes_self, hmade]
    rfl

/-! ## Two files of one name -/

/-- `a/x` is made by the user 7 and gets the content `[1]`. -/
def filledOps : List Op :=
  [.mount ['/', 'l'] none none, .make sIFREG 2 ['x'] 0x1A4#16 ⟨7, 7, 0⟩ 10 1 none,
    .open 0 4 true none, .write 0 0 [1] 1000 .clean none]

/-- It is removed. -/
def removeFilled : Op := .unlink 2 ['x'] 2000 .clean none

def filledVersion : CowVersion where
  timestamp := 2000
  opType := .unlink
  shadowPath := ['/', 'l', '/'] ++ shadowDir ++ '/' :: decimalPair 10 2000
  origName := ['x']
  savedStat := ⟨sIFREG ||| 0x1A4#16, 7, 7, 1000⟩
  hasData := true
  node := 1

/-- `b/y` is made and removed afterwards. -/
def removeOther : List Op :=
  [.make sIFREG 3 ['y'] 0x1A4#16 ⟨0, 0, 0⟩ 11 2001 none, .unlink 3 ['y'] 3000 .clean none]

/-- The inode of `a/x` when it is removed. -/
def filledInode : Inode := ⟨10, sIFREG ||| 0x1A4#16, 7, 7, 1000, [1]⟩

lemma removeFilled_records :
    RecordsRemoval smallEnv (run (step smallEnv) (State.init smallTree fun _ => none) filledOps)
      removeFilled 2 ['x'] filledInode filledVersion where
  call := ⟨2000, .clean, none, rfl, rfl⟩
  records := by
    have hx : (snapshotOf (run (step smallEnv) (State.init smallTree fun _ => none) filledOps)
        removeFilled).map (fun x => (x.file, x.inode.ino)) = some (4, 10) := by
      decide +kernel
    obtain ⟨x, hx, hpair⟩ := Option.map_eq_some_iff.1 hx
    refine ⟨4, by decide +kernel, by decide +kernel, ⟨x, hx, ?_, ?_⟩, ?_, ?_⟩
    · exact congrArg Prod.fst hpair
    · exact congrArg Prod.snd hpair
    · decide +kernel
    · decide +kernel
  full := rfl

lemma copiesFully_filledOps : Along (step smallEnv) CopiesFully
    (State.init smallTree fun _ => none) (filledOps ++ removeFilled :: removeOther) := by
  refine along_of_forall _ (fun op hop s => copiesFully_of_clean ?_ s) _
  intro φ hφ
  simp only [filledOps, removeFilled, removeOther, List.cons_append, List.nil_append,
    List.mem_cons, List.not_mem_nil, or_false] at hop
  rcases hop with rfl | rfl | rfl | rfl | rfl | rfl | rfl <;> cases hφ <;> rfl

/-- The user 7 gets `a/x` back. -/
theorem undelete_run_filled :
    ∃ l' g j, ioctlRollback smallEnv (run (step smallEnv) (State.init smallTree fun _ => none)
        (filledOps ++ removeFilled :: removeOther)) ['/', 'm', '/', 'a', '/', 'x'] 0
        (.clean ⟨7, 7, 0⟩ 12 4000) = (none, { run (step smallEnv) (State.init smallTree
          fun _ => none) (filledOps ++ removeFilled :: removeOther) with lower := l' }) ∧
      l'.entries 2 ['x'] = some g ∧ l'.inodes g = some j ∧ j.data = [1] ∧
      j.mode = sIFREG ||| 0x1A4#16 ∧ j.uid = 7 := by
  have hkept : filledVersion ∈ (run (step smallEnv) (State.init smallTree fun _ => none)
      (filledOps ++ removeFilled :: removeOther)).versions smallEnv 10 := by
    decide +kernel
  have hlatest : LatestRemoval (run (step smallEnv) (State.init smallTree fun _ => none)
      (filledOps ++ removeFilled :: removeOther)).store.table ['x'] filledVersion := by
    unfold LatestRemoval
    decide +kernel
  have habsent : Absent smallEnv (run (step smallEnv) (State.init smallTree fun _ => none)
      (filledOps ++ removeFilled :: removeOther)) ['/', 'm', '/', 'a', '/', 'x'] 2 ['x'] :=
    ⟨by decide +kernel, ⟨['/', 'm', '/', 'a'], ⟨1, ['a'], 2⟩, rfl, rfl, by decide +kernel⟩,
      by decide +kernel, by decide +kernel, by decide⟩
  obtain ⟨l', g, j, hrollback, hentry, hinode, hdata, -, hmode, huid, -⟩ :=
    undelete_run smallEnv smallTree (fun _ => none) filledOps removeOther removeFilled 2
      ['x'] filledInode filledVersion (by decide +kernel) (by decide +kernel)
      copiesFully_filledOps ⟨by decide, by decide, by decide⟩ (by decide) removeFilled_records
      ['/', 'm', '/', 'a', '/', 'x'] (.clean ⟨7, 7, 0⟩ 12 4000)
      (RollbackFaults.clean_fine ⟨7, 7, 0⟩ 12 4000) hkept hlatest habsent
  exact ⟨l', g, j, hrollback, hentry, hinode, hdata, hmode (by decide), huid⟩

/-- `b/x` is made with the content `[2]` and removed. -/
def removeNamesake : List Op :=
  [.make sIFREG 3 ['x'] 0x1A4#16 ⟨0, 0, 0⟩ 11 2001 none, .open 1 5 true none,
    .write 1 0 [2] 2500 .clean none, .unlink 3 ['x'] 3000 .clean none]

/-- A rollback of `a/x` makes it with the content of `b/x`, although the version of `a/x` is still
there; and the file belongs to the caller. -/
theorem undelete_namesake :
    let before := run (step smallEnv) (State.init smallTree fun _ => none) filledOps
    let s := run (step smallEnv) before (removeFilled :: removeNamesake)
    let r := ioctlRollback smallEnv s ['/', 'm', '/', 'a', '/', 'x'] 0 (.clean ⟨0, 0, 0⟩ 12 4000)
    before.lower.inodeAt 2 ['x'] = some filledInode ∧
      filledVersion ∈ s.versions smallEnv filledInode.ino ∧ r.1 = none ∧
      (r.2.lower.inodeAt 2 ['x']).map Inode.data = some [2] ∧
      (r.2.lower.inodeAt 2 ['x']).map Inode.uid = some 0 := by
  decide +kernel

end Cowfs
