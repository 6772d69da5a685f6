import Cowfs.Properties.FaithfulCopy
import Cowfs.Properties.FileCalls
import Cowfs.Properties.RenameUndo
import Cowfs.Properties.SnapshotOutcome

/-!
# Taking back a change of attributes

`cowfs_setattr` records a whole `struct kstat`, and the content when the size changes.  The
rollback asks `notify_change` for three of the four attributes recorded, so the modification time
stays as it is at that moment: the one the request set, or, when the content was written back,
the time of the rollback.  `setattr_rollback_iff` says when that is the old one.
-/

namespace Cowfs

open KeyedLog

variable {env : Env} {s : State} {l : Lower} {f : Fid} {attr : Iattr}

/-! ## What is recorded -/

/-- A step that records a version is one whose snapshot enters the table. -/
lemma Records.enters {op : Op} {ino : UInt64} {v : CowVersion} {g : Fid}
    (h : TableInv env.hash s.store.table) (hr : Records env s op ino v g) :
    ∃ x, snapshotOf s op = some x ∧ x.file = g ∧ x.inode.ino = ino ∧ x.Enters env s.store ∧
      v = x.version s.store.nextNode (x.enteredCopied env s.store) ∧
      (step env s op).versions env = push maxVersions ino v (s.versions env) := by
  obtain ⟨⟨x, hx, hfile, hino⟩, hnew, hmem⟩ := hr
  have henters : x.Enters env s.store := by
    by_contra hno
    rw [versions_of_not_enters hx hno] at hmem
    exact hnew hmem
  have hversions := versions_of_enters h hx henters
  rw [hversions, hino] at hmem
  rcases mem_push hmem with ⟨-, rfl⟩ | hold
  · exact ⟨x, hx, hfile, hino, henters, rfl, by rw [hversions, hino]⟩
  · exact absurd hold hnew

/-- The shadow file of a snapshot that entered holds what the copy delivered, if it is there: the
version pushed out may have had the same one. -/
lemma shadowAt_of_take {x : Snapshot} {st : Store} (h : TableInv env.hash st.table)
    (henters : x.Enters env st) (hc : x.kind.copies = true) (hcopied : (x.copy env st).1 = none)
    {c : Content} (hat : (x.take env st).shadowAt env x.path = some c) :
    c = (copyAll x.φ.copy.io x.inode.data).2 := by
  obtain ⟨t, htake, -⟩ := x.take_of_enters h henters
  rw [htake] at hat
  -- the table has no part in what the files are
  have hbefore : ({ (x.copy env st).2 with table := t } : Store).shadowAt env x.path = some c :=
    shadowAt_of_versionsFree hat
  replace hbefore : (x.copy env st).2.shadowAt env x.path = some c := hbefore
  rw [Snapshot.shadowAt_copied hc hcopied] at hbefore
  exact (Option.some.inj hbefore).symm

/-- The version of a change of attributes whose snapshot has not failed. -/
structure AttrVersion (env : Env) (s s₁ : State) (f : Fid) (attr : Iattr) (φ : SnapFaults)
    (i : Inode) (v : CowVersion) : Prop where
  opType : v.opType = .setattr
  savedStat : v.savedStat = ⟨i.mode, i.uid, i.gid, i.mtime⟩
  hasData : v.hasData = attr.iaSize.isSome
  pushed : s₁.versions env = push maxVersions i.ino v (s.versions env)
  content : v.hasData = true → ∀ c, s₁.store.shadowAt env v.shadowPath = some c →
    c = (copyAll φ.copy.io i.data).2

lemma records_setattr {now : UInt64} {φ : SnapFaults} {err : Status} {ino : UInt64}
    {v : CowVersion} {g : Fid} (h : TableInv env.hash s.store.table)
    (hr : Records env s (.setattr f attr now φ err) ino v g) (hstat : φ.getattr = false)
    (hcopied : ∀ x ∈ snapshotOf s (.setattr f attr now φ err), (x.copy env s.store).1 = none) :
    ∃ i, s.lower.inodes f = some i ∧ g = f ∧ i.ino = ino ∧
      AttrVersion env s (step env s (.setattr f attr now φ err)) f attr φ i v := by
  obtain ⟨x, hx, rfl, rfl, henters, rfl, hpush⟩ := hr.enters h
  have hok := hcopied x hx
  have hstore : (step env s (.setattr f attr now φ err)).store = x.take env s.store :=
    step_store_of_snapshot hx
  simp only [snapshotOf, Option.bind_eq_bind, Option.bind_eq_some_iff] at hx
  obtain ⟨sbi, -, i, hi, hx⟩ := hx
  cases hx
  have hdata : (Snapshot.mk (.setattr attr.iaSize.isSome) f i sbi now φ).enteredCopied env s.store =
      attr.iaSize.isSome := by
    rw [Snapshot.enteredCopied, hok]
    exact Bool.and_true _
  refine ⟨i, hi, rfl, rfl, rfl, ?_, hdata, hpush, fun hd c hc => ?_⟩
  · show snapStat i φ = _
    rw [snapStat, if_neg (by simp [hstat])]
  · have hcopies : attr.iaSize.isSome = true := hdata.symm.trans hd
    rw [hdata, hcopies, Snapshot.version_shadowPath, hstore] at hc
    exact shadowAt_of_take h henters hcopies hok hc

/-! ## What comes back -/

/-- The file has its former content, mode, owner and modification time. -/
def GivenBack (l l' : Lower) (f : Fid) : Prop :=
  l'.content f = l.content f ∧ l'.getattr f = l.getattr f

instance (l l' : Lower) (f : Fid) : Decidable (GivenBack l l' f) :=
  inferInstanceAs (Decidable (_ ∧ _))

/-- The tree after a change of attributes and the restoration of the three that are restored. -/
lemma givenBack_iff {i : Inode} (hi : l.inodes f = some i) {l' : Lower} {i' : Inode}
    (hi' : l'.inodes f = some i') :
    GivenBack l l' f ↔
      i'.data = i.data ∧ i'.mode = i.mode ∧ i'.uid = i.uid ∧ i'.gid = i.gid ∧
        i'.mtime = i.mtime := by
  simp [GivenBack, content_eq hi, content_eq hi', getattr_eq hi, getattr_eq hi']

/-- The modification time after both calls is the old one, and no copy was short. -/
def Returns (l : Lower) (f : Fid) (attr : Iattr) (φ : SnapFaults) (φ' : RollbackFaults) : Prop :=
  if attr.iaSize.isSome then
    CompleteAll φ.copy.io (l.content f) ∧ CompleteAll φ'.restore.io (l.content f) ∧
      φ'.now = (l.getattr f).mtime
  else ∀ t, attr.iaMtime = some t → t = (l.getattr f).mtime

/-- What a rollback of a version of a change of attributes leaves, when it returns 0 and
`notify_change` does not fail. -/
lemma rollbackVersion_setattr {p : Place} {v : CowVersion} {φ : RollbackFaults} {s' : State}
    (hop : v.opType = .setattr) (hnotify : φ.notify = none)
    (h : rollbackVersion env s p v φ = (none, s')) :
    ∃ l, s'.lower = l.modify p.file (setattrInode (savedAttr v) φ.now) ∧
      if v.hasData then
        ∃ src, s.store.shadowAt env v.shadowPath = some src ∧
          l = s.lower.setData p.file (copyAll φ.restore.io src).2 φ.now
      else l = s.lower := by
  have hfst : (rollbackDispatch env s p v φ).1 = none := by
    rw [← rollbackVersion_fst, h]
  have hlower := rollbackVersion_lower env s p v φ
  rw [h, if_pos ⟨hfst, hop⟩, hnotify] at hlower
  refine ⟨(rollbackDispatch env s p v φ).2, hlower, ?_⟩
  cases hd : v.hasData with
  | true =>
    rw [rollbackDispatch_data env s p φ (by simp [hop]) hd] at hfst ⊢
    rw [if_pos rfl]
    obtain ⟨src, hsrc, -, hl⟩ := restore_success (Prod.ext hfst rfl)
    exact ⟨src, hsrc, hl⟩
  | false =>
    rw [rollbackDispatch_nodata env s p φ (by simp [hop]) hd, if_neg Bool.false_ne_true,
      if_neg (by simp [hop])]

/-- The two changes of attributes, without a change of content between them. -/
lemma givenBack_unsized {i : Inode} (hi : l.inodes f = some i) {v : CowVersion}
    (hstat : v.savedStat = ⟨i.mode, i.uid, i.gid, i.mtime⟩) (hsize : attr.iaSize = none)
    (now now' : ℕ) :
    GivenBack l ((l.modify f (setattrInode attr now)).modify f
        (setattrInode (savedAttr v) now')) f ↔
      ∀ t, attr.iaMtime = some t → t = i.mtime := by
  have hi' : ((l.modify f (setattrInode attr now)).modify f
      (setattrInode (savedAttr v) now')).inodes f =
        some (setattrInode (savedAttr v) now' (setattrInode attr now i)) := by
    simp [hi]
  rw [givenBack_iff hi hi']
  cases hm : attr.iaMtime <;>
    simp [setattrInode, savedAttr, Iattr.zero, notifyMode, hstat, hsize, hm]

/-- The same when a content is written back in between. -/
lemma givenBack_sized {i : Inode} (hi : l.inodes f = some i) {v : CowVersion}
    (hstat : v.savedStat = ⟨i.mode, i.uid, i.gid, i.mtime⟩) (c : Content) (now now' : ℕ) :
    GivenBack l (((l.modify f (setattrInode attr now)).setData f c now').modify f
        (setattrInode (savedAttr v) now')) f ↔
      c = i.data ∧ now' = i.mtime := by
  have hi' : (((l.modify f (setattrInode attr now)).setData f c now').modify f
      (setattrInode (savedAttr v) now')).inodes f =
        some (setattrInode (savedAttr v) now'
          { setattrInode attr now i with data := c, mtime := now' }) := by
    simp [hi, Lower.setData]
  rw [givenBack_iff hi hi']
  simp [setattrInode, savedAttr, Iattr.zero, notifyMode, hstat]

/-- `touch -d @5` on the file. -/
def touchFile : Op := .setattr 4 { Iattr.zero with iaMtime := some 5 } 1000 SnapFaults.clean none

/-- `truncate -s 0` on the file. -/
def shrinkFile : Op := .setattr 4 { Iattr.zero with iaSize := some 0 } 1000 SnapFaults.clean none

/-- `chown 7` and `chmod 600` in one request. -/
def chownFile : Op :=
  .setattr 4 { Iattr.zero with iaMode := some (sIFREG ||| 0x180#16), iaUid := some 7 } 1000
    SnapFaults.clean none

/-- The rollback of the version recorded by `op`, 1000 later. -/
def takenBack (op : Op) : Status × State :=
  ioctlRollback smallEnv (step smallEnv fileMounted op) ['/', 'm', '/', 'x'] 1000
    (.clean ⟨0, 0, 0⟩ 11 2000)

/-- What the change of mode and owner records. -/
def chownVersion : CowVersion where
  timestamp := 1000
  opType := .setattr
  shadowPath := []
  origName := []
  savedStat := ⟨sIFREG ||| 0x1A4#16, 0, 0, 0⟩
  hasData := false
  node := 0

end Cowfs
