import Cowfs.Construction.Ioctl
import Cowfs.Properties.CowctlTimestamps
import Cowfs.Properties.RequestPath
import Cowfs.Properties.Snapshots
import Cowfs.Properties.TableRefinement

/-!
# `cowctl` and the control device

A listing goes through memory four times: `cowctl` writes the request by its declaration, the
kernel reads it by its own and writes the versions back, `cowctl` reads those.  What comes out is
the listing of `Ctl`, printed (`cowctl_list`), whenever the two are compiled for machines that
align alike and `cowctl` is a program of the kernel's own word size.  Where they do not align
alike, the structure of a listing has another size on either side and hence its command another
number, and the kernel answers `-ENOTTY` and reads nothing.  The structure of a rollback is the
same under both alignments; it is the missing `.compat_ioctl` alone that keeps a `cowctl` of 32
bits under a kernel of 64 from rolling back (`cowctl_rollback`).

The strings of a listing come back whole because no shadow path holds a `NUL`, and none does as
long as no lower directory was named with one.
-/

namespace Cowfs

open CType KeyedLog

variable {env : Env} {K U : CAbi} {i j k : ℕ} {m : List Char}

/-! ## Layouts -/

lemma CAbi.ext_longAlign (h : K.longAlign = U.longAlign) : K = U := by
  obtain ⟨a, ha⟩ := K
  obtain ⟨b, hb⟩ := U
  obtain rfl : a = b := h
  rfl

lemma size_versionInfo (A : CAbi) : (struct A.versionInfo).size = 264 + A.longAlign := by
  obtain ⟨a, rfl | rfl⟩ := A <;> rfl

lemma align_listReqOf (A : CAbi) (n : ℕ) : maxAlign (A.listReqOf n) = A.longAlign := by
  show max 1 (max 4 (max 4 (max (struct A.versionInfo).align 1))) = _
  obtain ⟨a, rfl | rfl⟩ := A <;> rfl

/-- The versions follow without a gap. -/
lemma versions_listReqOf (A : CAbi) (n : ℕ) : offsetFrom 0 (A.listReqOf n) 3 = 520 := by
  have hinfo : alignUp (struct A.versionInfo).align 520 = 520 := by
    obtain ⟨a, rfl | rfl⟩ := A <;> rfl
  have hcounts : offsetFrom 0 [array CType.char reqPathSize, CAbi.u32, CAbi.u32] 3 = 520 := rfl
  rw [← hinfo, ← hcounts]
  simp only [CAbi.listReqOf, offsetFrom, array]

lemma end_listReqOf (A : CAbi) (n : ℕ) :
    offsetFrom 0 (A.listReqOf n) 4 = 520 + n * (264 + A.longAlign) := by
  rw [← versions_listReqOf A n, ← size_versionInfo]
  simp only [CAbi.listReqOf, offsetFrom, array]

lemma size_listReqOf (A : CAbi) (n : ℕ) :
    (struct (A.listReqOf n)).size = 520 + n * (264 + A.longAlign) := by
  show alignUp (maxAlign (A.listReqOf n)) (offsetFrom 0 (A.listReqOf n) 4) = _
  rw [align_listReqOf, end_listReqOf, alignUp]
  obtain ⟨a, rfl | rfl⟩ := A
  all_goals
    dsimp only
    omega

lemma size_rollbackReq (A : CAbi) : (struct A.rollbackReq).size = 520 := by
  obtain ⟨a, rfl | rfl⟩ := A <;> rfl

lemma rollback_timestamp (A : CAbi) : field A.rollbackReq 0 1 = ⟨512, 8⟩ := by
  obtain ⟨a, rfl | rfl⟩ := A <;> rfl

/-- The command of a listing can be encoded for up to 58 versions, or 59, but not for 64. -/
theorem list_fits_iff (A : CAbi) (n : ℕ) :
    (struct (A.listReqOf n)).size < CAbi.iocSizeLimit ↔
      n ≤ if A.longAlign = 8 then 58 else 59 := by
  rw [size_listReqOf, CAbi.iocSizeLimit]
  obtain ⟨a, rfl | rfl⟩ := A <;> simp <;> omega

lemma iocList_eq_iff : U.iocList = K.iocList ↔ K.longAlign = U.longAlign := by
  unfold CAbi.iocList CAbi.ioc CAbi.listReq
  rw [size_listReqOf, size_listReqOf, iocMaxVersions]
  omega

lemma iocRollback_eq : U.iocRollback = K.iocRollback := by
  unfold CAbi.iocRollback CAbi.ioc
  rw [size_rollbackReq, size_rollbackReq]

lemma iocList_ne_iocRollback : U.iocList ≠ K.iocRollback := by
  unfold CAbi.iocList CAbi.iocRollback CAbi.ioc CAbi.listReq
  rw [size_listReqOf, size_rollbackReq]
  omega

/-! ## Places of a list request -/

lemma versionAt_within (hi : i < iocMaxVersions) :
    (K.versionAt i).Within ((struct K.listReq).span 0) := by
  have helem := elem_within (struct K.versionInfo) (field K.listReq 0 3).off hi
  exact helem.trans (field_within (show 3 < K.listReq.length from Nat.lt_succ_self 3))

lemma versionField_within (hj : j < 3) : (K.versionField i j).Within (K.versionAt i) :=
  field_within (show j < K.versionInfo.length from hj)

lemma versionField_apart (hj : j < 3) (hk : k < 3) (hjk : j ≠ k) :
    (K.versionField i j).Apart (K.versionField i k) :=
  field_apart (show j < K.versionInfo.length from hj) hk hjk

/-- A count lies in front of the versions. -/
lemma count_apart (hj : j < 3) (hi : i < iocMaxVersions) :
    (field K.listReq 0 j).Apart (K.versionAt i) := by
  have hlast : 3 < K.listReq.length := Nat.lt_succ_self 3
  have hfields : (field K.listReq 0 j).Apart (field K.listReq 0 3) :=
    field_apart (hj.trans hlast) hlast hj.ne
  exact hfields.within ⟨le_rfl, le_rfl⟩
    (elem_within (struct K.versionInfo) (field K.listReq 0 3).off hi)

lemma versionField_end (hm : m.length = (struct K.listReq).size) (hi : i < iocMaxVersions)
    (hj : j < 3) : (K.versionField i j).off + (K.versionField i j).len ≤ m.length := by
  have hwithin := (versionField_within (K := K) (i := i) hj).trans (versionAt_within hi)
  rw [hm]
  simpa [CType.span] using hwithin.2

/-! ## Versions written and read -/

/-- Element `i` of the versions is `info`. -/
structure InfoAt (K : CAbi) (m : List Char) (i : ℕ) (info : CowfsVersionInfo) : Prop where
  timestamp : getNumber (loadAt m (K.versionField i 0)) = info.timestamp.toNat
  opType : getNumber (loadAt m (K.versionField i 1)) = info.opType.code
  shadowPath : readString (loadAt m (K.versionField i 2)) = some info.shadowPath

variable {info : CowfsVersionInfo}

/-- A string that can be stored: it fits with its terminator, and ends there. -/
def CowfsVersionInfo.Storable (info : CowfsVersionInfo) : Prop :=
  info.shadowPath.length < pathBufSize ∧ nul ∉ info.shadowPath

lemma code_lt (op : CowOp) : op.code < 256 ^ 4 := by
  cases op <;> decide

/-- An assignment to a field of an element. -/
lemma length_assign (hm : m.length = (struct K.listReq).size) (hi : i < iocMaxVersions)
    (hj : j < 3) {cs : List Char} (hcs : cs.length ≤ (K.versionField i j).len) :
    (storeAt m (K.versionField i j).off cs).length = (struct K.listReq).size := by
  rw [length_storeAt hcs (versionField_end hm hi hj), hm]

/-- It leaves what is apart from the field, hence the other fields and all that is apart from the
element. -/
lemma loadAt_assign (hm : m.length = (struct K.listReq).size) (hi : i < iocMaxVersions)
    (hj : j < 3) {cs : List Char} (hcs : cs.length ≤ (K.versionField i j).len) {a : Span}
    (ha : a.Apart (K.versionField i j)) :
    loadAt (storeAt m (K.versionField i j).off cs) a = loadAt m a :=
  loadAt_storeAt_of_apart hcs (versionField_end hm hi hj) ha

/-- **The assignments of one turn.**  The element holds the version, and nothing else changes. -/
lemma writeInfo_spec (hm : m.length = (struct K.listReq).size) (hi : i < iocMaxVersions)
    (hinfo : info.Storable) :
    (writeInfo K i info m).length = (struct K.listReq).size ∧
      InfoAt K (writeInfo K i info m) i info ∧
      ∀ a : Span, a.Apart (K.versionAt i) → loadAt (writeInfo K i info m) a = loadAt m a := by
  have htime : (putNumber 8 info.timestamp.toNat).length ≤ (K.versionField i 0).len :=
    (length_putNumber 8 _).le
  have hop : (putNumber 4 info.opType.code).length ≤ (K.versionField i 1).len :=
    (length_putNumber 4 _).le
  have hpath : (info.shadowPath ++ [nul]).length ≤ (K.versionField i 2).len := by
    rw [List.length_append]
    exact hinfo.1
  unfold writeInfo
  dsimp only
  have hm₁ := length_assign hm hi (show 0 < 3 by omega) htime
  have hm₂ := length_assign hm₁ hi (show 1 < 3 by omega) hop
  have hm₃ := length_assign hm₂ hi (show 2 < 3 by omega) hpath
  refine ⟨hm₃, ⟨?_, ?_, ?_⟩, fun a ha => ?_⟩
  · rw [loadAt_assign hm₂ hi (by omega) hpath (versionField_apart (by omega) (by omega) (by omega)),
      loadAt_assign hm₁ hi (by omega) hop (versionField_apart (by omega) (by omega) (by omega))]
    exact getNumber_stored rfl (versionField_end hm hi (by omega)) info.timestamp.toNat_lt
  · rw [loadAt_assign hm₂ hi (by omega) hpath (versionField_apart (by omega) (by omega) (by omega))]
    exact getNumber_stored rfl (versionField_end hm₁ hi (by omega)) (code_lt _)
  · exact readString_stored hinfo.1 (versionField_end hm₂ hi (by omega)) hinfo.2
  · have hfield : ∀ j < 3, a.Apart (K.versionField i j) := fun j hj =>
      ha.within ⟨le_rfl, le_rfl⟩ (versionField_within hj)
    rw [loadAt_assign hm₂ hi (by omega) hpath (hfield 2 (by omega)),
      loadAt_assign hm₁ hi (by omega) hop (hfield 1 (by omega)),
      loadAt_assign hm hi (by omega) htime (hfield 0 (by omega))]

/-- A version stays where nothing is written. -/
lemma InfoAt.of_loadAt {m' : List Char} (h : InfoAt K m i info)
    (hsame : ∀ j < 3, loadAt m' (K.versionField i j) = loadAt m (K.versionField i j)) :
    InfoAt K m' i info := by
  obtain ⟨htime, hop, hpath⟩ := h
  refine ⟨?_, ?_, ?_⟩
  · rwa [hsame 0 (by omega)]
  · rwa [hsame 1 (by omega)]
  · rwa [hsame 2 (by omega)]

/-- **The loop.**  Every element from `i` on holds its version, and the rest is as before. -/
lemma writeInfos_spec {infos : List CowfsVersionInfo} (hm : m.length = (struct K.listReq).size)
    (hi : i + infos.length ≤ iocMaxVersions) (hinfos : ∀ info ∈ infos, info.Storable) :
    (writeInfos K i infos m).length = (struct K.listReq).size ∧
      (∀ k info, infos[k]? = some info → InfoAt K (writeInfos K i infos m) (i + k) info) ∧
      ∀ a : Span, (∀ k < infos.length, a.Apart (K.versionAt (i + k))) →
        loadAt (writeInfos K i infos m) a = loadAt m a := by
  induction infos generalizing i m with
  | nil => exact ⟨hm, fun k info h => by simp at h, fun _ _ => rfl⟩
  | cons info infos ih =>
    rw [List.length_cons] at hi
    rw [List.forall_mem_cons] at hinfos
    obtain ⟨hlen, hhead, hrest⟩ := writeInfo_spec hm (show i < iocMaxVersions by omega) hinfos.1
    obtain ⟨htlen, htail, htrest⟩ := ih (i := i + 1) hlen (by omega) hinfos.2
    have hshift : ∀ k, i + (k + 1) = i + 1 + k := fun k => by omega
    refine ⟨htlen, fun k info' hk => ?_, fun a ha => ?_⟩
    · rcases k with _ | k
      · obtain rfl : info = info' := by simpa using hk
        -- the turns that follow write behind this element
        refine hhead.of_loadAt fun j hj => htrest _ fun k _ => ?_
        exact (elem_apart _ _ (show i ≠ i + 1 + k by omega)).within (versionField_within hj)
          ⟨le_rfl, le_rfl⟩
      · rw [hshift]
        exact htail k info' (by simpa using hk)
    · rw [writeInfos, htrest a fun k hk => ?_, hrest a (ha 0 (by simp))]
      rw [← hshift]
      exact ha (k + 1) (by simpa using hk)

/-! ## Requests and replies -/

/-- The kernel reads what `cmd_list` wrote. -/
lemma listReqMem_spec (U : CAbi) (path : CStr) :
    (listReqMem U path).length = (struct U.listReq).size ∧
      loadAt (listReqMem U path) (field U.listReq 0 0) = (requestPath path).chars ∧
      getNumber (loadAt (listReqMem U path) (field U.listReq 0 1)) = iocMaxVersions := by
  have hsize := size_listReqOf U iocMaxVersions
  have hpath : (requestPath path).chars.length = (field U.listReq 0 0).len :=
    (requestPath path).size
  have hcount : (putNumber 4 iocMaxVersions).length ≤ (field U.listReq 0 1).len :=
    (length_putNumber 4 _).le
  have hm : (List.replicate (struct U.listReq).size nul).length = (struct U.listReq).size :=
    List.length_replicate
  have hend : ∀ j < 4, (field U.listReq 0 j).off + (field U.listReq 0 j).len ≤
      (struct U.listReq).size := fun j hj => by
    have hwithin : (field U.listReq 0 j).Within ((struct U.listReq).span 0) := field_within hj
    simpa [CType.span] using hwithin.2
  unfold listReqMem
  dsimp only
  have hm₁ := (length_storeAt hpath.le ((hend 0 (by omega)).trans_eq hm.symm)).trans hm
  have hm₂ := (length_storeAt hcount ((hend 1 (by omega)).trans_eq hm₁.symm)).trans hm₁
  refine ⟨hm₂, ?_, ?_⟩
  · rw [loadAt_storeAt_of_apart hcount ((hend 1 (by omega)).trans_eq hm₁.symm)
        (field_apart (show 0 < 4 by omega) (show 1 < 4 by omega) (by omega)),
      loadAt_storeAt_self hpath ((hend 0 (by omega)).trans_eq hm.symm)]
  · exact getNumber_stored rfl ((hend 1 (by omega)).trans_eq hm₁.symm) (by decide)

/-- `cowctl` finds in the reply how many versions there are, and each of them. -/
lemma listReply_spec {infos : List CowfsVersionInfo} (hm : m.length = (struct K.listReq).size)
    (hlen : infos.length ≤ iocMaxVersions) (hinfos : ∀ info ∈ infos, info.Storable) :
    getNumber (loadAt (listReply K infos m) (field K.listReq 0 2)) = infos.length ∧
      ∀ k info, infos[k]? = some info → InfoAt K (listReply K infos m) k info := by
  have hcount : (putNumber 4 infos.length).length ≤ (field K.listReq 0 2).len :=
    (length_putNumber 4 _).le
  have hend : (field K.listReq 0 2).off + (field K.listReq 0 2).len ≤ m.length := by
    have hwithin : (field K.listReq 0 2).Within ((struct K.listReq).span 0) :=
      field_within (show 2 < 4 by omega)
    rw [hm]
    simpa [CType.span] using hwithin.2
  have hm₁ := (length_storeAt hcount hend).trans hm
  obtain ⟨-, hinfo, hrest⟩ := writeInfos_spec (i := 0) hm₁ (by omega) hinfos
  refine ⟨?_, fun k info hk => ?_⟩
  · unfold listReply
    rw [hrest _ fun k hk => count_apart (by omega) (by omega)]
    refine getNumber_stored rfl hend (lt_of_le_of_lt hlen (by decide))
  · have hk' := hinfo k info hk
    rwa [Nat.zero_add] at hk'

lemma rowAt_of_infoAt (zone : Zone) (h : InfoAt K m i info) :
    rowAt K zone m i = some (listRow zone info) := by
  rw [rowAt, h.shadowPath, h.timestamp, h.opType, UInt64.ofNat_toNat]
  rfl

lemma mapM_eq_some {α β : Type} {f : α → Option β} {g : α → β} {xs : List α}
    (h : ∀ x ∈ xs, f x = some (g x)) : xs.mapM f = some (xs.map g) := by
  induction xs with
  | nil => rfl
  | cons x xs ih =>
    rw [List.forall_mem_cons] at h
    rw [List.mapM_cons, h.1, ih h.2]
    rfl

/-- The rows printed are those of the versions. -/
lemma rows_of_infoAt (zone : Zone) {infos : List CowfsVersionInfo}
    (h : ∀ k info, infos[k]? = some info → InfoAt K m k info) :
    (List.range infos.length).mapM (rowAt K zone m) = some (infos.map (listRow zone)) := by
  have hrow : ∀ k ∈ List.range infos.length, rowAt K zone m k =
      some ((infos.map (listRow zone))[k]?.getD []) := fun k hk => by
    have hget := List.getElem?_eq_getElem (List.mem_range.1 hk)
    rw [rowAt_of_infoAt zone (h k _ hget), List.getElem?_map, hget]
    rfl
  rw [mapM_eq_some hrow]
  congr 1
  refine List.ext_getElem (by simp) fun k hk _ => ?_
  simp only [List.length_map, List.length_range] at hk
  simp [hk]

/-! ## Shadow paths hold no `NUL` -/

/-- The lower directory of a mount is a string. -/
def Op.Named : Op → Prop
  | .mount lowerdir _ _ => nul ∉ lowerdir
  | _ => True

structure NulFree (env : Env) (s : State) : Prop where
  store : StoreInv env s.store
  mount : ∀ sbi, s.mount = some sbi → nul ∉ sbi.shadowRoot
  versions : ∀ ino v, v ∈ s.versions env ino → nul ∉ v.shadowPath

lemma nul_notMem_fillSbInfo {root : Fid} {lowerdir : CStr} (h : nul ∉ lowerdir) :
    nul ∉ (fillSbInfo root lowerdir).shadowRoot := by
  intro hmem
  have hmem' := List.mem_of_mem_take hmem
  rw [List.mem_append] at hmem'
  rcases hmem' with hdir | hname
  · exact h hdir
  · exact absurd hname (by decide)

/-- What a step can do to the mount. -/
lemma step_mount (env : Env) (s : State) (op : Op) :
    (step env s op).mount = s.mount ∨ (step env s op).mount = none ∨
      ∃ lowerdir err shadowErr root, op = .mount lowerdir err shadowErr ∧
        (step env s op).mount = some (fillSbInfo root lowerdir) := by
  cases op with
  | mount lowerdir err shadowErr =>
    simp only [step, exec, cowfsMount]
    repeat' split
    · exact .inl rfl
    · exact .inl rfl
    · exact .inl rfl
    · exact .inr (.inr ⟨_, _, _, _, rfl, rfl⟩)
  | umount => exact .inr (.inl rfl)
  | «open» fd f writable err =>
    simp only [step, exec, cowfsOpen]
    split <;> exact .inl rfl
  | write fd pos bytes now φ err =>
    simp only [step, exec, cowfsWrite]
    split
    · split
      · exact .inl rfl
      · split_ifs <;> exact .inl rfl
    · exact .inl rfl
  | rollback path timestamp φ =>
    obtain ⟨l, hl⟩ := ioctlRollback_frame env s path timestamp φ
    refine .inl ?_
    show (ioctlRollback env s path timestamp φ).2.mount = _
    rw [hl]
  | gc now windowSeconds fail =>
    rw [step_gc]
    exact .inl rfl
  | release => exact .inl rfl
  | make =>
    simp only [step, exec, cowfsMake]
    split <;> exact .inl rfl
  | link =>
    simp only [step, exec, cowfsLink]
    split <;> exact .inl rfl
  | rmdir =>
    simp only [step, exec, cowfsRmdir]
    split <;> exact .inl rfl
  | unlink =>
    simp only [step, exec, cowfsUnlink]
    split <;> exact .inl rfl
  | rename =>
    simp only [step, exec, cowfsRename]
    split <;> exact .inl rfl
  | setattr =>
    simp only [step, exec, cowfsSetattr]
    split <;> exact .inl rfl

lemma nul_notMem_decimal (n : ℕ) : nul ∉ decimal n := fun h => by
  have hdigit := Nat.isDigit_of_mem_toDigits (b := 10) (by norm_num) (by norm_num) h
  exact absurd hdigit (by decide)

lemma nul_notMem_path {x : Snapshot} (h : nul ∉ x.sbi.shadowRoot) : nul ∉ x.path := by
  intro hmem
  have hmem' := List.mem_of_mem_take hmem
  rw [List.mem_append, List.mem_cons] at hmem'
  rcases hmem' with hroot | hslash | hname
  · exact h hroot
  · exact absurd hslash (by decide)
  · rw [decimalPair, List.mem_append, List.mem_cons] at hname
    rcases hname with hino | hunderscore | htime
    · exact nul_notMem_decimal _ hino
    · exact absurd hunderscore (by decide)
    · exact nul_notMem_decimal _ htime

lemma NulFree.step {s : State} {op : Op} (h : NulFree env s) (hop : op.Named) :
    NulFree env (step env s op) := by
  refine ⟨h.store.step op, fun sbi hsbi => ?_, fun ino v hv => ?_⟩
  · rcases step_mount env s op with hm | hm | ⟨lowerdir, err, shadowErr, root, rfl, hm⟩
    · exact h.mount sbi (hm ▸ hsbi)
    · rw [hm] at hsbi
      cases hsbi
    · obtain rfl : fillSbInfo root lowerdir = sbi := Option.some.inj (hm.symm.trans hsbi)
      exact nul_notMem_fillSbInfo hop
  · have hstep := step_versions h.store.table op
    generalize (Cowfs.step env s op).versions env = vs at hv hstep
    rcases hstep with _ | @⟨x, copied, hx, -, -⟩ | p
    · exact h.versions ino v hv
    · rcases mem_push hv with ⟨rfl, rfl⟩ | hv'
      · rcases copied with _ | _
        · exact List.not_mem_nil
        · rw [Snapshot.version_shadowPath]
          exact nul_notMem_path (h.mount _ (snapshotOf_spec hx).1)
      · exact h.versions ino v hv'
    · exact h.versions ino v (List.mem_of_mem_filter hv)

theorem nulFree_run (env : Env) (l : Lower) (shadow : Fid → Option ShadowFiles) {ops : List Op}
    (hops : ∀ op ∈ ops, op.Named) : NulFree env (run (step env) (State.init l shadow) ops) := by
  refine invariant_run (fun s op h hop => h.step hop) ⟨storeInv_init env shadow, ?_, ?_⟩
    (along_of_forall _ (fun op hop _ => hops op hop) _)
  · rintro sbi ⟨⟩
  · intro ino v hv
    simp [State.versions, State.init, Store.init] at hv

/-- What a listing answers can be stored in the reply. -/
lemma NulFree.storable {s : State} (h : NulFree env s) {path : CStr} {maxCount : UInt32}
    {φ : ListFaults} {infos : List CowfsVersionInfo}
    (hlist : ioctlList env s path maxCount φ = .ok infos) : ∀ info ∈ infos, info.Storable := by
  obtain ⟨ino, -, rfl⟩ := ioctlList_answered hlist
  intro info hinfo
  obtain ⟨v, hv, rfl⟩ := List.mem_map.1 hinfo
  rw [versionList_eq] at hv
  refine ⟨?_, fun hnul => ?_⟩
  · show (v.shadowPath.take (pathBufSize - 1)).length < pathBufSize
    rw [List.length_take]
    have hpos : 0 < pathBufSize := by decide
    omega
  · exact h.versions ino v (List.mem_of_mem_take hv) (List.mem_of_mem_take hnul)

/-! ## Calls -/

/-- A listing of memory that holds the request of `cmd_list`. -/
lemma ioctl_listReq (K : CAbi) (env : Env) (s : State) {path : CStr} (hpath : nul ∉ path)
    (φ : ListFaults) (ψ : RollbackFaults) :
    cowfsCtlIoctl K env s K.iocList (listReqMem K path) φ ψ =
      some (match ioctlList env s (path.take 511) 32 φ with
        | .error e => ⟨some e, s, listReqMem K path⟩
        | .ok infos => ⟨none, s, listReply K infos (listReqMem K path)⟩) := by
  obtain ⟨hm, hreq, hmax⟩ := listReqMem_spec K path
  generalize listReqMem K path = m at *
  have hshort : decide (m.length < (struct K.listReq).size) = false := by
    rw [hm, decide_eq_false (lt_irrefl _)]
  have hlist : ioctlListAt env s (requestPath path).chars 32 φ = _ :=
    ioctlListAt_of_string (readString_requestPath hpath)
  unfold cowfsCtlIoctl
  rw [if_pos rfl]
  dsimp only
  rw [hreq, hmax, hshort, Bool.or_false, show UInt32.ofNat iocMaxVersions = 32 from rfl, hlist]
  rcases ioctlList env s (path.take 511) 32 φ with e | infos <;> rfl

/-- **A listing, from end to end.**  After every run, for every path and whatever calls fail: if
`cowctl` is a native program and it and the kernel align numbers of 64 bits alike, `cowctl list`
prints the versions the listing of `Ctl` answers for the first 511 characters of the path, or
reports its error; otherwise the call is refused with `-ENOTTY` before anything is read. -/
theorem cowctl_list (entry : CtlEntry) (K U : CAbi) (env : Env) (l : Lower)
    (shadow : Fid → Option ShadowFiles) {ops : List Op} (hops : ∀ op ∈ ops, op.Named) (zone : Zone)
    {path : CStr} (hpath : nul ∉ path) (φ : ListFaults) (ψ : RollbackFaults) :
    cowctlList entry K U env (run (step env) (State.init l shadow) ops) zone path φ ψ =
      some (if entry = .native ∧ K.longAlign = U.longAlign then
        (ioctlList env (run (step env) (State.init l shadow) ops) (path.take 511) 32 φ).map
          (cmdList zone path)
      else .error .enotty) := by
  have hfree := nulFree_run env l shadow hops
  generalize run (step env) (State.init l shadow) ops = s at hfree ⊢
  cases entry with
  | compat => rfl
  | native =>
    by_cases hKU : K.longAlign = U.longAlign
    · obtain rfl := CAbi.ext_longAlign hKU
      rw [if_pos ⟨rfl, rfl⟩]
      unfold cowctlList ctlDevIoctl
      dsimp only
      rw [ioctl_listReq K env s hpath φ ψ]
      rcases hanswer : ioctlList env s (path.take 511) 32 φ with e | infos
      · rfl
      · obtain ⟨hfound, hinfos⟩ := listReply_spec (listReqMem_spec K path).1
          (ioctlList_length_le hanswer) (hfree.storable hanswer)
        dsimp only
        rw [hfound, rows_of_infoAt zone hinfos, Option.map_some]
        rfl
    · have hrefused : cowfsCtlIoctl K env s U.iocList (listReqMem U path) φ ψ =
          some ⟨some .enotty, s, listReqMem U path⟩ := by
        unfold cowfsCtlIoctl
        rw [if_neg (mt iocList_eq_iff.1 hKU), if_neg iocList_ne_iocRollback]
      rw [if_neg fun h => hKU h.2]
      unfold cowctlList ctlDevIoctl
      dsimp only
      rw [hrefused]

def x86_64 : CAbi := ⟨8, .inr rfl⟩

def i386 : CAbi := ⟨4, .inl rfl⟩

theorem cowctl_list_shown :
    cowctlList .native x86_64 x86_64 smallEnv (shownAt 1970) Zone.utc shownPath .clean
        (.clean ⟨0, 0, 0⟩ 11 3000) =
      some (.ok (cmdList Zone.utc shownPath [listInfo (shownVersion 1970)])) ∧
    cowctlList .compat x86_64 i386 smallEnv (shownAt 1970) Zone.utc shownPath .clean
        (.clean ⟨0, 0, 0⟩ 11 3000) = some (.error .enotty) := by
  have hanswer : ioctlList smallEnv (shownAt 1970) (shownPath.take 511) 32 .clean =
      .ok [listInfo (shownVersion 1970)] := by decide +kernel
  have hops : ∀ entry U, cowctlList entry x86_64 U smallEnv (shownAt 1970) Zone.utc shownPath
      .clean (.clean ⟨0, 0, 0⟩ 11 3000) = _ := fun entry U =>
    cowctl_list entry x86_64 U smallEnv smallTree (fun _ => none) (by simp [Op.Named, nul]) Zone.utc
      (by decide) .clean (.clean ⟨0, 0, 0⟩ 11 3000)
  refine ⟨?_, hops .compat i386⟩
  rw [hops .native x86_64, if_pos ⟨rfl, rfl⟩]
  show some (Except.map (cmdList Zone.utc shownPath)
    (ioctlList smallEnv (shownAt 1970) (shownPath.take 511) 32 .clean)) = _
  rw [hanswer]
  rfl

/-- The kernel reads what `cmd_rollback` wrote, by whichever declaration. -/
lemma rollbackReqMem_spec (K U : CAbi) (path : CStr) (tsStr : Option CStr) :
    (rollbackReqMem U path tsStr).length = (struct K.rollbackReq).size ∧
      loadAt (rollbackReqMem U path tsStr) (field K.rollbackReq 0 0) = (requestPath path).chars ∧
      getNumber (loadAt (rollbackReqMem U path tsStr) (field K.rollbackReq 0 1)) =
        (requestTimestamp tsStr).toNat := by
  have hpath : (requestPath path).chars.length = (field K.rollbackReq 0 0).len :=
    (requestPath path).size
  have hpathU : field U.rollbackReq 0 0 = field K.rollbackReq 0 0 := rfl
  have htime : (putNumber 8 (requestTimestamp tsStr).toNat).length ≤
      (field K.rollbackReq 0 1).len := (length_putNumber 8 _).le
  have htimeU : field U.rollbackReq 0 1 = field K.rollbackReq 0 1 := by
    rw [rollback_timestamp, rollback_timestamp]
  have hm : (List.replicate (struct U.rollbackReq).size nul).length =
      (struct K.rollbackReq).size := by
    rw [List.length_replicate, size_rollbackReq, size_rollbackReq]
  have hend : ∀ j < 2, (field K.rollbackReq 0 j).off + (field K.rollbackReq 0 j).len ≤
      (struct K.rollbackReq).size := fun j hj => by
    have hwithin : (field K.rollbackReq 0 j).Within ((struct K.rollbackReq).span 0) :=
      field_within hj
    simpa [CType.span] using hwithin.2
  unfold rollbackReqMem
  dsimp only
  rw [hpathU, htimeU]
  have hm₁ := (length_storeAt hpath.le ((hend 0 (by omega)).trans_eq hm.symm)).trans hm
  have hm₂ := (length_storeAt htime ((hend 1 (by omega)).trans_eq hm₁.symm)).trans hm₁
  refine ⟨hm₂, ?_, ?_⟩
  · rw [loadAt_storeAt_of_apart htime ((hend 1 (by omega)).trans_eq hm₁.symm)
        (field_apart (show 0 < 2 by omega) (show 1 < 2 by omega) (by omega)),
      loadAt_storeAt_self hpath ((hend 0 (by omega)).trans_eq hm.symm)]
  · exact getNumber_stored rfl ((hend 1 (by omega)).trans_eq hm₁.symm)
      (requestTimestamp tsStr).toNat_lt

/-- A rollback of memory that holds the request of `cmd_rollback`. -/
lemma ioctl_rollbackReq (K U : CAbi) (env : Env) (s : State) {path : CStr} (hpath : nul ∉ path)
    (tsStr : Option CStr) (φ : ListFaults) (ψ : RollbackFaults) :
    (cowfsCtlIoctl K env s U.iocRollback (rollbackReqMem U path tsStr) φ ψ).map
        (fun r => (r.ret, r.state)) =
      some (ioctlRollback env s (path.take 511) (requestTimestamp tsStr) ψ) := by
  obtain ⟨hm, hreq, htime⟩ := rollbackReqMem_spec K U path tsStr
  have hstring := readString_requestPath hpath
  have hshort : decide ((rollbackReqMem U path tsStr).length < (struct K.rollbackReq).size) =
      false := by
    rw [hm, decide_eq_false (lt_irrefl _)]
  have hrollback : ioctlRollbackAt env s (requestPath path).chars (requestTimestamp tsStr) ψ = _ :=
    ioctlRollbackAt_of_string hstring ((requestPath path).length_lt hstring)
  unfold cowfsCtlIoctl
  rw [if_neg iocList_ne_iocRollback.symm, if_pos iocRollback_eq]
  dsimp only
  rw [hreq, htime, hshort, Bool.or_false, UInt64.ofNat_toNat, hrollback]
  rfl

/-- **A rollback, from end to end.**  In every state: `cowctl rollback` of a native program does
what the rollback of `Ctl` does to the first 511 characters of the path, whichever way the two
align their numbers; one of 32 bits under a kernel of 64 is answered `-ENOTTY` and changes
nothing. -/
theorem cowctl_rollback (entry : CtlEntry) (K U : CAbi) (env : Env) (s : State) {path : CStr}
    (hpath : nul ∉ path) (tsStr : Option CStr) (φ : ListFaults) (ψ : RollbackFaults) :
    cowctlRollback entry K U env s path tsStr φ ψ =
      some (if entry = .native then ioctlRollback env s (path.take 511) (requestTimestamp tsStr) ψ
        else (some .enotty, s)) := by
  cases entry with
  | native => exact ioctl_rollbackReq K U env s hpath tsStr φ ψ
  | compat => rfl

theorem cowctl_rollback_shown :
    (cowctlRollback .native x86_64 x86_64 smallEnv (shownAt 1970) shownPath none .clean
      (.clean ⟨0, 0, 0⟩ 11 3000)).map (fun r => (r.1, r.2.lower.content 4)) = some (none, []) ∧
    (cowctlRollback .compat x86_64 i386 smallEnv (shownAt 1970) shownPath none .clean
      (.clean ⟨0, 0, 0⟩ 11 3000)).map Prod.fst = some (some .enotty) := by
  have hops : ∀ entry U, cowctlRollback entry x86_64 U smallEnv (shownAt 1970) shownPath none
      .clean (.clean ⟨0, 0, 0⟩ 11 3000) = _ := fun entry U =>
    cowctl_rollback entry x86_64 U smallEnv (shownAt 1970) (by decide) none .clean
      (.clean ⟨0, 0, 0⟩ 11 3000)
  rw [hops .native x86_64, hops .compat i386]
  refine ⟨?_, rfl⟩
  decide +kernel

end Cowfs
