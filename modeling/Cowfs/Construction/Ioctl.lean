import Cowfs.Construction.Cowctl
import Cowfs.Framework.CLayout

/-!
# The control device in memory (`cowfs.h`, `cowfs_ctl.c`, `cowctl.c`)

The structures of the requests are declared twice, in `cowfs.h` with the types of the kernel and
in `cowctl.c` with those of C.  Nothing but the number of a command, in which the size of its
structure is encoded, tells the kernel by which declaration the memory it is handed was written.

The two declarations are the same text up to the names of the types; what may differ is the
alignment of a number of 64 bits, and with it the layout.  A program of 32 bits under a kernel of
64 does not get so far: for its calls the device has no function.
-/

namespace Cowfs

open CType

/-! ## Declarations -/

/-- The alignment of `u64` and `unsigned long long`; it is 4 on some machines of 32 bits. -/
structure CAbi where
  longAlign : ℕ
  longAlign_eq : longAlign = 4 ∨ longAlign = 8

namespace CAbi

lemma longAlign_pos (A : CAbi) : 0 < A.longAlign := by
  rcases A.longAlign_eq with h | h <;> omega

lemma longAlign_dvd (A : CAbi) : A.longAlign ∣ 8 := by
  rcases A.longAlign_eq with h | h
  · rw [h]
    omega
  · rw [h]

/-- `u64`, `unsigned long long` -/
def u64 (A : CAbi) : CType := number 8 A.longAlign A.longAlign_pos A.longAlign_dvd

/-- `u32`, `unsigned int` -/
def u32 : CType := number 4 4 (by omega) dvd_rfl

/-- `struct cowfs_version_info`: `timestamp`, `op_type`, `shadow_path` -/
def versionInfo (A : CAbi) : List CType := [A.u64, u32, array char pathBufSize]

/-- `struct cowfs_list_req` with room for `n` versions: `path`, `max_count`, `found_count`,
`versions` -/
def listReqOf (A : CAbi) (n : ℕ) : List CType :=
  [array char reqPathSize, u32, u32, array (struct A.versionInfo) n]

def listReq (A : CAbi) : List CType := A.listReqOf iocMaxVersions

/-- `struct cowfs_rollback_req`: `path`, `timestamp` -/
def rollbackReq (A : CAbi) : List CType := [array char reqPathSize, A.u64]

/-- Element `i` of `versions` in a list request. -/
def versionAt (A : CAbi) (i : ℕ) : Span :=
  elem (struct A.versionInfo) (field A.listReq 0 3).off i

/-- Field `j` of that element. -/
def versionField (A : CAbi) (i j : ℕ) : Span := field A.versionInfo (A.versionAt i).off j

/-! ## Numbers of commands -/

/-- The number of characters `_IOC` has 14 bits for. -/
def iocSizeLimit : ℕ := 2 ^ 14

/-- `_IOC(dir, 'C', nr, size)` -/
def ioc (dir nr size : ℕ) : ℕ := dir * 2 ^ 30 + size * 2 ^ 16 + 'C'.toNat * 2 ^ 8 + nr

/-- `COWFS_IOC_LIST`, `_IOWR` -/
def iocList (A : CAbi) : ℕ := ioc 3 1 (struct A.listReq).size

/-- `COWFS_IOC_ROLLBACK`, `_IOW` -/
def iocRollback (A : CAbi) : ℕ := ioc 1 2 (struct A.rollbackReq).size

end CAbi

/-! ## The kernel -/

/-- The assignments to `req->versions[i]`. -/
def writeInfo (K : CAbi) (i : ℕ) (info : CowfsVersionInfo) (m : List Char) : List Char :=
  let m := storeAt m (K.versionField i 0).off (putNumber 8 info.timestamp.toNat)
  let m := storeAt m (K.versionField i 1).off (putNumber 4 info.opType.code)
  -- strscpy; it does not fill up what is behind the terminator
  storeAt m (K.versionField i 2).off (info.shadowPath ++ [nul])

/-- The loop over the versions found, from `i` on. -/
def writeInfos (K : CAbi) : ℕ → List CowfsVersionInfo → List Char → List Char
  | _, [], m => m
  | i, info :: infos, m => writeInfos K (i + 1) infos (writeInfo K i info m)

/-- What `copy_to_user` writes back. -/
def listReply (K : CAbi) (infos : List CowfsVersionInfo) (m : List Char) : List Char :=
  writeInfos K 0 infos (storeAt m (field K.listReq 0 2).off (putNumber 4 infos.length))

/-- The result of a call, the state and the memory of the caller after it. -/
structure CtlReply where
  ret : Status
  state : State
  mem : List Char

/-- `cowfs_ctl_ioctl` on the memory `m` at the address it is given.  Memory that is shorter than
the structure cannot be copied. -/
def cowfsCtlIoctl (K : CAbi) (env : Env) (s : State) (cmd : ℕ) (m : List Char) (φ : ListFaults)
    (ψ : RollbackFaults) : Option CtlReply :=
  if cmd = K.iocList then
    let short := decide (m.length < (struct K.listReq).size)
    match ioctlListAt env s (loadAt m (field K.listReq 0 0))
        (UInt32.ofNat (getNumber (loadAt m (field K.listReq 0 1))))
        { φ with copyIn := φ.copyIn || short } with
    | none => none
    | some (.error e) => some ⟨some e, s, m⟩
    | some (.ok infos) => some ⟨none, s, listReply K infos m⟩
  else if cmd = K.iocRollback then
    let short := decide (m.length < (struct K.rollbackReq).size)
    (ioctlRollbackAt env s (loadAt m (field K.rollbackReq 0 0))
      (UInt64.ofNat (getNumber (loadAt m (field K.rollbackReq 0 1))))
      { ψ with copyIn := ψ.copyIn || short }).map fun r => ⟨r.1, r.2, m⟩
  else some ⟨some .enotty, s, m⟩

/-- How a program gets into the kernel: one built for the kernel's own machine, or one of 32 bits
under a kernel of 64. -/
inductive CtlEntry
  | native | compat
  deriving DecidableEq, Repr

/-- `ioctl` on `/dev/cowfs_ctl`.  `cowfs_ctl_fops` has an `.unlocked_ioctl` and no
`.compat_ioctl`: the VFS itself answers a call that comes in as the latter. -/
def ctlDevIoctl (entry : CtlEntry) (K : CAbi) (env : Env) (s : State) (cmd : ℕ) (m : List Char)
    (φ : ListFaults) (ψ : RollbackFaults) : Option CtlReply :=
  match entry with
  | .native => cowfsCtlIoctl K env s cmd m φ ψ
  | .compat => some ⟨some .enotty, s, m⟩

/-! ## `cowctl` -/

/-- The request of `cmd_list`. -/
def listReqMem (U : CAbi) (path : CStr) : List Char :=
  let m := List.replicate (struct U.listReq).size nul
  let m := storeAt m (field U.listReq 0 0).off (requestPath path).chars
  storeAt m (field U.listReq 0 1).off (putNumber 4 iocMaxVersions)

/-- The request of `cmd_rollback`. -/
def rollbackReqMem (U : CAbi) (path : CStr) (tsStr : Option CStr) : List Char :=
  let m := List.replicate (struct U.rollbackReq).size nul
  let m := storeAt m (field U.rollbackReq 0 0).off (requestPath path).chars
  storeAt m (field U.rollbackReq 0 1).off (putNumber 8 (requestTimestamp tsStr).toNat)

/-- The row of `cmd_list` for `req.versions[i]`. -/
def rowAt (U : CAbi) (zone : Zone) (m : List Char) (i : ℕ) : Option CStr :=
  (readString (loadAt m (U.versionField i 2))).map
    (rowText zone (UInt64.ofNat (getNumber (loadAt m (U.versionField i 0))))
      (getNumber (loadAt m (U.versionField i 1))))

/-- `cmd_list`: what it prints, or the error `perror` names. -/
def cowctlList (entry : CtlEntry) (K U : CAbi) (env : Env) (s : State) (zone : Zone) (path : CStr)
    (φ : ListFaults) (ψ : RollbackFaults) : Option (Except Errno (List CStr)) :=
  match ctlDevIoctl entry K env s U.iocList (listReqMem U path) φ ψ with
  | none => none
  | some ⟨some e, _, _⟩ => some (.error e)
  | some ⟨none, _, m⟩ =>
    ((List.range (getNumber (loadAt m (field U.listReq 0 2)))).mapM (rowAt U zone m)).map
      fun rows => .ok (listText path rows)

/-- `cmd_rollback`: the result of the call and the state after it. -/
def cowctlRollback (entry : CtlEntry) (K U : CAbi) (env : Env) (s : State) (path : CStr)
    (tsStr : Option CStr) (φ : ListFaults) (ψ : RollbackFaults) : Option (Status × State) :=
  (ctlDevIoctl entry K env s U.iocRollback (rollbackReqMem U path tsStr) φ ψ).map
    fun r => (r.ret, r.state)

end Cowfs
