import Cowfs.Framework.CString

/-!
# The records of `cowfs.h`

The constants and structures the file system shares between its parts: the kinds of recorded
operations, the version record, the attribute record a change request carries and the one
`vfs_getattr` fills in.  Fixed-width numbers keep their widths, a `char` buffer is a `CStr`,
and a zeroed record (`kmem_cache_zalloc`) is the record of zero values.

An object of the kernel is identified by a number that stands for its address and is never
used for anything but comparison: `Fid` for an inode object of a lower file system, `node`
for a version record (its embedded `list_head`), `Fd` for an open `struct file`.
-/

namespace Cowfs

/-- The identity of a lower inode object (not its inode number, which may be reused). -/
abbrev Fid := ℕ

/-- The identity of an open `struct file`. -/
abbrev Fd := ℕ

/-- File contents. -/
abbrev Content := List UInt8

/-- The error codes the module itself returns; `other` is any further code a call of the
kernel may return. -/
inductive Errno
  | enoent | enomem | efault | einval | eexist | enotdir | eisdir | enotty | ebadf
  | other (code : ℕ)
  deriving DecidableEq, Repr

/-- A C return value of `0` is `none`, a negative one the error it stands for. -/
abbrev Status := Option Errno

/-! ## Constants -/

/-- `COWFS_SHADOW_DIR`, `".cowfs_shadow"`. -/
def shadowDir : CStr := ['.', 'c', 'o', 'w', 'f', 's', '_', 's', 'h', 'a', 'd', 'o', 'w']

/-- `COWFS_MAX_VERSIONS` -/
def maxVersions : ℕ := 64

/-- `COWFS_IOC_MAX_VERSIONS` -/
def iocMaxVersions : ℕ := 32

/-- `NSEC_PER_SEC` -/
def nsecPerSec : UInt64 := 1000000000

/-! ## Modes -/

/-- `umode_t`: the file type in the upper four bits, permissions in the lower twelve. -/
abbrev Umode := BitVec 16

/-- `S_IFMT` -/
def sIFMT : Umode := 0xF000#16
/-- `S_IFREG` -/
def sIFREG : Umode := 0x8000#16
/-- `S_IFDIR` -/
def sIFDIR : Umode := 0x4000#16
/-- `S_IFLNK` -/
def sIFLNK : Umode := 0xA000#16
/-- `S_IFCHR`, the type of a whiteout. -/
def sIFCHR : Umode := 0x2000#16
/-- `S_IALLUGO` -/
def sIALLUGO : Umode := 0x0FFF#16
/-- `S_ISUID` -/
def sISUID : Umode := 0x0800#16
/-- `S_ISGID` -/
def sISGID : Umode := 0x0400#16

/-- `S_ISDIR(m)` -/
def isDirMode (m : Umode) : Bool := m &&& sIFMT == sIFDIR

/-- `S_ISREG(m)` -/
def isRegMode (m : Umode) : Bool := m &&& sIFMT == sIFREG

/-! ## Records -/

/-- `enum cow_op` -/
inductive CowOp
  | write | unlink | rename | setattr
  deriving DecidableEq, Repr

/-- The fields of `struct kstat` the module reads back. -/
structure Kstat where
  mode : Umode
  uid : UInt32
  gid : UInt32
  mtime : ℕ
  deriving DecidableEq, Repr

/-- A zeroed `struct kstat`. -/
def Kstat.zero : Kstat := ⟨0#16, 0, 0, 0⟩

/-- `struct cow_version`.  `node` is the address of the record. -/
structure CowVersion where
  timestamp : UInt64
  opType : CowOp
  shadowPath : CStr
  origName : CStr
  savedStat : Kstat
  hasData : Bool
  node : ℕ
  deriving DecidableEq, Repr

/-- `struct iattr`.  A bit of `ia_valid` and the field it announces are one `Option`;
`iaFile` is `ATTR_FILE` with a non-null `ia_file`. -/
structure Iattr where
  iaMode : Option Umode
  iaUid : Option UInt32
  iaGid : Option UInt32
  iaSize : Option ℕ
  iaMtime : Option ℕ
  iaFile : Option Fd
  attrOpen : Bool
  killSuid : Bool
  killSgid : Bool
  deriving DecidableEq, Repr

/-- A request that changes nothing. -/
def Iattr.zero : Iattr := ⟨none, none, none, none, none, none, false, false, false⟩

end Cowfs
