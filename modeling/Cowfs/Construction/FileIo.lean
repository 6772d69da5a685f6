import Cowfs.Construction.Lower

/-!
# File positions (`cowfs_read`, `cowfs_write`, `cowfs_llseek`)

An open file of the mount is two `struct file`s, the upper one the process holds and the lower
one under it, each with an `f_pos`.  Reads and writes go through with a pointer to the position
the VFS hands in, a seek goes to the lower file and copies its position up.  The snapshot
`cowfs_write` may take first belongs to another module: it changes no content and no position.

The VFS side is written once, over `FileOperations`, and instantiated with the functions of cowfs
and with those of the lower file itself, which is what a descriptor opened directly uses.  What
the lower file is willing to deliver or accept in a call is an argument of the call.
-/

namespace Cowfs

/-- `SEEK_SET`, `SEEK_CUR`, `SEEK_END` -/
inductive Whence
  | set | cur | «end»
  deriving DecidableEq, Repr

/-- An open file of the lower file system, whose size limit is `maxBytes`. -/
structure LowerFile where
  content : Content
  fPos : ℕ
  append : Bool
  maxBytes : ℕ
  deriving DecidableEq, Repr

/-! ## The lower file -/

/-- `vfs_iter_read` at `pos`: the bytes and the position after them. -/
def vfsIterRead (f : LowerFile) (pos count : ℕ) (avail : Except Errno ℕ) :
    Except Errno Content × ℕ :=
  match avail with
  | .error e => (.error e, pos)
  | .ok n =>
    let buf := (f.content.drop pos).take (min n count)
    (.ok buf, pos + buf.length)

/-- `vfs_iter_write` at `pos`: the count, the position after and the file. -/
def vfsIterWriteAt (f : LowerFile) (pos : ℕ) (bytes : Content) (accept : Except Errno ℕ) :
    Except Errno ℕ × ℕ × LowerFile :=
  match accept with
  | .error e => (.error e, pos, f)
  | .ok n =>
    -- nothing to write: 0 is returned before `O_APPEND` is looked at
    if bytes = [] then (.ok 0, pos, f)
    else
      let start := if f.append then f.content.length else pos
      let written := min n bytes.length
      (.ok written, start + written,
        { f with content := writeAt f.content start (bytes.take written) })

/-- The offset a seek arrives at (`generic_file_llseek`). -/
def seekTarget (f : LowerFile) (offset : ℤ) (whence : Whence) : Except Errno ℕ :=
  if whence = .cur ∧ offset = 0 then .ok f.fPos
  else
    let target : ℤ :=
      match whence with
      | .set => offset
      | .cur => f.fPos + offset
      | .end => f.content.length + offset
    if target < 0 ∨ (f.maxBytes : ℤ) < target then .error .einval else .ok target.toNat

/-- `vfs_llseek` -/
def vfsLlseek (f : LowerFile) (offset : ℤ) (whence : Whence) : Except Errno ℕ × LowerFile :=
  match seekTarget f offset whence with
  | .error e => (.error e, f)
  | .ok n => (.ok n, { f with fPos := n })

/-! ## The file of the mount -/

/-- An open file of the mount: the `f_pos` of the upper file, and the lower file. -/
structure CowfsFile where
  fPos : ℕ
  lower : LowerFile
  deriving DecidableEq, Repr

/-- `cowfs_read` -/
def cowfsFileRead (f : CowfsFile) (pos count : ℕ) (avail : Except Errno ℕ) :
    Except Errno Content × ℕ :=
  vfsIterRead f.lower pos count avail

/-- The write of `cowfs_write`. -/
def cowfsFileWrite (f : CowfsFile) (pos : ℕ) (bytes : Content) (accept : Except Errno ℕ) :
    Except Errno ℕ × ℕ × CowfsFile :=
  let (ret, pos, lower) := vfsIterWriteAt f.lower pos bytes accept
  (ret, pos, { f with lower := lower })

/-- `cowfs_llseek` -/
def cowfsFileLlseek (f : CowfsFile) (offset : ℤ) (whence : Whence) :
    Except Errno ℕ × CowfsFile :=
  let (ret, lower) := vfsLlseek f.lower offset whence
  (ret, { fPos := lower.fPos, lower := lower })

/-! ## System calls -/

/-- The members of a `struct file_operations` used here, and the access to `f_pos`. -/
structure FileOperations (σ : Type) where
  fPos : σ → ℕ
  setPos : σ → ℕ → σ
  read : σ → ℕ → ℕ → Except Errno ℕ → Except Errno Content × ℕ
  write : σ → ℕ → Content → Except Errno ℕ → Except Errno ℕ × ℕ × σ
  llseek : σ → ℤ → Whence → Except Errno ℕ × σ

/-- `cowfs_file_fops` -/
def cowfsFileFops : FileOperations CowfsFile where
  fPos f := f.fPos
  setPos f pos := { f with fPos := pos }
  read := cowfsFileRead
  write := cowfsFileWrite
  llseek := cowfsFileLlseek

/-- The lower file used directly. -/
def lowerFileFops : FileOperations LowerFile where
  fPos f := f.fPos
  setPos f pos := { f with fPos := pos }
  read := vfsIterRead
  write := vfsIterWriteAt
  llseek := vfsLlseek

/-- `read`, `pread`, `write`, `pwrite` and `lseek` on one descriptor. -/
inductive IoCall
  | read (count : ℕ) (avail : Except Errno ℕ)
  | pread (pos count : ℕ) (avail : Except Errno ℕ)
  | write (bytes : Content) (accept : Except Errno ℕ)
  | pwrite (pos : ℕ) (bytes : Content) (accept : Except Errno ℕ)
  | lseek (offset : ℤ) (whence : Whence)

/-- What a call returns: bytes read, a count or an offset, or an error. -/
inductive IoReply
  | data (bytes : Content)
  | number (n : ℕ)
  | failed (e : Errno)
  deriving DecidableEq, Repr

/-- The system calls.  A call that fails leaves the position where it was, the positioned ones
use a position of their own. -/
def ioExec {σ : Type} (ops : FileOperations σ) (f : σ) : IoCall → IoReply × σ
  | .read count avail =>
    match ops.read f (ops.fPos f) count avail with
    | (.error e, _) => (.failed e, f)
    | (.ok buf, pos) => (.data buf, ops.setPos f pos)
  | .pread pos count avail =>
    match ops.read f pos count avail with
    | (.error e, _) => (.failed e, f)
    | (.ok buf, _) => (.data buf, f)
  | .write bytes accept =>
    match ops.write f (ops.fPos f) bytes accept with
    | (.error e, _, f) => (.failed e, f)
    | (.ok n, pos, f) => (.number n, ops.setPos f pos)
  | .pwrite pos bytes accept =>
    match ops.write f pos bytes accept with
    | (.error e, _, f) => (.failed e, f)
    | (.ok n, _, f) => (.number n, f)
  | .lseek offset whence =>
    match ops.llseek f offset whence with
    | (.error e, f) => (.failed e, f)
    | (.ok n, f) => (.number n, f)

/-- The file after a call. -/
def ioStep {σ : Type} (ops : FileOperations σ) (f : σ) (call : IoCall) : σ := (ioExec ops f call).2

/-- What a process sees of a call: the reply and the position after it. -/
def ioSeen {σ : Type} (ops : FileOperations σ) (f : σ) (call : IoCall) : List (IoReply × ℕ) :=
  [((ioExec ops f call).1, ops.fPos (ioStep ops f call))]

/-- A file just opened. -/
def LowerFile.opened (content : Content) (append : Bool) (maxBytes : ℕ) : LowerFile :=
  ⟨content, 0, append, maxBytes⟩

/-- A file of the mount just opened (`cowfs_open`). -/
def CowfsFile.opened (content : Content) (append : Bool) (maxBytes : ℕ) : CowfsFile :=
  ⟨0, LowerFile.opened content append maxBytes⟩

end Cowfs
