import Cowfs.Construction.Shadow
import Cowfs.Framework.Run

/-!
# A copy among other writers

`cowfs_shadow_copy_file` holds no lock on the file it saves: `cowfs_write` takes none, and the one
`cowfs_setattr` and `cowfs_unlink` run under is that of the upper inode, which a write through
another descriptor does not take either.  So the file may be written to and cut between two
iterations of the loop.  The shadow file has one writer.
-/

namespace Cowfs

structure CopyThread where
  /-- The file that is saved, as it is now. -/
  src : Content
  srcPos : ℕ
  dstPos : ℕ
  /-- The shadow file. -/
  dst : Content
  /-- What the function has returned. -/
  result : Option Status

inductive CopyAct
  /-- One iteration of the loop. -/
  | iterate (io : IoStep)
  /-- Somebody else writes to the file. -/
  | write (pos : ℕ) (bytes : Content)
  /-- Somebody else changes its size. -/
  | resize (size : ℕ)

namespace CopyThread

/-- Both files are open. -/
def start (src : Content) : CopyThread := ⟨src, 0, 0, [], none⟩

def iterate (s : CopyThread) (io : IoStep) : CopyThread :=
  match s.result with
  | some _ => s
  | none =>
    match io.read with
    | .error e => { s with result := some (some e) }
    | .ok n =>
      let buf := kernelRead s.src s.srcPos n
      if buf = [] then { s with result := some none }
      else
        match io.write with
        | .error e => { s with srcPos := s.srcPos + buf.length, result := some (some e) }
        | .ok m =>
          let written := min m buf.length
          { s with
            srcPos := s.srcPos + buf.length
            dstPos := s.dstPos + written
            dst := writeAt s.dst s.dstPos (buf.take written) }

def step (s : CopyThread) : CopyAct → CopyThread
  | .iterate io => s.iterate io
  | .write pos bytes => { s with src := writeAt s.src pos bytes }
  | .resize size => { s with src := Cowfs.resize s.src size }

end CopyThread

end Cowfs
