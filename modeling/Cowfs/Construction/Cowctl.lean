import Cowfs.Construction.Requests
import Cowfs.Framework.CivilTime

/-!
# The command line tool (`cowctl.c`)

`cowctl list <path>` asks for the versions of the file at the path and prints a row for each:
its time as a local date and time of day, its kind, its shadow file.  `cowctl rollback <path>
[timestamp|latest]` sends the number its second argument begins with.

Both put the path into a zeroed request and leave its last character alone.  The device that
cannot be opened is left out: then nothing is sent.
-/

namespace Cowfs

/-! ## Requests -/

/-- `strncpy(req.path, path, sizeof(req.path) - 1)` in a zeroed request. -/
def requestPath (path : CStr) : PathField :=
  ⟨strncpyZeroed reqPathSize path, length_strncpyZeroed (by decide)⟩

/-- The request of `cmd_list`. -/
def cmdListReq (path : CStr) : CowfsListReq where
  path := requestPath path
  maxCount := 32

/-- `"latest"` -/
def latestArg : CStr := ['l', 'a', 't', 'e', 's', 't']

/-- The `timestamp` of a rollback request; `none` is a missing argument. -/
def requestTimestamp : Option CStr → UInt64
  | none => 0
  | some tsStr => if tsStr ≠ latestArg then strtoull tsStr else 0

/-- The request of `cmd_rollback`. -/
def cmdRollbackReq (path : CStr) (tsStr : Option CStr) : CowfsRollbackReq where
  path := requestPath path
  timestamp := requestTimestamp tsStr

/-! ## The printed list -/

/-- `enum cow_op` -/
def CowOp.code : CowOp → ℕ
  | .write => 1
  | .unlink => 2
  | .rename => 3
  | .setattr => 4

/-- `op_name` -/
def opName (op : ℕ) : CStr :=
  if op = 1 then ['W', 'R', 'I', 'T', 'E']
  else if op = 2 then ['U', 'N', 'L', 'I', 'N', 'K']
  else if op = 3 then ['R', 'E', 'N', 'A', 'M', 'E']
  else if op = 4 then ['S', 'E', 'T', 'A', 'T', 'T', 'R']
  else "UNKNOWN".toList

/-- `timebuf` -/
def timeText (zone : Zone) (timestamp : UInt64) : CStr :=
  strftime (localtime zone (timestamp / 1000000000).toNat)

/-- `%-<width>s` -/
def padRight (width : ℕ) (s : CStr) : CStr := s ++ List.replicate (width - s.length) ' '

/-- The row of `cmd_list` for the members of one of `req.versions`. -/
def rowText (zone : Zone) (timestamp : UInt64) (op : ℕ) (shadowPath : CStr) : CStr :=
  padRight 22 (timeText zone timestamp) ++ ' ' :: (padRight 10 (opName op) ++
    ' ' :: if shadowPath = [] then "(metadata only)".toList else shadowPath)

/-- The row for a version. -/
def listRow (zone : Zone) (info : CowfsVersionInfo) : CStr :=
  rowText zone info.timestamp info.opType.code info.shadowPath

/-- What `cmd_list` prints for these rows. -/
def listText (path : CStr) (rows : List CStr) : List CStr :=
  if rows = [] then ["No versions found for: ".toList ++ path]
  else
    ("Versions for: ".toList ++ path) ::
      (padRight 22 "TIMESTAMP".toList ++ ' ' :: (padRight 10 "OPERATION".toList ++
        ' ' :: "SHADOW".toList)) ::
      (padRight 22 "---------".toList ++ ' ' :: (padRight 10 "---------".toList ++
        ' ' :: "------".toList)) ::
      rows

/-- What `cmd_list` prints for these versions. -/
def cmdList (zone : Zone) (path : CStr) (versions : List CowfsVersionInfo) : List CStr :=
  listText path (versions.map (listRow zone))

/-! ## The paths that are sent -/

/-- The path of a request is cut to 511 characters and always terminated. -/
theorem readString_requestPath {path : CStr} (hpath : nul ∉ path) :
    readString (requestPath path).chars = some (path.take 511) :=
  readString_strncpyZeroed (by decide) hpath

end Cowfs
