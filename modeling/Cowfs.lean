import Cowfs.Framework.Run
import Cowfs.Framework.CString
import Cowfs.Framework.KeyedLog
import Cowfs.Construction.System
import Cowfs.Construction.Paths
import Cowfs.Properties.VersionTable
import Cowfs.Properties.TableRefinement
import Cowfs.Properties.CopyLoop
import Cowfs.Properties.Snapshots
import Cowfs.Properties.Fidelity
import Cowfs.Properties.LowerTree
import Cowfs.Properties.Rollback
import Cowfs.Properties.RollbackFrame
import Cowfs.Properties.RenameUndo
import Cowfs.Properties.CleanSnapshot
import Cowfs.Properties.Destruction
import Cowfs.Framework.UndoLog
import Cowfs.Properties.CleanRollback
import Cowfs.Properties.Archive
import Cowfs.Properties.FileHistory
import Cowfs.Properties.Undo
import Cowfs.Properties.FailedCalls
import Cowfs.Properties.Orphans
import Cowfs.Construction.FileIo
import Cowfs.Properties.PassThrough
import Cowfs.Construction.Readdir
import Cowfs.Properties.Listing
import Cowfs.Construction.References
import Cowfs.Properties.ReferenceBalance
import Cowfs.Construction.DirLocks
import Cowfs.Construction.Concurrent
import Cowfs.Properties.Exclusion
import Cowfs.Properties.TimeOrder
import Cowfs.Properties.FreedVersions
import Cowfs.Construction.Upper
import Cowfs.Properties.NameCache
import Cowfs.Properties.InodeCache
import Cowfs.Properties.Origin
import Cowfs.Properties.Undelete
import Cowfs.Properties.FaithfulCopy
import Cowfs.Construction.Contexts
import Cowfs.Properties.Atomicity
import Cowfs.Properties.CallerContexts
import Cowfs.Properties.Retention
import Cowfs.Properties.Sessions
import Cowfs.Properties.SessionLog
import Cowfs.Properties.SnapshotFlag
import Cowfs.Properties.AttributeUndo
import Cowfs.Properties.RepeatedRollback
import Cowfs.Construction.Lookup
import Cowfs.Properties.LookupListing
import Cowfs.Properties.DeletedSearch
import Cowfs.Framework.CBuffer
import Cowfs.Construction.Requests
import Cowfs.Framework.Numerals
import Cowfs.Framework.CivilTime
import Cowfs.Construction.Cowctl
import Cowfs.Properties.RequestPath
import Cowfs.Properties.CowctlTimestamps
import Cowfs.Framework.LockOrder
import Cowfs.Construction.KernelLocks
import Cowfs.Properties.CriticalSections
import Cowfs.Properties.Deadlock
import Cowfs.Framework.Ledger
import Cowfs.Properties.RecordLedger
import Cowfs.Framework.LogHistory
import Cowfs.Properties.ArchiveRefinement
import Cowfs.Construction.CopyThread
import Cowfs.Properties.CopyRace
import Cowfs.Construction.Worker
import Cowfs.Properties.CollectorTiming
import Cowfs.Framework.CLayout
import Cowfs.Construction.Ioctl
import Cowfs.Properties.CtlAbi
import Cowfs.Construction.Memory
import Cowfs.Properties.MemoryLedger
import Cowfs.Properties.MountOptions
import Cowfs.Construction.Lifecycle
import Cowfs.Properties.Lifecycle
import Cowfs.Framework.Rings
import Cowfs.Construction.VersionMemory
import Cowfs.Properties.VersionMemory
import Cowfs.Properties.MemoryRefinement
import Cowfs.Properties.MemoryLeaks
