import PpssppDfx.Semantics.Machine
import PpssppDfx.Semantics.Span
import PpssppDfx.Python.Value
import PpssppDfx.Memory.Protection
import PpssppDfx.Memory.WriteGuard
import PpssppDfx.Semantics.DropOldest
import PpssppDfx.Transport.Model
import PpssppDfx.Transport.Tickets
import PpssppDfx.Transport.Disconnect
import PpssppDfx.Stepping.Client
import PpssppDfx.Stepping.Fresh
import PpssppDfx.Stepping.WithStepping
import PpssppDfx.Stepping.Exact
import PpssppDfx.Session.Coroutines
import PpssppDfx.Session.Start
import PpssppDfx.Session.System
import PpssppDfx.Session.Lingering
import PpssppDfx.Session.Exclusion
import PpssppDfx.Session.Reclaim
import PpssppDfx.Session.Final
import PpssppDfx.Session.Custody
import PpssppDfx.Session.Orphan
import PpssppDfx.Scan.Pattern
import PpssppDfx.Scan.Termination
import PpssppDfx.Scan.Flat
import PpssppDfx.Scan.Value
import PpssppDfx.Scan.Segments
import PpssppDfx.Scan.Narrow
import PpssppDfx.Scan.Compose
import PpssppDfx.Breakpoint.CondFilter
import PpssppDfx.Breakpoint.Wait
import PpssppDfx.Breakpoint.Storm
import PpssppDfx.Breakpoint.Tool
import PpssppDfx.Breakpoint.Follow
import PpssppDfx.Breakpoint.MemCheck
import PpssppDfx.Breakpoint.Trace
import PpssppDfx.Breakpoint.Transparent
import PpssppDfx.Session.Store
import PpssppDfx.Semantics.Serial
import PpssppDfx.Session.Serial
import PpssppDfx.Session.Edits
import PpssppDfx.Session.Commit
import PpssppDfx.Session.Late
import PpssppDfx.Session.Stage
import PpssppDfx.Session.Ledger
import PpssppDfx.Session.Serializable
import PpssppDfx.Session.Shed
import PpssppDfx.Session.Estate
import PpssppDfx.Session.Remnants
import PpssppDfx.Memory.Extent
import PpssppDfx.Observer.Dispatcher
import PpssppDfx.Observer.Fanout
import PpssppDfx.Transport.Broadcast
import PpssppDfx.Observer.Resume
import PpssppDfx.Jobs.Lifecycle
import PpssppDfx.Jobs.Background
import PpssppDfx.Middleware.RateLimit
import PpssppDfx.Scripts.Sync
import PpssppDfx.Replay.Save
import PpssppDfx.Semantics.Pass
import PpssppDfx.Scripts.Exposed
import PpssppDfx.Scan.Runs
import PpssppDfx.Probe.Observe
import PpssppDfx.Scan.Short
import PpssppDfx.Logging.Mirror
import PpssppDfx.Memory.Alias
import PpssppDfx.Semantics.KeyedTable
import PpssppDfx.Session.Provenance
import PpssppDfx.Launcher.Binds
import PpssppDfx.Launcher.Exposure
import PpssppDfx.Scan.Strings
import PpssppDfx.Scripts.Overlap
import PpssppDfx.Middleware.Admission
import PpssppDfx.Memory.Watch
import PpssppDfx.Input.Hold
import PpssppDfx.Replay.Blob
import PpssppDfx.Jobs.Batch
import PpssppDfx.Scan.Disasm
import PpssppDfx.Launcher.Attribution
import PpssppDfx.Breakpoint.Resolve
import PpssppDfx.Scripts.Reload
import PpssppDfx.Stepping.Snapshot
import PpssppDfx.Stepping.Restored
import PpssppDfx.Middleware.Pruning
import PpssppDfx.Memory.Address
import PpssppDfx.Memory.ByteInput
import PpssppDfx.Logging.CapMarker
import PpssppDfx.Memory.Diff
import PpssppDfx.Scan.Handles
import PpssppDfx.Probe.Staleness
import PpssppDfx.Probe.Registry
import PpssppDfx.Observer.Lifecycle
import PpssppDfx.Semantics.Ring
import PpssppDfx.Diagnostics.Records
import PpssppDfx.Diagnostics.Attribution
import PpssppDfx.Transport.Nesting
import PpssppDfx.Diagnostics.Calls
import PpssppDfx.Errors.Translate
import PpssppDfx.Errors.GpuStats
import PpssppDfx.Python.Utf8
import PpssppDfx.Memory.ReadString
import PpssppDfx.Semantics.Overwrite
import PpssppDfx.Memory.WriteMemory
import PpssppDfx.Memory.Assemble
import PpssppDfx.Memory.Changes
import PpssppDfx.Python.Json
import PpssppDfx.Replay.Load
import PpssppDfx.Semantics.Polling
import PpssppDfx.Transport.Waits
import PpssppDfx.Semantics.Paths
import PpssppDfx.Semantics.Realpath
import PpssppDfx.Files.Containment
import PpssppDfx.Capture.ImageDims
import PpssppDfx.Semantics.OrderedDict
import PpssppDfx.Output.Contract
