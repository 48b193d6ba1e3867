import RxNetCap.Lib.Ledger
import RxNetCap.Lib.ErrState
import RxNetCap.Pdef.ParseString
import RxNetCap.Runtime.Protocol
import RxNetCap.Runtime.Loads
import RxNetCap.Pdef.Program
import RxNetCap.Runtime.Loads
import RxNetCap.Runtime.CompileCorrect
import RxNetCap.Pdef.Frame
import RxNetCap.Pdef.Blocks
import RxNetCap.Pdef.Layout
import RxNetCap.Pdef.FlattenCorrect
import RxNetCap.Pdef.Phases
import RxNetCap.Runtime.Filters
import RxNetCap.Runtime.Matching
import RxNetCap.Runtime.Learning
import RxNetCap.Pdef.Ownership
import RxNetCap.Pdef.Expansion
import RxNetCap.Runtime.Bounds
import RxNetCap.Pdef.Lookup
import RxNetCap.Pdef.Order
import RxNetCap.Capture.Tasks
import RxNetCap.Lib.Mailbox
import RxNetCap.Capture.TaskStore
import RxNetCap.Capture.TaskIndexes
import RxNetCap.Capture.TaskOwnership
import RxNetCap.Capture.Messages
import RxNetCap.Capture.FilterThread
import RxNetCap.Capture.Request
import RxNetCap.Capture.Sample
import RxNetCap.Capture.Usage
import RxNetCap.Capture.Manager
import RxNetCap.Capture.System
import RxNetCap.Capture.Progress
import RxNetCap.Capture.HandOff
import RxNetCap.Capture.Limit
import RxNetCap.Capture.Writeback
import RxNetCap.Capture.Cooldown
import RxNetCap.Capture.Origin
import RxNetCap.Capture.Cleanup
import RxNetCap.Capture.Session
import RxNetCap.Capture.PacketLimit
import RxNetCap.Capture.Signature
import RxNetCap.Capture.Careful
import RxNetCap.Capture.Duplicate
import RxNetCap.Capture.Naming
import RxNetCap.Capture.Rotation
import RxNetCap.Capture.Report
import RxNetCap.Capture.Paths
import RxNetCap.Archive.Compress
import RxNetCap.Archive.Command
import RxNetCap.Archive.Prune
import RxNetCap.Http.Connection
import RxNetCap.Http.Chunks
import RxNetCap.Http.Upload
import RxNetCap.Http.Exchanges
import RxNetCap.Pdef.Blind
import RxNetCap.Pdef.Heedless
import RxNetCap.Pdef.Reports
import RxNetCap.Runtime.Conditions
import RxNetCap.Capture.Frames
import RxNetCap.Capture.Segments
import RxNetCap.Capture.RawFiles
import RxNetCap.Capture.EndianText
import RxNetCap.Cli.TaskPayload
import RxNetCap.Lib.Triple
import RxNetCap.Pdef.Budget
import RxNetCap.Pdef.Tables
import RxNetCap.Pdef.Insertion
import RxNetCap.Capture.ReloadText
import RxNetCap.Runtime.Sliding
import RxNetCap.Runtime.Mirror
import RxNetCap.Pdef.Separators
import RxNetCap.Pdef.Termination
import RxNetCap.Capture.Hints
import RxNetCap.Capture.Identity
import RxNetCap.Pdef.Script
import RxNetCap.Pdef.Spelled
import RxNetCap.Pdef.Literals
import RxNetCap.Pdef.Names
import RxNetCap.Core.Channel
import RxNetCap.Lib.Keyed
import RxNetCap.Query.TaskFiles
import RxNetCap.Capture.TaskUpdate
import RxNetCap.Core.Timer
import RxNetCap.Config.Strategy
import RxNetCap.Config.Reload
import RxNetCap.Archive.Batch
import RxNetCap.Archive.Records
import RxNetCap.Capture.Escape
import RxNetCap.Query.Snapshot
import RxNetCap.Lib.Rounding
import RxNetCap.Sampling.Readings
import RxNetCap.Sampling.Thresholds
import RxNetCap.Core.LockFreeQueue
import RxNetCap.Core.StringTrim
import RxNetCap.Pdef.Slots
import RxNetCap.Runtime.Steps
import RxNetCap.Capture.FilteredName
import RxNetCap.Lib.Paths
import RxNetCap.Query.PdefGet
import RxNetCap.Lib.JsonFront
import RxNetCap.Query.StartReply
import RxNetCap.Lib.Succession
import RxNetCap.Pdef.Grammar
import RxNetCap.Pdef.Sentences
import RxNetCap.Pdef.Derived
import RxNetCap.Cli.Reading
import RxNetCap.Core.Wakeup
import RxNetCap.Cli.Posting
import RxNetCap.Core.Container
import RxNetCap.Query.PdefList
import RxNetCap.Query.PdefStore
