import Logmon.Lib.Ascending
import Logmon.Lib.OrdMap
import Logmon.Lib.Loop
import Logmon.Lib.PrefixCode
import Logmon.Lib.FMap
import Logmon.Lib.Reach
import Logmon.Lib.Word
import Logmon.Gelf.Message
import Logmon.Filter.Parser
import Logmon.Filter.Matcher
import Logmon.Store.Memory
import Logmon.Store.Ring
import Logmon.Store.Offer
import Logmon.Store.Reference
import Logmon.Store.Read
import Logmon.Store.Cursor
import Logmon.Store.Late
import Logmon.Store.CursorRun
import Logmon.Store.Bookmarks
import Logmon.Store.Deletion
import Logmon.Store.Overlap
import Logmon.Daemon.Identity
import Logmon.Collector.State
import Logmon.Lib.First
import Logmon.Collector.Registry
import Logmon.Collector.Calls
import Logmon.Lib.Stamped
import Logmon.Lib.Slot
import Logmon.Collector.Ledger
import Logmon.Collector.Keys
import Logmon.Collector.Files
import Logmon.Collector.Budget
import Logmon.Collector.Loss
import Logmon.Collector.Durable
import Logmon.Collector.Schedule
import Logmon.Lib.Pieces
import Logmon.Engine.Epoch
import Logmon.Engine.PreBuffer
import Logmon.Engine.Trigger
import Logmon.Engine.Pipeline
import Logmon.Daemon.Session
import Logmon.Daemon.LogProcessor
import Logmon.Filter.Resolver
import Logmon.Daemon.Export
import Logmon.Daemon.LogRun
import Logmon.Daemon.RacingClears
import Logmon.Store.BookmarkNames
import Logmon.Store.Sweep
import Logmon.Collector.Entries
import Logmon.Collector.Window
import Logmon.Collector.Edits
import Logmon.Collector.Labels
import Logmon.Daemon.Boot
import Logmon.Lib.Text
import Logmon.Lib.Bindings
import Logmon.Cases.Read
import Logmon.Cases.Cursor
import Logmon.Cases.Document
import Logmon.Cases.Escapes
import Logmon.Cases.FrontMatter
import Logmon.Cases.Nesting
import Logmon.Span.Store
import Logmon.Cases.Load
import Logmon.Cases.Write
import Logmon.Cases.Postmortem
import Logmon.Cases.Assemble
import Logmon.Cases.Rebuilt
import Logmon.Cases.Restore
import Logmon.DomainData.Path
import Logmon.DomainData.Store
import Logmon.DomainData.Duration
import Logmon.DomainData.Live
import Logmon.Engine.Debounce
import Logmon.Collector.Exact
import Logmon.Collector.Sample
import Logmon.Collector.Live
import Logmon.Collector.Rows
import Logmon.Filter.Parse
import Logmon.Daemon.SessionOps
import Logmon.Daemon.Ownership
import Logmon.Daemon.Turns
import Logmon.Daemon.System
import Logmon.Daemon.Isolation
import Logmon.Daemon.Persistence
import Logmon.Daemon.Capture
import Logmon.Daemon.CaptureRun
import Logmon.Lib.Disk
import Logmon.Collector.FileNames
import Logmon.Collector.FilesApart
import Logmon.Collector.Migration
import Logmon.Collector.MigrationRun
import Logmon.Lib.Index
import Logmon.Engine.PreBufferModel
import Logmon.Engine.EpochExact
import Logmon.Daemon.SeqWindow
import Logmon.Lib.Lines
import Logmon.Daemon.Transport
import Logmon.Lib.Intervals
import Logmon.Collector.Project
import Logmon.Collector.SelfTime
import Logmon.Filter.SpanMatcher
import Logmon.Collector.Population
import Logmon.Collector.Arms
import Logmon.Lib.Search
import Logmon.Span.Ring
import Logmon.Span.Traces
import Logmon.Lib.Quoted
import Logmon.Filter.Tokens
import Logmon.Sdk.Filter
import Logmon.Sdk.Reads
import Logmon.Sdk.RoundTrip
import Logmon.Store.Readers
import Logmon.Store.TraceRead
import Logmon.Filter.Refusal
import Logmon.Lib.Nearest
import Logmon.Daemon.Params
import Logmon.Daemon.StoresRun
import Logmon.Cases.Window
import Logmon.Cases.CaseData
import Logmon.Cases.Create
import Logmon.Cases.Reload
import Logmon.Cases.RoundTrip
import Logmon.DomainData.Batch
import Logmon.DomainData.Opening
import Logmon.Cases.Scoped
import Logmon.Cases.Outcomes
import Logmon.Cases.Lifetime
import Logmon.Collector.Merge
import Logmon.Lib.Walk
import Logmon.Collector.Paths
import Logmon.Collector.PathTime
import Logmon.Lib.Hex
import Logmon.Lib.Ranking
import Logmon.Collector.Breakdown
import Logmon.Lib.Wheel
import Logmon.Collector.Threshold
import Logmon.Gelf.Tcp
import Logmon.Lib.Collect
import Logmon.Otlp.Request
import Logmon.Otlp.Mapping
import Logmon.Otlp.Grpc
import Logmon.Otlp.Http
import Logmon.Otlp.Timestamps
import Logmon.Otlp.Encoding
import Logmon.Otlp.Agree
import Logmon.Otlp.Transports
import Logmon.Collector.UnionTime
import Logmon.Collector.Interning
import Logmon.Gelf.Parse
import Logmon.Filter.Admission
import Logmon.Lib.Groups
import Logmon.Logs.Profile
import Logmon.Filter.Keyed
import Logmon.Filter.FieldSelector
import Logmon.Logs.Fields
import Logmon.Logs.Agree
import Logmon.Sdk.Bridge
import Logmon.Sdk.Client
import Logmon.Sdk.Reconnect
import Logmon.Daemon.Domains
import Logmon.Daemon.DomainRuns
import Logmon.Daemon.DomainSockets
import Logmon.Daemon.NotificationRuns
import Logmon.Lib.Volume
import Logmon.Daemon.AtomicWrite
