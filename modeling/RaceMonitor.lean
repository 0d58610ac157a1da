import RaceMonitor.Access
import RaceMonitor.Address
import RaceMonitor.Anomaly
import RaceMonitor.Backend
import RaceMonitor.CallStack
import RaceMonitor.Clock.Epoch
import RaceMonitor.Clock.Vector
import RaceMonitor.Config
import RaceMonitor.Config.Arguments
import RaceMonitor.Config.Json
import RaceMonitor.Counters
import RaceMonitor.Counters.Json
import RaceMonitor.Engine.Access
import RaceMonitor.Engine.Admission
import RaceMonitor.Engine.Basic
import RaceMonitor.Engine.Delivery
import RaceMonitor.Engine.Lifecycle
import RaceMonitor.Engine.Memory
import RaceMonitor.Engine.Order
import RaceMonitor.Engine.State
import RaceMonitor.Event
import RaceMonitor.Fault
import RaceMonitor.Handle
import RaceMonitor.Heap.Basic
import RaceMonitor.Heap.Block
import RaceMonitor.History
import RaceMonitor.Json.Number
import RaceMonitor.Json.Record
import RaceMonitor.Json.Scan
import RaceMonitor.Json.Value
import RaceMonitor.Json.Writer
import RaceMonitor.Lock
import RaceMonitor.Note
import RaceMonitor.Proofs.CallStack
import RaceMonitor.Proofs.Clock.Component
import RaceMonitor.Proofs.Clock.Lattice
import RaceMonitor.Proofs.Clock.View
import RaceMonitor.Proofs.Config.Arguments
import RaceMonitor.Proofs.Engine.Access
import RaceMonitor.Proofs.Engine.Accounts
import RaceMonitor.Proofs.Engine.Anomalies
import RaceMonitor.Proofs.Engine.Counted
import RaceMonitor.Proofs.Engine.Enumeration
import RaceMonitor.Proofs.Engine.Filtered
import RaceMonitor.Proofs.Engine.Footprint
import RaceMonitor.Proofs.Engine.Heedless
import RaceMonitor.Proofs.Engine.Holders
import RaceMonitor.Proofs.Engine.Limits
import RaceMonitor.Proofs.Engine.Lives
import RaceMonitor.Proofs.Engine.Lookup
import RaceMonitor.Proofs.Engine.Marks
import RaceMonitor.Proofs.Engine.Memory
import RaceMonitor.Proofs.Engine.Opening
import RaceMonitor.Proofs.Engine.Output
import RaceMonitor.Proofs.Engine.Performed
import RaceMonitor.Proofs.Engine.Ranges
import RaceMonitor.Proofs.Engine.Reached
import RaceMonitor.Proofs.Engine.Recast
import RaceMonitor.Proofs.Engine.Reentrance
import RaceMonitor.Proofs.Engine.Refused
import RaceMonitor.Proofs.Engine.Rehoused
import RaceMonitor.Proofs.Engine.Renumbered
import RaceMonitor.Proofs.Engine.Reuse
import RaceMonitor.Proofs.Engine.Step
import RaceMonitor.Proofs.Engine.Stored
import RaceMonitor.Proofs.Engine.Sweep
import RaceMonitor.Proofs.Engine.Updates
import RaceMonitor.Proofs.Engine.Warnings
import RaceMonitor.Proofs.Engine.Watching
import RaceMonitor.Proofs.Heap.Coverage
import RaceMonitor.Proofs.Heap.Exact
import RaceMonitor.Proofs.Heap.Freed
import RaceMonitor.Proofs.Heap.Generations
import RaceMonitor.Proofs.Heap.Limit
import RaceMonitor.Proofs.Heap.Live
import RaceMonitor.Proofs.Heap.Newest
import RaceMonitor.Proofs.Heap.Numbering
import RaceMonitor.Proofs.Heap.Pages
import RaceMonitor.Proofs.Heap.Scan
import RaceMonitor.Proofs.History
import RaceMonitor.Proofs.History.FullLog
import RaceMonitor.Proofs.Json.Written
import RaceMonitor.Proofs.Nesting
import RaceMonitor.Proofs.Nesting.Calls
import RaceMonitor.Proofs.Order.Board
import RaceMonitor.Proofs.Order.Clocks
import RaceMonitor.Proofs.Order.Exactness
import RaceMonitor.Proofs.Order.Growth
import RaceMonitor.Proofs.Order.Present
import RaceMonitor.Proofs.Order.Saturation
import RaceMonitor.Proofs.Order.Turns
import RaceMonitor.Proofs.Race.Blame
import RaceMonitor.Proofs.Race.Complete
import RaceMonitor.Proofs.Race.Fork
import RaceMonitor.Proofs.Race.Genuine
import RaceMonitor.Proofs.Race.Kept
import RaceMonitor.Proofs.Race.Reuse
import RaceMonitor.Proofs.Race.Sides
import RaceMonitor.Proofs.Race.Writers
import RaceMonitor.Proofs.Session.Access
import RaceMonitor.Proofs.Session.Basic
import RaceMonitor.Proofs.Session.Descent
import RaceMonitor.Proofs.Session.DoubleFree
import RaceMonitor.Proofs.Session.Frees
import RaceMonitor.Proofs.Session.Generations
import RaceMonitor.Proofs.Session.Graveyard
import RaceMonitor.Proofs.Session.HappensBefore
import RaceMonitor.Proofs.Session.Independence
import RaceMonitor.Proofs.Session.Live
import RaceMonitor.Proofs.Session.Lives
import RaceMonitor.Proofs.Session.Regions
import RaceMonitor.Proofs.Session.Sections
import RaceMonitor.Proofs.Session.Sweeps
import RaceMonitor.Proofs.Session.Threads
import RaceMonitor.Proofs.Session.Unswept
import RaceMonitor.Proofs.Table
import RaceMonitor.Proofs.Trace.Lines
import RaceMonitor.Proofs.Trace.Replay
import RaceMonitor.Proofs.Trace.RoundTrip
import RaceMonitor.Report
import RaceMonitor.Table
import RaceMonitor.Text.Blank
import RaceMonitor.Text.Extender
import RaceMonitor.Text.Invisible
import RaceMonitor.Text.Number
import RaceMonitor.Text.Numeral
import RaceMonitor.Text.Quoted
import RaceMonitor.Thread
import RaceMonitor.Trace.Basic
import RaceMonitor.Trace.Codec
import RaceMonitor.Trace.Report
