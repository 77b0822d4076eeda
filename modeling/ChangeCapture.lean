import ChangeCapture.Backoff
import ChangeCapture.Calendar.Basic
import ChangeCapture.Calendar.Reading
import ChangeCapture.Calendar.Writing
import ChangeCapture.Capture.ChangeRow
import ChangeCapture.Capture.ChangeStream
import ChangeCapture.Capture.Instance
import ChangeCapture.Capture.Planner
import ChangeCapture.Capture.Registry
import ChangeCapture.Capture.Request
import ChangeCapture.Capture.Server
import ChangeCapture.Capture.Window
import ChangeCapture.Change
import ChangeCapture.Configuration
import ChangeCapture.Cursor
import ChangeCapture.Decimal.Binary64
import ChangeCapture.Decimal.Reading
import ChangeCapture.Decimal.Rounding
import ChangeCapture.Decimal.Shortest
import ChangeCapture.Delivery
import ChangeCapture.Disk
import ChangeCapture.Error
import ChangeCapture.Json.Basic
import ChangeCapture.Json.Decoding
import ChangeCapture.Json.Number
import ChangeCapture.Json.Syntax
import ChangeCapture.Json.Writing
import ChangeCapture.Lock
import ChangeCapture.Memory.CallLog
import ChangeCapture.Memory.Fault
import ChangeCapture.Memory.RedoLog
import ChangeCapture.Memory.Server
import ChangeCapture.Memory.Storage
import ChangeCapture.Memory.Surroundings
import ChangeCapture.Merge
import ChangeCapture.Offset.Basic
import ChangeCapture.Offset.Store
import ChangeCapture.Offset.Tracker
import ChangeCapture.Position.Basic
import ChangeCapture.Position.Lsn
import ChangeCapture.Position.Scn
import ChangeCapture.Position.Sequence
import ChangeCapture.Program
import ChangeCapture.Proofs.Calls
import ChangeCapture.Proofs.Commits
import ChangeCapture.Proofs.Delivery
import ChangeCapture.Proofs.Discovery
import ChangeCapture.Proofs.Growth
import ChangeCapture.Proofs.Interval
import ChangeCapture.Proofs.Journal
import ChangeCapture.Proofs.LateInstances
import ChangeCapture.Proofs.Lives
import ChangeCapture.Proofs.Merge.Completeness
import ChangeCapture.Proofs.Merge.Draining
import ChangeCapture.Proofs.Merge.Failing
import ChangeCapture.Proofs.Merge.Order
import ChangeCapture.Proofs.Merge.Union
import ChangeCapture.Proofs.Order
import ChangeCapture.Proofs.Partition
import ChangeCapture.Proofs.Planning
import ChangeCapture.Proofs.Polling
import ChangeCapture.Proofs.Progress
import ChangeCapture.Proofs.Redo.Order
import ChangeCapture.Proofs.Redo.Reading
import ChangeCapture.Proofs.Registry
import ChangeCapture.Proofs.Restarts
import ChangeCapture.Proofs.Resuming
import ChangeCapture.Proofs.Runs
import ChangeCapture.Proofs.Starting
import ChangeCapture.Proofs.Statement.Reading
import ChangeCapture.Proofs.Statement.Value
import ChangeCapture.Proofs.Statement.Writing
import ChangeCapture.Proofs.Steps
import ChangeCapture.Proofs.Stream.Assembly
import ChangeCapture.Proofs.Stream.Draining
import ChangeCapture.Proofs.Stream.Exactness
import ChangeCapture.Proofs.Stream.Opening
import ChangeCapture.Proofs.Stream.Order
import ChangeCapture.Proofs.Stream.Owing
import ChangeCapture.Proofs.Stream.Reference
import ChangeCapture.Proofs.Surroundings
import ChangeCapture.Proofs.Tasks
import ChangeCapture.Proofs.Tracking
import ChangeCapture.Record.Basic
import ChangeCapture.Record.Event
import ChangeCapture.Redo.Basic
import ChangeCapture.Redo.Reader
import ChangeCapture.Snapshot.Reading
import ChangeCapture.Snapshot.State
import ChangeCapture.Statement.Basic
import ChangeCapture.Statement.Images
import ChangeCapture.Statement.Input
import ChangeCapture.Statement.Parser
import ChangeCapture.Statement.Value
import ChangeCapture.Streaming.Schedule
import ChangeCapture.Streaming.Source
import ChangeCapture.Streaming.Streamer
import ChangeCapture.Streaming.Task
import ChangeCapture.Table
import ChangeCapture.Text.Base64
import ChangeCapture.Text.Blank
import ChangeCapture.Text.Escaped
import ChangeCapture.Text.Hex
import ChangeCapture.Text.Integer
import ChangeCapture.Text.Printable
import ChangeCapture.Text.Search
import ChangeCapture.Text.Utf16
import ChangeCapture.Text.Uuid
import ChangeCapture.Validation
import ChangeCapture.Value.Default
import ChangeCapture.Value.Expression
import ChangeCapture.Value.Kind
import ChangeCapture.Value.Literal
import ChangeCapture.Value.Normalize
import ChangeCapture.Value.Raw
import ChangeCapture.Proofs.Bookkeeping
import ChangeCapture.Proofs.Exchange
import ChangeCapture.Proofs.Stopping
import ChangeCapture.Proofs.Channels
import ChangeCapture.Proofs.TaskRuns
import ChangeCapture.Proofs.GrowingListings
import ChangeCapture.Proofs.Stream.Standing
import ChangeCapture.Proofs.Records
import ChangeCapture.Proofs.Forgetting
import ChangeCapture.Proofs.Migration
import ChangeCapture.Proofs.Cuts
import ChangeCapture.Proofs.Json.Reading
import ChangeCapture.Proofs.Snapshot.Tables
import ChangeCapture.Proofs.Snapshot.Completion
import ChangeCapture.Proofs.Snapshot.Keeping
import ChangeCapture.Proofs.Text.Hex
import ChangeCapture.Proofs.Positions
import ChangeCapture.Proofs.OffsetTexts
import ChangeCapture.Proofs.Disk
import ChangeCapture.Proofs.Snapshot.Locking
import ChangeCapture.Proofs.Events
import ChangeCapture.Proofs.Stream.Naming
import ChangeCapture.Proofs.OffsetFiles
import ChangeCapture.Proofs.FileStore
import ChangeCapture.Proofs.Redaction
import ChangeCapture.Proofs.Retrying
import ChangeCapture.Proofs.Redo.Union
import ChangeCapture.Proofs.Statement.Alignment
import ChangeCapture.Proofs.Statement.Endings
import ChangeCapture.Proofs.Statement.Following
import ChangeCapture.Proofs.Text.Blank
import ChangeCapture.Proofs.Text.Utf16
import ChangeCapture.Proofs.Value.Literal
import ChangeCapture.Proofs.Value.Calls
import ChangeCapture.Proofs.Value.Escapes
import ChangeCapture.Proofs.Value.Parentheses
import ChangeCapture.Proofs.Value.Wrappers
import ChangeCapture.Proofs.Text.Integer
import ChangeCapture.Proofs.Value.CodeUnits
import ChangeCapture.Proofs.Value.Defaults
import ChangeCapture.Proofs.Value.QuotedDefaults
import ChangeCapture.Proofs.Calendar
import ChangeCapture.Proofs.Value.Routes
import ChangeCapture.Proofs.Replays
import ChangeCapture.Proofs.Reconciliation
import ChangeCapture.Proofs.Labels
import ChangeCapture.Proofs.Reloading
import ChangeCapture.Proofs.Text.Order
import ChangeCapture.Proofs.CapturedColumns
import ChangeCapture.Proofs.TableNames
import ChangeCapture.Proofs.Numerals
import ChangeCapture.Proofs.Value.Decimals
import ChangeCapture.Proofs.Statement.Delimiters
import ChangeCapture.Proofs.Statement.Spans
import ChangeCapture.Proofs.Bytes.Text
import ChangeCapture.Proofs.Bytes.Scanner
import ChangeCapture.Proofs.Bytes.Parser
import ChangeCapture.Proofs.Bytes.Words
import ChangeCapture.Proofs.Bytes.Values
import ChangeCapture.Proofs.Bytes.Statement
import ChangeCapture.Proofs.Bytes.Expression
import ChangeCapture.Proofs.Bytes.Default
