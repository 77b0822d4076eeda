/-! # Failures of change capture -/

namespace ChangeCapture

/-! ## Kinds -/

/-- What went wrong in the file system or on a connection. -/
inductive IoKind where
  | connectionReset
  | connectionAborted
  | timedOut
  | interrupted
  | notFound
  | permissionDenied
  | unexpectedEof
  | brokenPipe
  | isADirectory
  | invalidFilename
  | invalidInput
  | invalidData
  deriving DecidableEq, Repr

namespace IoKind

/-- The kinds that are known by a name. -/
def names : List (String × IoKind) :=
  [("ConnectionReset", .connectionReset), ("ConnectionAborted", .connectionAborted),
    ("TimedOut", .timedOut), ("Interrupted", .interrupted), ("NotFound", .notFound),
    ("PermissionDenied", .permissionDenied), ("UnexpectedEof", .unexpectedEof),
    ("BrokenPipe", .brokenPipe), ("IsADirectory", .isADirectory),
    ("InvalidFilename", .invalidFilename), ("InvalidInput", .invalidInput),
    ("InvalidData", .invalidData)]

def ofName? (name : String) : Option IoKind := names.lookup name

end IoKind

/-- The groups of failures that alerts are raised by. -/
inductive ErrorCategory where
  | database
  | replication
  | schema
  | parse
  | configuration
  | network
  | serialization
  | other
  deriving DecidableEq, Repr

def ErrorCategory.name : ErrorCategory → String
  | .database => "database"
  | .replication => "replication"
  | .schema => "schema"
  | .parse => "parse"
  | .configuration => "configuration"
  | .network => "network"
  | .serialization => "serialization"
  | .other => "other"

/-- A failure of change capture. Every one of them ends the interval in progress. -/
inductive CaptureError where
  /-- Listing the captured tables failed. -/
  | discovery (message : String)
  /-- Reading the source labelled `origin` failed. -/
  | streamRead (origin message : String)
  /-- A redo statement is not in the grammar; `position` is where the log holds it, if known. -/
  | unparsableStatement (reason statement : String) (position : Option String)
  /-- The values read do not fit the captured columns. -/
  | schemaMismatch (message : String)
  /-- The exclusive lock on a table was not granted in time. -/
  | lockTimeout (table : String) (millis : Nat)
  /-- A log position is malformed or out of order. -/
  | invalidPosition (message : String)
  /-- The receiver of the records is gone. -/
  | sinkClosed (message : String)
  /-- A column or value cannot be interpreted. -/
  | schema (message : String)
  | config (message : String)
  /-- A text is no JSON text of the form asked for. -/
  | json
  | io (kind : IoKind) (message : String)
  | timeout (message : String)
  | connectionClosed
  | connectionRefused (message : String)
  | invalidState (message : String)
  | other (message : String)
  deriving DecidableEq, Repr

namespace CaptureError

/-! ## Reports -/

/-- The kind of the failure. -/
def name : CaptureError → String
  | .discovery _ => "Discovery"
  | .streamRead .. => "StreamRead"
  | .unparsableStatement .. => "UnparsableStatement"
  | .schemaMismatch _ => "SchemaMismatch"
  | .lockTimeout .. => "LockTimeout"
  | .invalidPosition _ => "InvalidPosition"
  | .sinkClosed _ => "SinkClosed"
  | .schema _ => "Schema"
  | .config _ => "Config"
  | .json => "Json"
  | .io .. => "Io"
  | .timeout _ => "Timeout"
  | .connectionClosed => "ConnectionClosed"
  | .connectionRefused _ => "ConnectionRefused"
  | .invalidState _ => "InvalidState"
  | .other _ => "Other"

def message : CaptureError → String
  | .discovery text => s!"Discovery error: {text}"
  | .streamRead origin text => s!"Stream read error on '{origin}': {text}"
  | .unparsableStatement reason statement none => s!"Unparsable statement: {reason}: {statement}"
  | .unparsableStatement reason statement (some position) =>
      s!"Unparsable statement at {position}: {reason}: {statement}"
  | .schemaMismatch text => s!"Schema mismatch: {text}"
  | .lockTimeout table millis =>
      s!"Timed out after {millis}ms acquiring exclusive lock on '{table}'"
  | .invalidPosition text => s!"Invalid position: {text}"
  | .sinkClosed text => s!"Sink closed: {text}"
  | .schema text => s!"Schema error: {text}"
  | .config text => s!"Configuration error: {text}"
  | .json => "JSON error"
  | .io _ text => s!"IO error: {text}"
  | .timeout text => s!"Timeout: {text}"
  | .connectionClosed => "Connection closed"
  | .connectionRefused text => s!"Connection refused: {text}"
  | .invalidState text => s!"Invalid state: {text}"
  | .other text => text

def category : CaptureError → ErrorCategory
  | .discovery _ | .lockTimeout .. => .database
  | .streamRead .. | .invalidPosition _ | .sinkClosed _ => .replication
  | .unparsableStatement .. => .parse
  | .schemaMismatch _ | .schema _ => .schema
  | .config _ => .configuration
  | .timeout _ | .connectionClosed | .connectionRefused _ | .io .. => .network
  | .json => .serialization
  | .invalidState _ | .other _ => .other

/-- The name of the failure in metrics. -/
def code : CaptureError → String
  | .discovery _ => "discovery_error"
  | .streamRead .. => "stream_read_error"
  | .unparsableStatement .. => "unparsable_statement"
  | .schemaMismatch _ => "schema_mismatch"
  | .lockTimeout .. => "lock_timeout"
  | .invalidPosition _ => "invalid_position"
  | .sinkClosed _ => "sink_closed"
  | .schema _ => "schema_error"
  | .config _ => "config_error"
  | .timeout _ => "timeout"
  | .connectionClosed => "connection_closed"
  | .connectionRefused _ => "connection_refused"
  | .io .. => "io_error"
  | .json => "json_error"
  | .invalidState _ => "invalid_state"
  | .other _ => "unknown"

/-! ## Retrying -/

/-- A failure that may pass: the interval is worth another attempt. Data that cannot be understood
stays so and is never read again. -/
def isRetriable : CaptureError → Bool
  | .discovery _ | .streamRead .. | .lockTimeout .. | .connectionClosed | .connectionRefused _
  | .timeout _ => true
  | .io kind _ =>
      match kind with
      | .connectionReset | .connectionAborted | .timedOut | .interrupted => true
      | _ => false
  | _ => false

/-! ## Context -/

/-- Says where in the log an unparsable statement stands; other failures stay as they are. -/
def atPosition (position : String) : CaptureError → CaptureError
  | .unparsableStatement reason statement _ =>
      .unparsableStatement reason statement (some position)
  | e => e

/-- A lock that was waited for in vain, for a time given in microseconds. -/
def lockTimeoutAfter (table : String) (micros : Nat) : CaptureError :=
  .lockTimeout table (micros / 1000)

end CaptureError

/-! ## Failures of a SQL Server connection -/

/-- What a connection to SQL Server reports. -/
inductive ServerError where
  | protocol (text : String)
  | authentication (text : String)
  | connection (text : String)
  /-- Change capture is switched off for a database. -/
  | captureDisabled (database : String)
  | invalidLsn (text : String)
  deriving DecidableEq, Repr

namespace ServerError

def message : ServerError → String
  | .protocol text => s!"TDS protocol error: {text}"
  | .authentication text => s!"Authentication failed: {text}"
  | .connection text => s!"Connection error: {text}"
  | .captureDisabled database =>
      s!"CDC not enabled on database '{database}'. Run: EXEC sys.sp_cdc_enable_db"
  | .invalidLsn text => s!"Invalid LSN: {text}"

/-- The failure of capture that a failing connection causes. -/
def toCaptureError : ServerError → CaptureError
  | .authentication text | .connection text => .connectionRefused text
  | .protocol _ => .connectionClosed
  | e@(.captureDisabled _) => .config e.message
  | e@(.invalidLsn _) => .invalidPosition e.message

end ServerError

end ChangeCapture
