import ChangeCapture.Backoff
import ChangeCapture.Capture.Registry
import ChangeCapture.Offset.Basic
import ChangeCapture.Text.Blank
import ChangeCapture.Text.Escaped
import ChangeCapture.Text.Search

/-! # Configuration of a capture -/

namespace ChangeCapture

/-- Whether tables are read once before their changes are. -/
inductive SnapshotMode where
  /-- Tables are read when no offset is known. -/
  | initial
  | never
  deriving DecidableEq, Repr

def SnapshotMode.name : SnapshotMode → String
  | .initial => "Initial"
  | .never => "Never"

/-- How changes are captured from a SQL Server database. -/
structure Configuration where
  host : String := "localhost"
  port : Nat := 1433
  username : String := ""
  password : Option String := none
  database : String := ""
  applicationName : String := "rivven-changelog"
  /-- The pause between two intervals in milliseconds. -/
  pollInterval : Nat := 500
  includeTables : List (String × String) := []
  excludeTables : List (String × String) := []
  /-- An offset or position to start at, if the text is not blank. -/
  startLsn : String := ""
  /-- The most transactions of an interval; zero stands for all. -/
  maxTransactions : Nat := 500
  /-- The records that wait to be received. -/
  bufferSize : Nat := 16
  /-- The time to connect in seconds. -/
  connectTimeout : Nat := 30
  trustServerCertificate : Bool := false
  encrypt : Bool := true
  snapshotMode : SnapshotMode := .initial
  /-- The time to wait for a lock in milliseconds. -/
  lockTimeout : Nat := 10000
  /-- The pause after the first failure in milliseconds. -/
  retryInitial : Nat := 500
  /-- The longest pause after a failure in milliseconds. -/
  retryMax : Nat := 30000
  /-- How many failures may follow one another; zero stands for any number. -/
  maxRetries : Nat := 10
  /-- The key of the offset in its store. -/
  offsetKey : String := "rivven-changelog"
  /-- The file that keeps the progress of the first reading. -/
  snapshotStatePath : Option String := none
  /-- The connection text for reports, which is kept when the configuration is built. -/
  reportedConnection : String := ""
  deriving DecidableEq, Repr

/-- Where the changes start when no offset is stored. -/
inductive StartPosition where
  /-- After an offset. -/
  | offset (o : Offset .sqlserver)
  /-- At a position. -/
  | lsn (p : Lsn)
  deriving DecidableEq

namespace Configuration

/-! ## Connection text -/

/-- The time to connect as a signed 32-bit number. -/
def connectSeconds (config : Configuration) : Nat := min config.connectTimeout 2147483647

/-- The settings of a connection in their order. -/
def connectionParts (config : Configuration) : List String :=
  [s!"Server={config.host},{config.port}", s!"Database={config.database}",
    s!"User Id={config.username}"] ++
  (config.password.map fun p => s!"Password={p}").toList ++
  [s!"Application Name={config.applicationName}", s!"Connect Timeout={config.connectSeconds}"] ++
  (if config.trustServerCertificate then ["TrustServerCertificate=true"] else []) ++
  [if config.encrypt then "Encrypt=true" else "Encrypt=false"]

def connectionString (config : Configuration) : String :=
  String.intercalate ";" config.connectionParts

def passwordMark : List Char := "Password=".toList

/-- A text in which what follows the first mark of a password, up to the next semicolon, is hidden. -/
def redact : List Char → List Char
  | [] => []
  | c :: rest =>
      if passwordMark.isPrefixOf (c :: rest) then
        "Password=[REDACTED]".toList ++ rest.dropWhile (· != ';')
      else c :: redact rest

/-- The connection text without the password, for reports. -/
def redactedConnectionString (config : Configuration) : String :=
  String.ofList (redact config.connectionString.toList)

/-! ## Start -/

def tableFilter (config : Configuration) : TableFilter :=
  { included := config.includeTables, excluded := config.excludeTables }

/-- The configured start: a text with a colon is an offset, any other a position. -/
def startPosition (config : Configuration) : Except CaptureError (Option StartPosition) :=
  let text := Text.trimString config.startLsn
  if text.isEmpty then .ok none
  else if text.toList.contains ':' then (Offset.parse text).map fun o => some (.offset o)
  else
    match Position.ofHex (b := .sqlserver) text with
    | .error e => .error e
    | .ok p =>
        if p.isNull then .error (.config "Start LSN cannot be NULL") else .ok (some (.lsn p))

/-- The pauses after failures. -/
def backoff (config : Configuration) : Backoff :=
  { base := config.retryInitial, max := config.retryMax, maxAttempts := config.maxRetries }

/-! ## Validity -/

/-- The failure of a configured start that cannot be read. -/
def invalidStart (e : CaptureError) : CaptureError := .config s!"Invalid start LSN: {e.message}"

/-- The first requirement that is not met. -/
def validate (config : Configuration) : Except CaptureError Unit :=
  if config.host.isEmpty then .error (.config "Host is required")
  else if config.username.isEmpty then .error (.config "Username is required")
  else if config.database.isEmpty then .error (.config "Database is required")
  else if config.pollInterval = 0 then .error (.config "Poll interval must be > 0")
  else if config.pollInterval < 50 then
    .error (.config "Poll interval must be >= 50ms to avoid excessive load")
  else if config.lockTimeout = 0 then .error (.config "Lock timeout must be > 0")
  else if config.retryMax < config.retryInitial then
    .error (.config "Initial retry delay must not exceed the maximum delay")
  else if config.offsetKey.isEmpty then .error (.config "Offset key is required")
  else
    match config.startPosition with
    | .ok _ => .ok ()
    | .error e => .error (invalidStart e)

/-- The configuration if it is valid. It keeps its connection text without the password. -/
def build (config : Configuration) : Except CaptureError Configuration :=
  config.validate.map fun _ => { config with reportedConnection := config.redactedConnectionString }

/-! ## Description -/

def describeOption (value : Option String) : String :=
  match value with
  | none => "None"
  | some text => "Some(" ++ text ++ ")"

def describeTables (tables : List (String × String)) : String :=
  "[" ++ String.intercalate ", "
    (tables.map fun t => "(" ++ Text.quoted t.1 ++ ", " ++ Text.quoted t.2 ++ ")") ++ "]"

/-- The fields in reports. The password is hidden. -/
def describedFields (config : Configuration) : List (String × String) :=
  [("host", Text.quoted config.host), ("port", toString config.port),
    ("username", Text.quoted config.username),
    ("password", describeOption (config.password.map fun _ => Text.quoted "[REDACTED]")),
    ("database", Text.quoted config.database),
    ("application_name", Text.quoted config.applicationName),
    ("poll_interval_ms", toString config.pollInterval),
    ("include_tables", describeTables config.includeTables),
    ("exclude_tables", describeTables config.excludeTables),
    ("start_lsn", Text.quoted config.startLsn),
    ("max_transactions_per_iteration", toString config.maxTransactions),
    ("buffer_size", toString config.bufferSize),
    ("connect_timeout_secs", toString config.connectTimeout),
    ("trust_server_certificate", toString config.trustServerCertificate),
    ("encrypt", toString config.encrypt), ("snapshot_mode", config.snapshotMode.name),
    ("lock_timeout_ms", toString config.lockTimeout),
    ("retry_initial_ms", toString config.retryInitial),
    ("retry_max_ms", toString config.retryMax), ("max_retries", toString config.maxRetries),
    ("offset_key", Text.quoted config.offsetKey),
    ("snapshot_state_path", describeOption (config.snapshotStatePath.map Text.quoted)),
    ("redacted_conn_str", Text.quoted config.reportedConnection)]

/-- The configuration in reports. -/
def describe (config : Configuration) : String :=
  "SqlServerCdcConfig \x7b " ++
    String.intercalate ", " (config.describedFields.map fun f => f.1 ++ ": " ++ f.2) ++ " \x7d"

end Configuration

end ChangeCapture
