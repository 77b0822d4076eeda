import ChangeCapture.Capture.Request
import ChangeCapture.Memory.CallLog

/-! # A server in memory -/

namespace ChangeCapture

/-- The tables of a database with their changes. Columns, keys and rows of a table are found by its
schema and name, changes by the name of the capture instance. -/
structure MemoryServer extends CallLog where
  database : String
  listing : List ListedInstance := []
  columns : List (String × List Column) := []
  keys : List (String × List String) := []
  changes : List (String × List ChangeRow) := []
  rows : List (String × List Row) := []
  maxLsn : Lsn := .null
  minLsns : List (String × Lsn) := []
  /-- The position of the last transaction, if it is not that of the last change. -/
  lastTransaction : Option Lsn := none
  /-- The answer to every question for a next position, if it is fixed. -/
  increment : Option Lsn := none
  /-- The milliseconds that a lock takes. -/
  lockDelay : Nat := 0

namespace MemoryServer

/-! ## Entries by name -/

/-- Sets the entry of a name. -/
def put {α : Type} (name : String) (value : α) (entries : List (String × α)) : List (String × α) :=
  (name, value) :: entries.filter fun e => e.1 != name

/-- Adds to the list of a name. -/
def append {α : Type} (name : String) (values : List α) (entries : List (String × List α)) :
    List (String × List α) :=
  put name ((entries.lookup name).getD [] ++ values) entries

/-- The list of a name. -/
def entry {α : Type} (name : String) (entries : List (String × List α)) : List α :=
  (entries.lookup name).getD []

/-! ## Changing the server -/

/-- Sets the columns and the key of a table. -/
def defineTable (server : MemoryServer) (table : String) (columns : List Column)
    (key : List String) : MemoryServer :=
  { server with columns := put table columns server.columns, keys := put table key server.keys }

def addInstance (server : MemoryServer) (row : ListedInstance) : MemoryServer :=
  { server with listing := server.listing ++ [row] }

/-- Ends a capture instance at a position. -/
def retireInstance (server : MemoryServer) (name : String) (stop : Lsn) : MemoryServer :=
  let retire (row : ListedInstance) : ListedInstance :=
    if row.name = name then { row with endLsn := stop.toBytes } else row
  { server with listing := server.listing.map retire }

def dropInstance (server : MemoryServer) (name : String) : MemoryServer :=
  { server with listing := server.listing.filter fun row => row.name != name }

/-- The greatest position of some changes, and `start` at least. -/
def greatestLsn (start : Lsn) (rows : List ChangeRow) : Lsn :=
  rows.foldl (fun lsn row => max lsn row.startLsn) start

/-- Adds changes to a capture instance. -/
def addChanges (server : MemoryServer) (name : String) (rows : List ChangeRow) : MemoryServer :=
  { server with
    changes := append name rows server.changes
    maxLsn := greatestLsn server.maxLsn rows }

/-- Adds rows to a table. -/
def addRows (server : MemoryServer) (table : String) (rows : List Row) : MemoryServer :=
  { server with rows := append table rows server.rows }

/-! ## Answers -/

/-- All changes of all capture instances. -/
def allChanges (server : MemoryServer) : List ChangeRow := server.changes.flatMap Prod.snd

/-- The names of the listed capture instances that start in a range. -/
def startingIn (first last : Lsn) : List ListedInstance → Except CaptureError (List String)
  | [] => .ok []
  | row :: rows => do
      let start : Lsn ← Position.ofBytes row.startLsn
      let names ← startingIn first last rows
      return if !start.isNull && start.inRange first last then row.name :: names else names

/-- The positions of changes from `first` on, each of them once. -/
def laterLsns (server : MemoryServer) (first : Lsn) : List Lsn :=
  let later := (server.allChanges.map ChangeRow.startLsn).filter fun lsn => first ≤ lsn
  (later.mergeSort fun p q => p ≤ q).eraseReps

/-- The n-th of the later positions, or the last of them. -/
def nthLsn (server : MemoryServer) (first : Lsn) (n : Nat) : Lsn :=
  let later := server.laterLsns first
  later.getD (min n (later.length - 1)) .null

/-- The position after one, or zero after the greatest. -/
def nextLsn (server : MemoryServer) (lsn : Lsn) : Except CaptureError Lsn :=
  match server.increment, lsn.value with
  | some next, _ => .ok next
  | none, some v => .ok (.ofNat (v.toNat + 1))
  | none, none => .error (.invalidPosition "Cannot increment the NULL LSN")

def unknownTable (table : TableId) : CaptureError := .schema s!"Unknown table {table}"

def onCalls {α : Type} (action : StateM CallLog α) : StateM MemoryServer α :=
  modifyGet fun server =>
    let (a, calls) := action.run server.toCallLog
    (a, { server with toCallLog := calls })

/-- Notes a call and answers it, unless a fault of its name applies. -/
def call {α : Type} (words : List String) (name : String)
    (value : MemoryServer → StateM MemoryServer (Except CaptureError α)) :
    StateM MemoryServer (Except CaptureError α) := do
  match ← onCalls (CallLog.note words name) with
  | .error e => return .error e
  | .ok _ => value (← get)

/-- A call without operands. -/
def plainCall {α : Type} (name : String) (value : MemoryServer → Except CaptureError α) :
    StateM MemoryServer (Except CaptureError α) :=
  call [name] name fun server => return value server

/-- The rows of a name, which may fail on the way. -/
def openCursor {α : Type} (name : String) (rows : List α) :
    StateM MemoryServer (Except CaptureError (Cursor α)) := do
  return .ok (← onCalls (CallLog.openCursor name rows))

/-- Answers a request. -/
def answer : (request : ServerRequest) → StateM MemoryServer request.Answer
  | .listInstances => plainCall "list_change_tables" fun server => .ok server.listing
  | .listNewInstances first last =>
      call ["list_new_change_tables", first.toHex, last.toHex] "list_new_change_tables" fun server =>
        return startingIn first last server.listing
  | .tableColumns table =>
      call ["table_columns", table.display] "table_columns" fun server =>
        return (server.columns.lookup table.display).elim (.error (unknownTable table)) .ok
  | .keyColumns table =>
      call ["key_columns", table.display] "key_columns" fun server =>
        return .ok (entry table.display server.keys)
  | .minLsn name =>
      call ["min_lsn", name] "min_lsn" fun server =>
        return .ok ((server.minLsns.lookup name).getD .null)
  | .maxLsn => plainCall "max_lsn" fun server => .ok server.maxLsn
  | .maxTransactionLsn =>
      plainCall "max_transaction_lsn" fun server =>
        .ok (server.lastTransaction.getD (greatestLsn .null server.allChanges))
  | .nthTransactionLsn first n =>
      call ["nth_transaction", first.toHex, toString n] "nth_transaction" fun server =>
        return .ok (server.nthLsn first n)
  | .incrementLsn lsn =>
      call ["increment_lsn", lsn.toHex] "increment_lsn" fun server => return server.nextLsn lsn
  | .changes window =>
      let name := window.source.name
      call ["changes", name, window.first.toHex, window.last.toHex] s!"changes:{name}" fun server =>
        openCursor name ((entry name server.changes).filter fun row =>
          row.startLsn.inRange window.first window.last)
  | .snapshotRows table columns =>
      call ["snapshot_rows", table.display, String.intercalate "," columns] "snapshot_rows"
        fun server => openCursor table.display (entry table.display server.rows)
  | .unlockTable table => call ["unlock", table.display] "unlock" fun _ => return .ok ()

/-- Locks a table after the time that it takes. -/
def lock (table : TableId) : StateM MemoryServer LockAnswer := do
  match ← call (α := Unit) ["lock", table.display] "lock" fun _ => return .ok () with
  | .ok _ => return .granted
  | .error e => return .refused e

end MemoryServer

end ChangeCapture
