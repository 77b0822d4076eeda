import ChangeCapture.Capture.Server
import Std.Data.TreeMap

/-! # The registry of capture instances -/

namespace ChangeCapture

/-! ## Filters -/

/-- Which tables are captured, given by schema and name. What is excluded is never captured; if nothing
is included, all the rest is. -/
structure TableFilter where
  included : List (String × String) := []
  excluded : List (String × String) := []
  deriving DecidableEq, Repr

def TableFilter.matches (filter : TableFilter) (table : TableId) : Bool :=
  let pair := (table.schema, table.table)
  !filter.excluded.contains pair && (filter.included.isEmpty || filter.included.contains pair)

/-! ## Discovery -/

/-- Every failure of a listing is a failure of discovery. -/
def CaptureError.asDiscovery : CaptureError → CaptureError
  | .discovery text => .discovery text
  | e => .discovery e.message

/-- A program whose failures are failures of discovery. -/
def CaptureStep.asDiscovery {α : Type} (step : CaptureStep α) : CaptureStep α :=
  ExceptT.mk do
    let result ← step.run
    return result.mapError CaptureError.asDiscovery

namespace Registry

/-- The instances of some rows, those of tables that are not captured left out. -/
def instancesOf (database : String) (filter : TableFilter) :
    List ListedInstance → Except CaptureError (List CaptureInstance)
  | [] => .ok []
  | row :: rows => do
      let ci ← row.toInstance database
      let rest ← instancesOf database filter rows
      return if filter.matches ci.table then ci :: rest else rest

/-- The capture instances of all captured tables. -/
def listSources (database : String) (filter : TableFilter) : CaptureStep (List CaptureInstance) := do
  let rows ← Server.listInstances.asDiscovery
  ExceptT.mk (pure (instancesOf database filter rows))

/-- The instances of some names in their order, each of them once. Of several instances of one name the
last counts. -/
def pick (known : Std.TreeMap String CaptureInstance) : List String → List CaptureInstance
  | [] => []
  | name :: names =>
      match known.get? name with
      | some ci => ci :: pick (known.erase name) names
      | none => pick known names

def byName (sources : List CaptureInstance) : Std.TreeMap String CaptureInstance :=
  sources.foldl (fun known ci => known.insert ci.name ci) ∅

/-- The capture instances of captured tables that start in a range. The server gives their names only,
so that they are looked up in the whole listing. -/
def listNewSources (database : String) (filter : TableFilter) (first last : Lsn) :
    CaptureStep (List CaptureInstance) := do
  let names ← (Server.listNewInstances first last).asDiscovery
  if names.isEmpty then return []
  else
    let sources ← listSources database filter
    return pick (byName sources) names

/-- The columns of a table that an instance captures, in the order of the table, and those of them that
are in its key. -/
def resolveSchema (source : CaptureInstance) : CaptureStep TableSchema := do
  let live ← Server.tableColumns source.table
  let captured := live.filter fun c => source.capturedColumns.contains c.name
  let columns := captured.mergeSort fun c d => c.position ≤ d.position
  let key ← Server.keyColumns source.table
  return { id := source.table, columns
           primaryKey := key.filter fun k => columns.any fun c => c.name == k }

end Registry

/-! ## Snapshots of the registry -/

/-- The known capture instances by name. -/
structure RegistrySnapshot where
  sources : Std.TreeMap String CaptureInstance := ∅

/-- How the listing has changed. -/
structure RegistryDiff where
  /-- Instances that were not there before. -/
  added : List CaptureInstance
  /-- Instances that are gone or have stopped. -/
  retired : List CaptureInstance
  /-- The number of all others. -/
  unchanged : Nat
  /-- What is known now. -/
  snapshot : RegistrySnapshot

def RegistryDiff.isEmpty (diff : RegistryDiff) : Bool :=
  diff.added.isEmpty && diff.retired.isEmpty

namespace RegistrySnapshot

/-- The instances of a list. Of several of one name the last counts. -/
def ofList (sources : List CaptureInstance) : RegistrySnapshot := ⟨Registry.byName sources⟩

/-- The instances in the order of their names. -/
def toList (snapshot : RegistrySnapshot) : List CaptureInstance := snapshot.sources.values

def get? (snapshot : RegistrySnapshot) (name : String) : Option CaptureInstance :=
  snapshot.sources.get? name

def size (snapshot : RegistrySnapshot) : Nat := snapshot.sources.size

def isEmpty (snapshot : RegistrySnapshot) : Bool := snapshot.sources.isEmpty

/-- What a listed instance is in comparison with what was known. -/
inductive Standing where
  | added
  | retired
  | unchanged
  deriving DecidableEq, Repr

/-- An instance is retired when it was active and has stopped. -/
def standing (snapshot : RegistrySnapshot) (ci : CaptureInstance) : Standing :=
  match snapshot.get? ci.name with
  | none => .added
  | some known => if !known.isRetired && ci.isRetired then .retired else .unchanged

/-- Compares what was known with the latest listing. -/
def reconcile (snapshot : RegistrySnapshot) (latest : List CaptureInstance) : RegistryDiff :=
  let next := ofList latest
  let having (s : Standing) := next.toList.filter fun ci => snapshot.standing ci = s
  let gone := snapshot.toList.filter fun ci => (next.get? ci.name).isNone
  { added := having .added
    retired := having .retired ++ gone
    unchanged := (having .unchanged).length
    snapshot := next }

end RegistrySnapshot

end ChangeCapture
