import ChangeCapture.Capture.Server
import ChangeCapture.Merge

/-! # The changes of an interval -/

namespace ChangeCapture

/-! ## Windows that are read -/

/-- A window with the schema of its table. -/
structure PlannedWindow where
  window : SourceWindow
  schema : TableSchema

/-- What is known while a window is read. -/
structure WindowState where
  window : SourceWindow
  schema : TableSchema
  /-- For each column of the schema, its index among the captured columns. -/
  projection : List Nat
  /-- A row before a change that waits for the row after it. -/
  before : Option ChangeRow := none

namespace WindowState

def notCaptured (column : Column) (planned : PlannedWindow) : CaptureError :=
  .schemaMismatch (s!"Column '{column.name}' of {planned.schema.id} is not captured by " ++
    planned.window.source.name)

/-- The index of a column among the captured ones. -/
def capturedIndex (planned : PlannedWindow) (column : Column) : Except CaptureError Nat :=
  match planned.window.source.capturedColumns.findIdx? (· == column.name) with
  | some index => .ok index
  | none => .error (notCaptured column planned)

/-- Every column of the schema must be captured. -/
def ofPlanned (planned : PlannedWindow) : Except CaptureError WindowState := do
  let projection ← planned.schema.columns.mapM (capturedIndex planned)
  return { window := planned.window, schema := planned.schema, projection }

def wrongWidth (state : WindowState) (row : ChangeRow) : CaptureError :=
  .schemaMismatch (s!"{state.window.source.name} returned {row.values.length} values for " ++
    s!"{state.window.source.capturedColumns.length} captured columns at {Lsn.display row.startLsn}")

/-- The values of a row in the order of the schema. -/
def project (state : WindowState) (row : ChangeRow) : Except CaptureError Row :=
  if row.values.length = state.window.source.capturedColumns.length then
    .ok (state.projection.map fun i => (row.values[i]?).join)
  else .error (state.wrongWidth row)

/-- The row of a table of which nothing is known. -/
def unknownRow (state : WindowState) : Row := List.replicate state.schema.width none

/-- The record of a row of the window. -/
def record (state : WindowState) (operation : RowOperation) (row : ChangeRow) (old new : Row) :
    ChangeRecord .sqlserver :=
  { kind := operation.kind, opCode := operation.code, table := state.window.source.table
    source := state.window.source.name, position := row.startLsn
    sequence := Sequence.ofLsn row.seqval, old, new }

end WindowState

/-! ## Assembling records -/

namespace RowAssembly

def unknownOperation (label : String) (row : ChangeRow) : CaptureError :=
  .streamRead label
    s!"unknown __$operation {row.operation.toNat} at {Lsn.display row.startLsn}"

/-- The failure of a row before a change that is not followed by the row after it. -/
def orphan (label : String) (before : ChangeRow) : CaptureError :=
  .streamRead label
    (s!"update before image at {Lsn.display before.startLsn}/{Lsn.display before.seqval} " ++
      "has no after image")

/-- The values before a change whose row after it has come. Without a row before it nothing is known of
them. -/
def oldValues (state : WindowState) (label : String) (row : ChangeRow) : Except CaptureError Row :=
  match state.before with
  | none => .ok state.unknownRow
  | some before =>
      if before.startLsn = row.startLsn ∧ before.seqval = row.seqval then state.project before
      else .error (orphan label before)

/-- The record that a row completes, if it completes one, and the state after it. -/
def assemble (state : WindowState) (label : String) (row : ChangeRow) :
    Except CaptureError (Option (ChangeRecord .sqlserver)) × WindowState :=
  match RowOperation.ofCode? row.operation with
  | none => (.error (unknownOperation label row), state)
  | some .updateAfter =>
      match state.project row with
      | .error e => (.error e, state)
      | .ok new =>
          let taken := { state with before := none }
          match oldValues state label row with
          | .error e => (.error e, taken)
          | .ok old => (.ok (some (state.record .updateAfter row old new)), taken)
  | some operation =>
      match state.before with
      | some before => (.error (orphan label before), state)
      | none =>
          match operation with
          | .updateBefore => (.ok none, { state with before := some row })
          | .delete =>
              ((state.project row).map fun old => some (state.record .delete row old []), state)
          | .insert | .updateAfter =>
              ((state.project row).map fun new => some (state.record .insert row [] new), state)

end RowAssembly

/-! ## Streams -/

/-- The changes of the windows of an interval in their order. -/
structure ChangeStream where
  merge : Merge ChangeRow
  states : List WindowState
  /-- How many rows were dropped because a newer capture instance owns them. -/
  superseded : Nat := 0

namespace ChangeStream

/-- Asks for the rows of each window in turn, up to the first failure. -/
def openCursors : List WindowState → CaptureStep (List (MergeInput ChangeRow))
  | [] => return []
  | state :: states => do
      let label := state.window.label
      let cursor ← ExceptT.mk do
        let result ← (Server.changes state.window).run
        return result.mapError fun e => .streamRead label e.message
      let inputs ← openCursors states
      return { label, cursor } :: inputs

/-- Opens the windows of an interval. -/
def start (planned : List PlannedWindow) : CaptureStep ChangeStream := do
  let states ← ExceptT.mk (pure (planned.mapM WindowState.ofPlanned))
  let inputs ← openCursors states
  let merge ← ExceptT.mk (pure (Merge.start inputs))
  return { merge, states }

/-- The first window in which a row before a change still waits. -/
def waiting? (labels : List String) : List WindowState → Option CaptureError
  | [] => none
  | state :: states =>
      match state.before with
      | some before => some (RowAssembly.orphan (labels.headD "") before)
      | none => waiting? labels.tail states

/-- The next change, or nothing at the end. -/
def next (stream : ChangeStream) :
    Except CaptureError (Option (ChangeRecord .sqlserver)) × ChangeStream :=
  match _h : stream.merge.next with
  | (.error e, merge) => (.error e, { stream with merge })
  | (.ok none, merge) =>
      match waiting? merge.labels stream.states with
      | some e => (.error e, { stream with merge })
      | none => (.ok none, { stream with merge })
  | (.ok (some (input, row)), merge) =>
      let stream' := { stream with merge }
      match stream.states[input]? with
      | none => (.ok none, stream')
      | some state =>
          if state.window.owns row.startLsn then
            let (result, state) := RowAssembly.assemble state (merge.label input) row
            let stream' := { stream' with states := stream.states.set input state }
            match result with
            | .error e => (.error e, stream')
            | .ok (some record) => (.ok (some record), stream')
            | .ok none => next stream'
          else next { stream' with superseded := stream.superseded + 1 }
termination_by stream.merge.remaining
decreasing_by
  all_goals exact Merge.remaining_lt_of_next_eq _h

/-- Each record leaves fewer rows. -/
theorem remaining_next {stream : ChangeStream} {record : ChangeRecord .sqlserver}
    (h : stream.next.1 = .ok (some record)) :
    stream.next.2.merge.remaining < stream.merge.remaining := by
  fun_induction next stream with
  | case1 | case2 | case3 | case4 | case5 => simp at h
  | case6 =>
      have hlt := Merge.remaining_lt_of_next_eq ‹Merge.next _ = (Except.ok (some _), _)›
      simpa using hlt
  | case7 _ _ _ _ _ _ _ _ _ _ _ _ ih =>
      have hlt := Merge.remaining_lt_of_next_eq ‹Merge.next _ = (Except.ok (some _), _)›
      exact Nat.lt_trans (ih h) hlt
  | case8 _ _ _ _ _ _ _ _ _ ih =>
      have hlt := Merge.remaining_lt_of_next_eq ‹Merge.next _ = (Except.ok (some _), _)›
      exact Nat.lt_trans (ih h) hlt

/-- The changes up to the end or the first failure, the failure, and the stream after them. -/
def drain (stream : ChangeStream) :
    List (ChangeRecord .sqlserver) × Option CaptureError × ChangeStream :=
  match _h : stream.next with
  | (.error e, rest) => ([], some e, rest)
  | (.ok none, rest) => ([], none, rest)
  | (.ok (some record), rest) =>
      let (records, failure, final) := drain rest
      (record :: records, failure, final)
termination_by stream.merge.remaining
decreasing_by
  have h : stream.next.1 = .ok (some record) := by rw [_h]
  have := remaining_next h
  rw [_h] at this
  exact this

end ChangeStream

end ChangeCapture
