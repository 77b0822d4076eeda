import ChangeCapture.Capture.Registry
import ChangeCapture.Offset.Store
import ChangeCapture.Proofs.Order
import ChangeCapture.Proofs.Runs

/-! # The surroundings of a capture

What a server, a store and a receiver may answer, how the log grows between two requests, and what is
remembered of a run. -/

namespace ChangeCapture

/-! ## Servers -/

/-- The listing and the change tables of a server. -/
structure CapturedServer where
  listing : List ListedInstance
  /-- The rows of each capture instance. -/
  changes : String → List ChangeRow
  /-- The greatest position that was said to be captured. -/
  reported : Lsn
  ordered : ∀ name, (changes name).Pairwise fun r s => r.compareKeys s = .lt

namespace CapturedServer

/-- The rows of a window. -/
def windowRows (server : CapturedServer) (window : SourceWindow) : List ChangeRow :=
  (server.changes window.source.name).filter fun row =>
    row.startLsn.inRange window.first window.last

/-- A position was said to be captured. -/
def report (server : CapturedServer) (lsn : Lsn) : CapturedServer :=
  { server with reported := max server.reported lsn }

/-- The listing stays, no row is lost, and new rows lie behind what was said to be captured. -/
structure Grows (server later : CapturedServer) : Prop where
  listing : later.listing = server.listing
  reported : later.reported = server.reported
  kept : ∀ name row, row ∈ server.changes name → row ∈ later.changes name
  beyond : ∀ name row, row ∈ later.changes name →
    row ∈ server.changes name ∨ server.reported < row.startLsn

/-- What the answers of a server say. Any request may fail, and a cursor may fail after any row. An
instance that has rows is known, so that its lowest position is not null. -/
def Documented (server : CapturedServer) : (r : ServerRequest) → r.Answer → Prop
  | .listInstances, answer => ∀ rows, answer = .ok rows → rows = server.listing
  | .listNewInstances first last, answer => ∀ names, answer = .ok names → ∀ name,
      name ∈ names ↔ ∃ row ∈ server.listing, row.name = name ∧ ∃ start : Lsn,
        Position.ofBytes row.startLsn = .ok start ∧ !start.isNull ∧ start.inRange first last
  | .minLsn name, answer => ∀ lsn : Lsn, answer = .ok lsn →
      ∀ row ∈ server.changes name, !lsn.isNull ∧ lsn ≤ row.startLsn
  | .nthTransactionLsn first _, answer => ∀ lsn : Lsn, answer = .ok lsn → lsn.isNull ∨ first ≤ lsn
  | .incrementLsn lsn, answer => ∀ next : Lsn, answer = .ok next →
      lsn < next ∧ ∀ p, lsn < p → next ≤ p
  | .changes window, answer => ∀ cursor : Cursor ChangeRow, answer = .ok cursor →
      cursor.rows <+: server.windowRows window ∧
        (cursor.failure = none → cursor.rows = server.windowRows window)
  | _, _ => True

/-- The server after an answer. -/
def afterAnswer (server : CapturedServer) : (r : ServerRequest) → r.Answer → CapturedServer
  | .maxLsn, answer =>
      match (answer : Except CaptureError Lsn) with
      | .ok lsn => server.report lsn
      | .error _ => server
  | _, _ => server

end CapturedServer

/-- The columns of a table are told by a function. -/
def ServerRequest.ColumnsAre (columns : TableId → List Column) : (r : ServerRequest) → r.Answer → Prop
  | .tableColumns table, answer => ∀ live, answer = .ok live → live = columns table
  | _, _ => True

/-! ## Events -/

/-- What is remembered of a run. -/
inductive Event where
  /-- The receiver has acknowledged a record. -/
  | acknowledged (record : ChangeRecord .sqlserver)
  /-- The store has taken an offset, whatever it answered. -/
  | saved (key : String) (offset : Offset .sqlserver)
  /-- The capture was found switched off. -/
  | stopped
  /-- A life of the capture has found out where to start: where its first interval begins, and after
  which offset it resumes. -/
  | began (first : Lsn) (resumed : Option (Offset .sqlserver))
  /-- A life of the capture was cut off while the store held an offset or none. -/
  | crashed (saved : Option (Offset .sqlserver))

/-- All that a capture deals with, and what has happened to it. -/
structure World where
  server : CapturedServer
  store : OffsetMap .sqlserver := ∅
  history : List Event := []

namespace World

def note (w : World) (event : Event) : World := { w with history := w.history ++ [event] }

/-- The store has taken an offset. -/
def save (w : World) (key : String) (offset : Offset .sqlserver) : World :=
  { w.note (.saved key offset) with store := w.store.save key offset }

/-- A request is answered, and the world changes with the answer. A store that fails to save may have
taken the offset or not. -/
def Responds (w : World) : (r : CaptureRequest) → r.Answer → World → Prop
  | .server r, answer, w' => w' = { w with server := w.server.afterAnswer r answer }
  | .storage (.loadOffset key), answer, w' =>
      w' = w ∧ ∀ found, answer = .ok found → found = w.store.load key
  | .storage (.saveOffset key offset), answer, w' =>
      w' = w.save key offset ∨ w' = w ∧ ∃ e, answer = .error e
  | .deliver record, answer, w' =>
      match (answer : Except CaptureError Unit) with
      | .ok _ => w' = w.note (.acknowledged record)
      | .error _ => w' = w
  | .isActive, answer, w' =>
      match (answer : Bool) with
      | true => w' = w
      | false => w' = w.note .stopped
  | .storage (.readProgress _), _, w' | .storage (.writeProgress _ _), _, w'
  | .lockTable _ _, _, w' | .now, _, w' => w' = w

end World

/-! ## Rules -/

/-- What may be relied on in surroundings. -/
structure Rules where
  /-- How the server may change by itself between two requests. -/
  Drifts : CapturedServer → CapturedServer → Prop
  /-- What the server may answer. -/
  Serves : CapturedServer → (r : ServerRequest) → r.Answer → Prop

namespace Rules

/-- A server that keeps to its documentation, whose log grows. -/
def documented : Rules := ⟨CapturedServer.Grows, CapturedServer.Documented⟩

/-- A server that keeps to its documentation and does not change. -/
def still : Rules := ⟨Eq, CapturedServer.Documented⟩

/-- A server that keeps to its documentation and does not change, nor do the columns of its tables. -/
def fixed (columns : TableId → List Column) : Rules :=
  ⟨Eq, fun server r answer => server.Documented r answer ∧ r.ColumnsAre columns answer⟩

/-- A server that may do anything. -/
def lawless : Rules := ⟨fun _ _ => True, fun _ _ _ => True⟩

/-- Only the server is bound by rules. -/
def Allows (rules : Rules) (server : CapturedServer) : (r : CaptureRequest) → r.Answer → Prop
  | .server r, answer => rules.Serves server r answer
  | _, _ => True

/-- The answers that may be given under some rules. -/
def answers (rules : Rules) : Program.Answers CaptureRequest.interface World :=
  fun w r answer w' => ∃ server, rules.Drifts w.server server ∧ rules.Allows server r answer ∧
    { w with server }.Responds r answer w'

/-- A server that may do anything may keep to rules. -/
theorem lawless_answers {rules : Rules} {w w' : World} {r : CaptureRequest} {answer : r.Answer}
    (h : rules.answers w r answer w') : lawless.answers w r answer w' := by
  obtain ⟨server, _, _, h⟩ := h
  refine ⟨server, trivial, ?_, h⟩
  cases r <;> trivial

end Rules

end ChangeCapture
