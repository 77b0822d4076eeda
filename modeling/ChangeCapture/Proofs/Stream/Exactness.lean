import ChangeCapture.Proofs.Steps
import ChangeCapture.Proofs.Stream.Order
import ChangeCapture.Proofs.Stream.Owing
import Mathlib.Tactic.Choose

/-! # Streams without failing cursors

When the rows of all windows can be read and are in order, a stream yields exactly the changes that they
stand for, or it fails because a row stands for none. -/

namespace ChangeCapture.ChangeStream

open List
open Merge (ofInput Gives)

variable {stream : ChangeStream} {states : List WindowState} {given : List (Nat × ChangeRow)}
  {references : Nat → List (ChangeRecord .sqlserver)} {planned : List PlannedWindow}
  {rows : SourceWindow → List ChangeRow} {answer : (r : CaptureRequest) → r.Answer}

/-! ## Opening -/

/-- The input of a window whose rows can all be read. -/
def inputOf (rows : SourceWindow → List ChangeRow) (window : SourceWindow) : MergeInput ChangeRow :=
  { label := window.label, cursor := { rows := rows window } }

theorem outcome_openCursors
    (hanswer : ∀ state ∈ states, answer (.server (.changes state.window)) =
      (Except.ok { rows := rows state.window } : Except CaptureError (Cursor ChangeRow))) :
    CaptureStep.outcome answer (openCursors states) =
      .ok (states.map fun state => inputOf rows state.window) := by
  induction states with
  | nil => rfl
  | cons state states ih =>
      obtain ⟨hstate, hstates⟩ := forall_mem_cons.mp hanswer
      have hcursor : CaptureStep.outcome answer (ExceptT.mk do
          let result ← (Server.changes state.window).run
          return result.mapError fun e => .streamRead state.window.label e.message) =
          (Except.ok { rows := rows state.window } : Except CaptureError (Cursor ChangeRow)) := by
        change Except.mapError _ (answer (.server (.changes state.window)) :
          Except CaptureError (Cursor ChangeRow)) = _
        rw [hstate]
        rfl
      rw [openCursors]
      exact (CaptureStep.outcome_bind_ok hcursor).trans (CaptureStep.outcome_bind_ok (ih hstates))

theorem states_of_forall₂ (h : Forall₂ (fun p state => state.toPlanned = p ∧ state.before = none ∧
    state.Sound) planned states) :
    states.map WindowState.toPlanned = planned ∧
      ∀ state ∈ states, state.before = none ∧ state.Sound := by
  induction h with
  | nil => simp
  | cons hstate _ ih =>
      obtain ⟨hplanned, hfresh⟩ := hstate
      rw [map_cons, ih.1, hplanned]
      exact ⟨rfl, forall_mem_cons.mpr ⟨hfresh, ih.2⟩⟩

theorem orderly_inputOf
    (hsorted : ∀ p ∈ planned, (rows p.window).Pairwise fun r s => r.compareKeys s = .lt) :
    ∀ input ∈ planned.map fun p => inputOf rows p.window, input.cursor.Orderly := by
  rw [forall_mem_map]
  exact fun p hp => ⟨rfl, hsorted p hp⟩

/-- The stream of some windows, all rows of which can be read, before its first change. -/
structure Begun (planned : List PlannedWindow) (rows : SourceWindow → List ChangeRow)
    (stream : ChangeStream) : Prop where
  planned_eq : stream.states.map WindowState.toPlanned = planned
  fresh : ∀ state ∈ stream.states, state.before = none
  sound : ∀ state ∈ stream.states, state.Sound
  superseded_eq : stream.superseded = 0
  start_eq : Merge.start (planned.map fun p => inputOf rows p.window) = .ok stream.merge

/-- Windows that can be read are opened. -/
theorem exists_begun (hcaptured : ∀ p ∈ planned, p.IsCaptured)
    (hanswer : ∀ p ∈ planned, answer (.server (.changes p.window)) =
      (Except.ok { rows := rows p.window } : Except CaptureError (Cursor ChangeRow)))
    (hsorted : ∀ p ∈ planned, (rows p.window).Pairwise fun r s => r.compareKeys s = .lt) :
    ∃ stream, CaptureStep.outcome answer (start planned) = .ok stream ∧ Begun planned rows stream := by
  obtain ⟨states, hstates, hall⟩ :=
    exists_mapM fun p hp => WindowState.exists_ofPlanned (hcaptured p hp)
  obtain ⟨hplanned, hfresh⟩ := states_of_forall₂ hall
  obtain ⟨merge, hmerge⟩ := Merge.exists_start (orderly_inputOf hsorted)
  have hinputs : CaptureStep.outcome answer (openCursors states) =
      .ok (planned.map fun p => inputOf rows p.window) := by
    rw [outcome_openCursors fun state hstate =>
      hanswer state.toPlanned (hplanned ▸ mem_map_of_mem hstate), ← hplanned, map_map]
    rfl
  refine ⟨{ merge, states }, ?_, hplanned, fun state h => (hfresh state h).1,
    fun state h => (hfresh state h).2, rfl, hmerge⟩
  refine (CaptureStep.outcome_bind_ok ((CaptureStep.outcome_ofExcept _).trans hstates)).trans ?_
  refine (CaptureStep.outcome_bind_ok hinputs).trans ?_
  exact CaptureStep.outcome_bind_ok ((CaptureStep.outcome_ofExcept _).trans hmerge)

namespace Begun

theorem length_states (h : Begun planned rows stream) : stream.states.length = planned.length := by
  rw [← h.planned_eq, length_map]

theorem windows_eq (h : Begun planned rows stream) :
    stream.states.map WindowState.window = planned.map PlannedWindow.window := by
  rw [← h.planned_eq, map_map]
  rfl

theorem opened (h : Begun planned rows stream) :
    Opened (planned.map PlannedWindow.window) (planned.map fun p => inputOf rows p.window) stream where
  windows_eq := h.windows_eq
  labels_eq := by
    rw [map_map, map_map]
    rfl
  start_eq := h.start_eq

/-- Before the first change, the windows owe what their rows stand for. -/
theorem owes_iff (h : Begun planned rows stream)
    (hgiven : ∀ (i : Nat) p, planned[i]? = some p → ofInput i given = rows p.window) :
    Owes stream.states given references ↔
      ∀ (i : Nat) p, planned[i]? = some p → Reference p (p.owned (rows p.window)) (references i) := by
  have hget (i : Nat) : planned[i]? = stream.states[i]?.map WindowState.toPlanned := by
    rw [← h.planned_eq, getElem?_map]
  have hahead {i : Nat} {state : WindowState} (hstate : stream.states[i]? = some state) :
      ahead state (ofInput i given) = state.toPlanned.owned (rows state.toPlanned.window) := by
    rw [ahead, h.fresh state (mem_of_getElem? hstate), hgiven i _ (by rw [hget, hstate, Option.map_some])]
    rfl
  constructor
  · intro howes i p hp
    obtain ⟨state, hstate, rfl⟩ := Option.map_eq_some_iff.mp ((hget i).symm.trans hp)
    rw [← hahead hstate]
    exact howes i state hstate
  · intro hreferences i state hstate
    rw [hahead hstate]
    exact hreferences i _ (by rw [hget, hstate, Option.map_some])

/-- All rows of the windows are taken in the course of draining. -/
theorem exists_gives (h : Begun planned rows stream)
    (hsorted : ∀ p ∈ planned, (rows p.window).Pairwise fun r s => r.compareKeys s = .lt) :
    ∃ given last, Gives stream.merge given last ∧ last.next = (.ok none, last) ∧
      (∀ x ∈ given, x.1 < stream.states.length) ∧
      ∀ (i : Nat) p, planned[i]? = some p → ofInput i given = rows p.window := by
  have hinputs := orderly_inputOf hsorted
  obtain ⟨last, hgives, hlast⟩ := Merge.exists_gives_drain stream.merge
  obtain ⟨pending, _, hmerge⟩ := Merge.start_eq_ok.mp h.start_eq
  have hend : stream.merge.drain.2 = none :=
    Merge.drain_failure_eq_none (by rw [hmerge]) (Merge.orderly_of_start hinputs h.start_eq)
  have hunites := Merge.unites_drain hinputs h.start_eq hend
  refine ⟨_, last, hgives, hlast hend, fun x hx => ?_, fun i p hp => ?_⟩
  · simpa [h.length_states] using hunites.input_lt x hx
  · exact hunites.ofInput_eq i (inputOf rows p.window) (by rw [getElem?_map, hp, Option.map_some])

theorem drain_of_references (h : Begun planned rows stream)
    (hsorted : ∀ p ∈ planned, (rows p.window).Pairwise fun r s => r.compareKeys s = .lt)
    {references : PlannedWindow → List (ChangeRecord .sqlserver)}
    (hreferences : ∀ p ∈ planned, Reference p (p.owned (rows p.window)) (references p)) :
    stream.drain.2.1 = none ∧ stream.drain.1 ~ planned.flatMap references ∧
      stream.drain.2.2.superseded =
        (planned.flatMap fun p => (rows p.window).filter fun row => !p.window.owns row.startLsn).length := by
  obtain ⟨given, last, hgives, hlast, hlt, hgiven⟩ := h.exists_gives hsorted
  have howes : Owes stream.states given fun i => planned[i]?.elim [] references :=
    (h.owes_iff hgiven).mpr fun i p hp => by simpa [hp] using hreferences p (mem_of_getElem? hp)
  obtain ⟨hend, hperm, hcount⟩ := drain_of_owes hgives hlast rfl hlt h.sound howes
  refine ⟨hend, ?_, ?_⟩
  · rw [h.length_states, flatMap_range (g := references) fun i p hp => by rw [hp]; rfl] at hperm
    exact hperm
  · rw [hcount, h.superseded_eq, Nat.zero_add, h.windows_eq, dropped, length_map]
    rw [flatMap_range fun i p hp => ?_]
    rw [getElem?_map, hp, hgiven i p hp]
    simp

theorem exists_references (h : Begun planned rows stream)
    (hsorted : ∀ p ∈ planned, (rows p.window).Pairwise fun r s => r.compareKeys s = .lt)
    (hend : stream.drain.2.1 = none) :
    ∀ p ∈ planned, ∃ records, Reference p (p.owned (rows p.window)) records := by
  obtain ⟨given, last, hgives, hlast, hlt, hgiven⟩ := h.exists_gives hsorted
  obtain ⟨references, howes⟩ := exists_owes_of_drain hgives hlast rfl hlt h.sound hend
  intro p hp
  obtain ⟨i, hi⟩ := mem_iff_getElem?.mp hp
  exact ⟨references i, (h.owes_iff hgiven).mp howes i p hi⟩

end Begun

/-! ## Draining -/

/-- Windows with different labels can be read if their schemas name captured columns only, their cursors
do not fail and yield rows in strict order. If the rows of every window below its cutoff stand for
changes, the stream yields these in the order of their offsets, and drops the other rows. It fails exactly
if one of those rows has a fault. -/
theorem drains_exactly (hlabels : (planned.map fun p => p.window.label).Nodup)
    (hcaptured : ∀ p ∈ planned, p.IsCaptured)
    (hanswer : ∀ p ∈ planned, answer (.server (.changes p.window)) =
      (Except.ok { rows := rows p.window } : Except CaptureError (Cursor ChangeRow)))
    (hsorted : ∀ p ∈ planned, (rows p.window).Pairwise fun r s => r.compareKeys s = .lt) :
    ∃ stream, CaptureStep.outcome answer (start planned) = .ok stream ∧
      (∀ references : PlannedWindow → List (ChangeRecord .sqlserver),
        (∀ p ∈ planned, Reference p (p.owned (rows p.window)) (references p)) →
        stream.drain.2.1 = none ∧ stream.drain.1 ~ planned.flatMap references ∧
          (stream.drain.1.map ChangeRecord.offset).Pairwise (fun o p => compare o p = .lt) ∧
          stream.drain.2.2.superseded =
            (planned.flatMap fun p =>
              (rows p.window).filter fun row => !p.window.owns row.startLsn).length) ∧
      (stream.drain.2.1.isSome ↔
        ∃ p ∈ planned, ∃ row ∈ p.owned (rows p.window), Faulty p (p.owned (rows p.window)) row) := by
  obtain ⟨stream, houtcome, hbegun⟩ := exists_begun hcaptured hanswer hsorted
  refine ⟨stream, houtcome, fun references hreferences => ?_, ?_, ?_⟩
  · obtain ⟨hend, hperm, hcount⟩ := hbegun.drain_of_references hsorted hreferences
    exact ⟨hend, hperm, hbegun.opened.ascending (by rwa [map_map]), hcount⟩
  · intro hfailed
    by_contra hfine
    have hexists : ∀ p ∈ planned, ∃ records, Reference p (p.owned (rows p.window)) records :=
      fun p hp => Reference.exists_of_not_faulty ((hsorted p hp).filter _) fun row hrow hfault =>
        hfine ⟨p, hp, row, hrow, hfault⟩
    choose! references hreferences using hexists
    have hend := (hbegun.drain_of_references hsorted hreferences).1
    simp [hend] at hfailed
  · rintro ⟨p, hp, row, hrow, hfault⟩
    by_contra hfailed
    obtain ⟨records, hrecords⟩ := hbegun.exists_references hsorted (by simpa using hfailed) p hp
    exact hrecords.not_faulty row hrow hfault

namespace SampleStream

/-- A window of a table whose columns are captured in another order. -/
def windowOn (table : String) (until? : Option Lsn) : PlannedWindow where
  window :=
    { source :=
        { table := { database := "shop", schema := "dbo", table }, name := table, objectId := 0
          startLsn := .ofNat 1, stopLsn := .null, capturedColumns := ["id", "name"] }
      first := .ofNat 1, last := .ofNat 40, until? }
  schema :=
    { id := { database := "shop", schema := "dbo", table }
      columns :=
        [{ name := "name", position := 2, typeName := "text" },
          { name := "id", position := 1, typeName := "int" }] }

def rowAt (position : Nat) (operation : UInt8) (id : Int) (name : String) : ChangeRow :=
  { startLsn := .ofNat position, seqval := .ofNat 1, operation
    values := [some (.integer id), some (.text name)] }

/-- An order was renamed before its instance was superseded, and a customer renamed between. -/
def rowsOf (window : SourceWindow) : List ChangeRow :=
  if window.source.name = "orders" then [rowAt 5 3 1 "a", rowAt 5 4 1 "b", rowAt 25 2 2 "c"]
  else [rowAt 5 4 7 "d", rowAt 6 1 7 "d"]

/-- A server whose cursors read some rows. Nothing else can be had from it. -/
def serving (rows : SourceWindow → List ChangeRow) : (r : CaptureRequest) → r.Answer
  | .server (.changes window) =>
      (Except.ok { rows := rows window } : Except CaptureError (Cursor ChangeRow))
  | .server (.listInstances) | .server (.listNewInstances ..) | .server (.tableColumns _)
  | .server (.keyColumns _) | .server (.minLsn _) | .server .maxLsn | .server .maxTransactionLsn
  | .server (.nthTransactionLsn ..) | .server (.incrementLsn _) | .server (.snapshotRows ..)
  | .server (.unlockTable _) | .storage (.loadOffset _) | .storage (.readProgress _)
  | .storage (.saveOffset ..) | .storage (.writeProgress ..) | .deliver _ =>
      Except.error (.config "out of reach")
  | .lockTable .. => LockAnswer.expired
  | .isActive => true
  | .now => (0 : Int)

def orders : PlannedWindow := windowOn "orders" (some (.ofNat 20))

def customers : PlannedWindow := windowOn "customers" none

/-- A row before a change without the row after it. -/
def orphanedRows (window : SourceWindow) : List ChangeRow :=
  (rowsOf window).filter fun row => row.operation != 4

def changesOf (planned : PlannedWindow) : List (ChangeRecord .sqlserver) :=
  if planned.window.source.name = "orders" then
    [planned.change .update (rowAt 5 4 1 "b") [some (.text "a"), some (.integer 1)]
      [some (.text "b"), some (.integer 1)]]
  else
    [planned.change .update (rowAt 5 4 7 "d") [none, none] [some (.text "d"), some (.integer 7)],
      planned.change .delete (rowAt 6 1 7 "d") [some (.text "d"), some (.integer 7)] []]

theorem reference_of_mem :
    ∀ p ∈ [orders, customers], Reference p (p.owned (rowsOf p.window)) (changesOf p) := by
  simp only [forall_mem_cons]
  exact ⟨.update rfl rfl rfl rfl rfl rfl .nil, .unpaired rfl rfl (.delete rfl rfl .nil), by simp⟩

theorem serving_changes (rows : SourceWindow → List ChangeRow) (p : PlannedWindow) :
    serving rows (.server (.changes p.window)) =
      (Except.ok { rows := rows p.window } : Except CaptureError (Cursor ChangeRow)) := rfl

theorem isCaptured_of_mem : ∀ p ∈ [orders, customers], p.IsCaptured := by
  unfold PlannedWindow.IsCaptured
  decide

end SampleStream

open SampleStream in
theorem drains_exactly_of_sample :
    (∃ stream, CaptureStep.outcome (serving rowsOf) (start [orders, customers]) = .ok stream ∧
      stream.drain.2.1 = none ∧ stream.drain.1 ~ changesOf orders ++ changesOf customers ∧
      stream.drain.2.2.superseded = 1) ∧
    ∃ stream, CaptureStep.outcome (serving orphanedRows) (start [orders, customers]) = .ok stream ∧
      stream.drain.2.1.isSome := by
  have hlabels : ([orders, customers].map fun p => p.window.label).Nodup := by decide
  constructor
  · obtain ⟨stream, houtcome, hexact, _⟩ := drains_exactly hlabels isCaptured_of_mem
      (fun p _ => serving_changes rowsOf p) (by decide)
    obtain ⟨hend, hperm, _, hcount⟩ := hexact changesOf reference_of_mem
    exact ⟨stream, houtcome, hend, by simpa using hperm, hcount⟩
  · obtain ⟨stream, houtcome, _, hfails⟩ := drains_exactly hlabels isCaptured_of_mem
      (fun p _ => serving_changes orphanedRows p) (by decide)
    refine ⟨stream, houtcome, hfails.mpr ⟨orders, by simp, rowAt 5 3 1 "a", by decide, ?_⟩⟩
    exact .orphan rfl (by decide)

end ChangeCapture.ChangeStream
