import ChangeCapture.Proofs.Growth
import ChangeCapture.Proofs.Stream.Order
import ChangeCapture.Streaming.Streamer

/-! # Opening the stream of an interval -/

namespace ChangeCapture

open List CaptureStep
open Program (Ends)

variable {rules : Rules} {w w' : World}

/-! ## Schemas -/

namespace Streamer

theorem ends_resolveWindows {windows : List SourceWindow} {planned : List PlannedWindow}
    (h : Ends rules.answers (resolveWindows windows).run w (.ok planned) w') :
    planned.map PlannedWindow.window = windows := by
  unfold resolveWindows at h
  induction windows generalizing planned w with
  | nil =>
      rw [mapM_nil] at h
      rw [Except.ok.inj (ends_pure.mp h).1]
      rfl
  | cons window windows ih =>
      rw [mapM_cons] at h
      obtain ⟨first, v, hfirst, h⟩ := ends_bind_ok.mp h
      obtain ⟨rest, v', hrest, h⟩ := ends_bind_ok.mp h
      obtain ⟨schema, u, _, hfirst⟩ := ends_bind_ok.mp hfirst
      obtain ⟨hplanned, rfl⟩ := ends_pure.mp h
      rw [Except.ok.inj hplanned, Except.ok.inj (ends_pure.mp hfirst).1, map_cons, ih hrest]

theorem quiet_resolveSchema (source : CaptureInstance) : (Registry.resolveSchema source).IsQuiet :=
  quiet_bind (x := Server.tableColumns source.table) (quiet_server _) fun _ =>
    quiet_bind (x := Server.keyColumns source.table) (quiet_server _) fun _ => quiet_pure _

theorem quiet_resolveWindows (windows : List SourceWindow) : (resolveWindows windows).IsQuiet :=
  quiet_mapM (fun _ => quiet_bind (quiet_resolveSchema _) fun _ => quiet_pure _) windows

end Streamer

/-! ## Cursors -/

namespace ChangeStream

theorem ends_openCursors {states : List WindowState} {inputs : List (MergeInput ChangeRow)}
    (h : Ends rules.answers (openCursors states).run w (.ok inputs) w') :
    inputs.map MergeInput.label = states.map fun state => state.window.label := by
  induction states generalizing inputs w with
  | nil =>
      rw [Except.ok.inj (ends_pure.mp h).1]
      rfl
  | cons state states ih =>
      obtain ⟨cursor, v, _, h⟩ := ends_bind_ok.mp h
      obtain ⟨rest, v', hrest, h⟩ := ends_bind_ok.mp h
      obtain ⟨hinputs, rfl⟩ := ends_pure.mp h
      rw [Except.ok.inj hinputs, map_cons, map_cons, ih hrest]

/-- The cursors of a lawful server read the rows of their windows. -/
theorem reads_of_ends_openCursors (hrules : rules.Lawful) {states : List WindowState}
    {inputs : List (MergeInput ChangeRow)}
    (h : Ends rules.answers (openCursors states).run w (.ok inputs) w') {i : Nat}
    {state : WindowState} {input : MergeInput ChangeRow} (hstate : states[i]? = some state)
    (hinput : inputs[i]? = some input) (hlast : state.window.last ≤ w.server.reported) :
    input.cursor.Reads (w.server.windowRows state.window) := by
  induction states generalizing inputs w i with
  | nil => cases hstate
  | cons head states ih =>
      obtain ⟨cursor, v, hcursor, h⟩ := ends_bind_ok.mp h
      obtain ⟨rest, v', hrest, h⟩ := ends_bind_ok.mp h
      obtain ⟨hinputs, rfl⟩ := ends_pure.mp h
      cases Except.ok.inj hinputs
      have hask := ends_request.mp (ends_mapError_ok.mp hcursor)
      cases i with
      | zero =>
          cases hstate
          cases hinput
          obtain ⟨server, hdrift, hserves, _⟩ := hask
          obtain ⟨hreads, hcomplete⟩ := hrules.serves hserves cursor rfl
          rw [(hrules.drifts hdrift).windowRows_eq hlast] at hreads hcomplete
          exact ⟨hreads, hcomplete⟩
      | succ i =>
          have hextends := hrules.extends hask
          rw [← hextends.windowRows_eq hlast]
          exact ih hrest hstate hinput (hlast.trans hextends.reported)

theorem quiet_openCursors (states : List WindowState) : (openCursors states).IsQuiet := by
  induction states with
  | nil => exact quiet_pure _
  | cons state states ih =>
      exact quiet_bind (quiet_mapError (x := Server.changes state.window) (quiet_server _) _) fun _ =>
        quiet_bind ih fun _ => quiet_pure _

/-! ## Streams -/

theorem window_of_ofPlanned {planned : PlannedWindow} {state : WindowState}
    (h : WindowState.ofPlanned planned = .ok state) : state.window = planned.window := by
  unfold WindowState.ofPlanned at h
  cases hindex : planned.schema.columns.mapM (WindowState.capturedIndex planned) with
  | error e =>
      rw [hindex] at h
      cases h
  | ok projection =>
      rw [hindex] at h
      cases h
      rfl

theorem window_of_mapM_ofPlanned {planned : List PlannedWindow} {states : List WindowState}
    (h : planned.mapM WindowState.ofPlanned = .ok states) :
    states.map WindowState.window = planned.map PlannedWindow.window := by
  induction planned generalizing states with
  | nil =>
      cases h
      rfl
  | cons head planned ih =>
      rw [mapM_cons] at h
      cases hhead : WindowState.ofPlanned head with
      | error e =>
          rw [hhead] at h
          cases h
      | ok state =>
          cases hrest : planned.mapM WindowState.ofPlanned with
          | error e =>
              rw [hhead, hrest] at h
              cases h
          | ok rest =>
              rw [hhead, hrest] at h
              cases h
              rw [map_cons, map_cons, ih hrest, window_of_ofPlanned hhead]

/-- The stream of some windows begins with the inputs of their cursors. -/
theorem ends_start {planned : List PlannedWindow} {stream : ChangeStream}
    (h : Ends rules.answers (start planned).run w (.ok stream) w') :
    ∃ states inputs, Ends rules.answers (openCursors states).run w (.ok inputs) w' ∧
      states.map WindowState.window = planned.map PlannedWindow.window ∧
      Opened (planned.map PlannedWindow.window) inputs stream := by
  unfold start at h
  obtain ⟨states, v, hmapM, hopen⟩ := ends_bind_ok.mp h
  obtain ⟨hstates, rfl⟩ := ends_ofExcept.mp hmapM
  obtain ⟨inputs, v', hinputs, hmerging⟩ := ends_bind_ok.mp hopen
  obtain ⟨merge, v'', hstart, hdone⟩ := ends_bind_ok.mp hmerging
  obtain ⟨hmerge, rfl⟩ := ends_ofExcept.mp hstart
  obtain ⟨hstream, rfl⟩ := ends_pure.mp hdone
  have hwindows := window_of_mapM_ofPlanned hstates.symm
  cases Except.ok.inj hstream
  refine ⟨states, inputs, hinputs, hwindows, hwindows, ?_, hmerge.symm⟩
  rw [ends_openCursors hinputs, ← hwindows, map_map]
  rfl

theorem quiet_start (planned : List PlannedWindow) : (start planned).IsQuiet :=
  quiet_bind (quiet_ofExcept _) fun states => quiet_bind (quiet_openCursors states) fun _ =>
    quiet_bind (quiet_ofExcept _) fun _ => quiet_pure _

end ChangeStream

end ChangeCapture
