import ChangeCapture.Proofs.Planning
import ChangeCapture.Proofs.Stream.Opening

/-! # The changes of an interval -/

namespace ChangeCapture

open List
open Program (Ends)

/-! ## Changes -/

/-- A row that an instance owns completes the change of an offset. -/
def HasChange (sources : List CaptureInstance) (server : CapturedServer) (o : Offset .sqlserver) :
    Prop :=
  ∃ (source : CaptureInstance) (row : ChangeRow), Planner.Owns sources source row.startLsn ∧
    row ∈ server.changes source.name ∧ row.Completes ∧ row.offset source.label = o

/-- Up to what was said to be captured there are no new changes. -/
theorem CapturedServer.Extends.hasChange {server later : CapturedServer} (h : server.Extends later)
    {sources : List CaptureInstance} {o : Offset .sqlserver} (ho : o.position ≤ server.reported) :
    HasChange sources later o ↔ HasChange sources server o := by
  constructor
  · rintro ⟨source, row, howns, hrow, hcompletes, rfl⟩
    exact ⟨source, row, howns, (h.same _ row ho).mp hrow, hcompletes, rfl⟩
  · rintro ⟨source, row, howns, hrow, hcompletes, rfl⟩
    exact ⟨source, row, howns, (h.same _ row ho).mpr hrow, hcompletes, rfl⟩

/-! ## Streams of intervals -/

/-- The windows of an interval were planned, their schemas found out and their stream opened. -/
inductive OpensInterval (rules : Rules) (sources : List CaptureInstance) (first last : Lsn)
    (w : World) (stream : ChangeStream) (w' : World) : Prop where
  | intro {windows planned v v'}
      (hplan : Ends rules.answers (Planner.plan sources first last).run w (.ok windows) v)
      (hresolve : Ends rules.answers (Streamer.resolveWindows windows).run v (.ok planned) v')
      (hstart : Ends rules.answers (ChangeStream.start planned).run v' (.ok stream) w')

/-- The planner and the stream assign a change to its position: it is yielded when that position alone is
read and the server does not change. -/
def Assigns (sources : List CaptureInstance) (w : World) (record : ChangeRecord .sqlserver) : Prop :=
  ∃ stream w', OpensInterval .still sources record.position record.position w stream w' ∧
    record ∈ stream.drain.1

namespace OpensInterval

variable {rules : Rules} {sources : List CaptureInstance} {first last : Lsn} {w w' : World}
  {stream : ChangeStream}

theorem extends_server (hrules : rules.Lawful) (h : OpensInterval rules sources first last w stream w') :
    w.server.Extends w'.server := by
  obtain ⟨hplan, hresolve, hstart⟩ := h
  exact ((hrules.extends_of_leads hplan).trans (hrules.extends_of_leads hresolve)).trans
    (hrules.extends_of_leads hstart)

/-- Whatever the server answers, the changes are in strictly ascending order. -/
theorem ascending (h : OpensInterval rules sources first last w stream w')
    (hplain : ∀ ci ∈ sources, ci.IsPlain) (hnames : (sources.map CaptureInstance.name).Nodup) :
    (stream.drain.1.map ChangeRecord.offset).Pairwise fun o p => compare o p = .lt := by
  obtain ⟨hplan, hresolve, hstart⟩ := h
  obtain ⟨states, inputs, _, _, hopened⟩ := ChangeStream.ends_start hstart
  rw [Streamer.ends_resolveWindows hresolve] at hopened
  exact hopened.ascending (Planner.nodup_labels_of_ends_plan hplain hnames hplan)

/-- The stream of a lawful server reads the rows of the windows. -/
theorem reads (hrules : rules.Lawful) (h : OpensInterval rules sources first last w stream w')
    (hlast : last ≤ w.server.reported) :
    ∃ windows inputs, Opened windows inputs stream ∧
      (∃ v, Ends rules.answers (Planner.plan sources first last).run w (.ok windows) v) ∧
      ∀ (i : Nat) (window : SourceWindow) (input : MergeInput ChangeRow),
        windows[i]? = some window → inputs[i]? = some input →
          input.cursor.Reads (w.server.windowRows window) := by
  obtain ⟨hplan, hresolve, hstart⟩ := h
  obtain ⟨states, inputs, hcursors, hstates, hopened⟩ := ChangeStream.ends_start hstart
  rw [Streamer.ends_resolveWindows hresolve] at hopened hstates
  refine ⟨_, inputs, hopened, ⟨_, hplan⟩, fun i window input hwindow hinput => ?_⟩
  rw [← hstates, getElem?_map, Option.map_eq_some_iff] at hwindow
  obtain ⟨state, hstate, rfl⟩ := hwindow
  have hmem := mem_map_of_mem (f := WindowState.window) (mem_of_getElem? hstate)
  have hstatelast : state.window.last = last :=
    (Planner.isWindow_of_ends_plan hplan _ (hstates ▸ hmem)).last_eq
  have hextends := (hrules.extends_of_leads hplan).trans (hrules.extends_of_leads hresolve)
  rw [← hextends.windowRows_eq (hstatelast ▸ hlast)]
  exact ChangeStream.reads_of_ends_openCursors hrules hcursors hstate hinput
    (hstatelast ▸ hlast.trans hextends.reported)

/-- Every change comes from a row of a window. -/
theorem exists_row (hrules : rules.Lawful) (h : OpensInterval rules sources first last w stream w')
    (hlast : last ≤ w.server.reported) {record : ChangeRecord .sqlserver}
    (hrecord : record ∈ stream.drain.1) :
    ∃ (window : SourceWindow) (row : ChangeRow), Planner.IsWindow sources first last window ∧
      row ∈ w.server.windowRows window ∧ window.owns row.startLsn ∧ row.Completes ∧
      record.offset = row.offset window.label := by
  obtain ⟨windows, inputs, hopened, ⟨v, hplan⟩, hreads⟩ := h.reads hrules hlast
  obtain ⟨i, window, input, row, hwindow, hinput, hrow, howns, hcompletes, hoffset⟩ :=
    hopened.exists_row hrecord
  exact ⟨window, row, Planner.isWindow_of_ends_plan hplan window (mem_of_getElem? hwindow),
    (hreads i window input hwindow hinput).isPrefix.subset hrow, howns, hcompletes, hoffset⟩

theorem position_le (hrules : rules.Lawful) (h : OpensInterval rules sources first last w stream w')
    (hlast : last ≤ w.server.reported) {record : ChangeRecord .sqlserver}
    (hrecord : record ∈ stream.drain.1) : record.position ≤ last := by
  obtain ⟨window, row, hwindow, hrow, _, _, hoffset⟩ := h.exists_row hrules hlast hrecord
  rw [show record.position = row.startLsn from congrArg Offset.position hoffset, ← hwindow.last_eq]
  exact (CapturedServer.mem_windowRows.mp hrow).2.2

/-- Every change lies at the start of the interval or behind it and comes from one of the instances. -/
theorem le_position (hrules : rules.Lawful) (h : OpensInterval rules sources first last w stream w')
    (hlast : last ≤ w.server.reported) {record : ChangeRecord .sqlserver}
    (hrecord : record ∈ stream.drain.1) :
    first ≤ record.position ∧ ∃ source ∈ sources, record.offset.origin = source.label := by
  obtain ⟨window, row, hwindow, hrow, _, _, hoffset⟩ := h.exists_row hrules hlast hrecord
  refine ⟨?_, window.source, hwindow.mem, congrArg Offset.origin hoffset⟩
  rw [show record.position = row.startLsn from congrArg Offset.position hoffset]
  exact ((le_max_right _ _).trans hwindow.lower).trans (CapturedServer.mem_windowRows.mp hrow).2.1

/-- Every change in the interval is yielded, or a failure comes before it. -/
theorem covers (hrules : rules.Lawful) (h : OpensInterval rules sources first last w stream w')
    (hplain : ∀ ci ∈ sources, ci.IsPlain) (hnames : (sources.map CaptureInstance.name).Nodup)
    (hlast : last ≤ w.server.reported) {o : Offset .sqlserver} (ho : HasChange sources w.server o)
    (hfirst : first ≤ o.position) (holast : o.position ≤ last) :
    o ∈ stream.drain.1.map ChangeRecord.offset ∨ stream.drain.2.1.isSome ∧
      ∀ record ∈ stream.drain.1, compare record.offset o = .lt := by
  obtain ⟨windows, inputs, hopened, ⟨v, hplan⟩, hreads⟩ := h.reads hrules hlast
  obtain ⟨source, row, howns, hrow, hcompletes, rfl⟩ := ho
  obtain ⟨window, hwindow, rfl, hlower, hcurrent⟩ :=
    Planner.exists_window_of_ends_plan hrules hplan hrow (holast.trans hlast) howns hfirst holast
  have hwindowlast := (Planner.isWindow_of_ends_plan hplan window hwindow).last_eq
  refine hopened.covers (Planner.nodup_labels_of_ends_plan hplain hnames hplan)
    w.server.ascending_windowRows hreads hwindow ?_ hcurrent hcompletes
  exact CapturedServer.mem_windowRows.mpr ⟨hrow, hlower, hwindowlast ▸ holast⟩

end OpensInterval

/-- What is assigned to a position is a change there. -/
theorem Assigns.hasChange {sources : List CaptureInstance} {w : World}
    {record : ChangeRecord .sqlserver} (h : Assigns sources w record)
    (hreported : record.position ≤ w.server.reported) : HasChange sources w.server record.offset := by
  obtain ⟨stream, w', hopens, hrecord⟩ := h
  obtain ⟨window, row, hwindow, hrow, howns, hcompletes, hoffset⟩ :=
    hopens.exists_row Rules.lawful_still hreported hrecord
  obtain ⟨hmem, hfirst, hlast⟩ := CapturedServer.mem_windowRows.mp hrow
  have hposition : record.position = row.startLsn := congrArg Offset.position hoffset
  have hlower : window.source.startLsn ≤ row.startLsn :=
    (le_max_left _ _).trans (hwindow.lower.trans hfirst)
  refine ⟨window.source, row, ⟨hwindow.mem, hlower, hposition ▸ hwindow.live, ?_⟩, hmem, hcompletes,
    hoffset.symm⟩
  intro cutoff hcut
  unfold SourceWindow.owns at howns
  rw [hwindow.until_eq, hcut] at howns
  simpa using howns

end ChangeCapture
