import ChangeCapture.Proofs.Order
import ChangeCapture.Proofs.Stream.Draining

/-! # What a stream yields

Whatever the cursors of some windows do, the offsets of the changes are strictly ascending. If the
cursors read rows in order, every change of a row is yielded, or a failure comes before it. -/

namespace ChangeCapture

open List

/-- The stream over the inputs of some windows before its first change. -/
structure Opened (windows : List SourceWindow) (inputs : List (MergeInput ChangeRow))
    (stream : ChangeStream) : Prop where
  windows_eq : stream.states.map WindowState.window = windows
  labels_eq : inputs.map MergeInput.label = windows.map SourceWindow.label
  start_eq : Merge.start inputs = .ok stream.merge

/-- Inputs with different labels give rows in the order of their offsets. -/
theorem compare_givenOffset {labels : List String} (hdistinct : labels.Nodup) {x y : Nat × ChangeRow}
    (hx : x.1 < labels.length) (hy : y.1 < labels.length)
    (h : Merge.compareGiven labels x y = .lt) :
    compare (Assembles.givenOffset labels x) (Assembles.givenOffset labels y) = .lt :=
  Merge.lt_of_distinct_labels hdistinct hx hy h

namespace Opened

variable {windows : List SourceWindow} {inputs : List (MergeInput ChangeRow)} {stream : ChangeStream}

theorem merge_labels (h : Opened windows inputs stream) :
    stream.merge.labels = windows.map SourceWindow.label := by
  obtain ⟨pending, _, hmerge⟩ := Merge.start_eq_ok.mp h.start_eq
  rw [hmerge, h.labels_eq]

theorem length_inputs (h : Opened windows inputs stream) : inputs.length = windows.length := by
  simpa using congrArg List.length h.labels_eq

theorem length_states (h : Opened windows inputs stream) :
    stream.states.length = windows.length := by
  simpa using congrArg List.length h.windows_eq

theorem exists_input (h : Opened windows inputs stream) {x : Nat × ChangeRow}
    (hx : x ∈ stream.merge.drain.1) :
    ∃ input, inputs[x.1]? = some input ∧ x.2 ∈ input.cursor.rows :=
  Merge.mem_of_mem_drain (Merge.drawn_start h.start_eq) x hx

theorem input_lt (h : Opened windows inputs stream) {x : Nat × ChangeRow}
    (hx : x ∈ stream.merge.drain.1) : x.1 < windows.length := by
  obtain ⟨input, hget, _⟩ := h.exists_input hx
  exact h.length_inputs ▸ (List.getElem?_eq_some_iff.mp hget).1

theorem assembles (h : Opened windows inputs stream) :
    ∃ failure,
      Assembles (windows.map SourceWindow.label) stream.states stream.merge.drain.1 stream.drain.1
        failure ∧
      (failure.isSome ∨ stream.merge.drain.2.isSome → stream.drain.2.1.isSome) := by
  rw [← h.merge_labels]
  exact stream.assembles_drain fun x hx => h.length_states ▸ h.input_lt hx

theorem given_ascending (h : Opened windows inputs stream)
    (hdistinct : (windows.map SourceWindow.label).Nodup) :
    stream.merge.drain.1.Pairwise fun x y =>
      compare (Assembles.givenOffset (windows.map SourceWindow.label) x)
        (Assembles.givenOffset (windows.map SourceWindow.label) y) = .lt := by
  have hsorted := (Merge.sound_start h.start_eq).drain_ascending
  rw [h.merge_labels] at hsorted
  refine hsorted.imp_of_mem fun hx hy hlt => compare_givenOffset hdistinct ?_ ?_ hlt
  · simpa using h.input_lt hx
  · simpa using h.input_lt hy

/-- The offsets of the changes are strictly ascending. -/
theorem ascending (h : Opened windows inputs stream)
    (hdistinct : (windows.map SourceWindow.label).Nodup) :
    (stream.drain.1.map ChangeRecord.offset).Pairwise fun o p => compare o p = .lt := by
  obtain ⟨failure, hassembles, _⟩ := h.assembles
  have hgiven : (stream.merge.drain.1.map
      (Assembles.givenOffset (windows.map SourceWindow.label))).Pairwise
        fun o p => compare o p = .lt := pairwise_map.mpr (h.given_ascending hdistinct)
  exact hgiven.sublist (hassembles.sublist (by rw [h.windows_eq]))

/-- Every change comes from a row that its window owns. -/
theorem exists_row (h : Opened windows inputs stream) {record : ChangeRecord .sqlserver}
    (hrecord : record ∈ stream.drain.1) :
    ∃ (i : Nat) (window : SourceWindow) (input : MergeInput ChangeRow) (row : ChangeRow),
      windows[i]? = some window ∧ inputs[i]? = some input ∧ row ∈ input.cursor.rows ∧
      window.owns row.startLsn ∧ row.Completes ∧ record.offset = row.offset window.label := by
  obtain ⟨failure, hassembles, _⟩ := h.assembles
  obtain ⟨⟨i, row⟩, hx, window, hwindow, howns, hcompletes, hoffset⟩ :=
    hassembles.exists_row record hrecord
  obtain ⟨input, hget, hrow⟩ := h.exists_input hx
  rw [h.windows_eq] at hwindow
  exact ⟨i, window, input, row, hwindow, hget, hrow, howns, hcompletes, hoffset⟩

/-- The change of a row is yielded, or a failure comes before it. -/
theorem covers (h : Opened windows inputs stream)
    (hdistinct : (windows.map SourceWindow.label).Nodup) {rows : SourceWindow → List ChangeRow}
    (hsorted : ∀ window, (rows window).Pairwise fun r s => r.compareKeys s = .lt)
    (hreads : ∀ (i : Nat) window (input : MergeInput ChangeRow), windows[i]? = some window →
      inputs[i]? = some input → input.cursor.Reads (rows window))
    {window : SourceWindow} (hwindow : window ∈ windows) {row : ChangeRow}
    (hrow : row ∈ rows window) (howns : window.owns row.startLsn) (hcompletes : row.Completes) :
    row.offset window.label ∈ stream.drain.1.map ChangeRecord.offset ∨
      stream.drain.2.1.isSome ∧
        ∀ record ∈ stream.drain.1, compare record.offset (row.offset window.label) = .lt := by
  obtain ⟨failure, hassembles, hfailure⟩ := h.assembles
  obtain ⟨i, hi, rfl⟩ := mem_iff_getElem.mp hwindow
  have hget : windows[i]? = some windows[i] := getElem?_eq_getElem hi
  have hlabel : row.offset windows[i].label =
      Assembles.givenOffset (windows.map SourceWindow.label) (i, row) := by
    simp [Assembles.givenOffset, hi]
  let full (j : Nat) : List ChangeRow := (windows[j]?.map rows).getD []
  have hrow : row ∈ full i := by simpa [full, hi] using hrow
  have hcovers := Merge.drain_covers h.start_eq (fun j => ?_) (fun j input hinput => ?_)
    (h.length_inputs ▸ hi) hrow
  · rcases hcovers with hgiven | ⟨hfailed, hbefore⟩
    · rcases hassembles.covers (by rw [h.windows_eq]) (h.given_ascending hdistinct) hgiven
        (h.windows_eq ▸ hget) howns hcompletes with hmem | ⟨hfailed, hbefore⟩
      · exact .inl hmem
      · exact .inr ⟨hfailure (.inl hfailed), hbefore⟩
    · refine .inr ⟨hfailure (.inr hfailed), fun record hrecord => ?_⟩
      have hmem := (hassembles.sublist (by rw [h.windows_eq])).subset (mem_map_of_mem hrecord)
      obtain ⟨x, hx, hoffset⟩ := mem_map.mp hmem
      rw [← hoffset, hlabel]
      refine compare_givenOffset hdistinct (by simpa using h.input_lt hx) (by simpa using hi) ?_
      rw [← h.merge_labels]
      exact hbefore x hx
  · cases hj : windows[j]? with
    | none => simp [full, hj]
    | some window =>
        have hfull : full j = rows window := by simp [full, hj]
        rw [hfull]
        exact hsorted window
  · have hj : j < windows.length := h.length_inputs ▸ (List.getElem?_eq_some_iff.mp hinput).1
    have := hreads j windows[j] input (getElem?_eq_getElem hj) hinput
    simpa [full, hj] using this

end Opened

end ChangeCapture
