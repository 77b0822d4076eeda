import ChangeCapture.Capture.ChangeStream
import ChangeCapture.Proofs.Merge.Completeness

/-! # The order of the changes of an interval

The changes that a stream yields are those that the rows of its merge complete, one by one and in the
order of the rows. -/

namespace ChangeCapture

open List

/-! ## Offsets of rows -/

namespace ChangeRow

/-- The offset of the change that a row of a source stands for. -/
def offset (row : ChangeRow) (origin : String) : Offset .sqlserver :=
  { position := row.startLsn, sequence := Sequence.ofLsn row.seqval, op := row.operation, origin }

/-- The row completes a change: it is no row before one. -/
def Completes (row : ChangeRow) : Prop :=
  ∃ operation, RowOperation.ofCode? row.operation = some operation ∧ operation ≠ .updateBefore

end ChangeRow

theorem RowOperation.code_of_ofCode? {code : UInt8} {operation : RowOperation}
    (h : RowOperation.ofCode? code = some operation) : operation.code = code := by
  unfold RowOperation.ofCode? at h
  repeat' split at h
  all_goals cases h <;> simp_all [RowOperation.code]

/-! ## Single rows -/

namespace RowAssembly

theorem assemble_window (state : WindowState) (label : String) (row : ChangeRow) :
    (assemble state label row).2.window = state.window := by
  unfold assemble
  repeat' split
  all_goals rfl

theorem offset_record (state : WindowState) {operation : RowOperation} {row : ChangeRow}
    (old new : Row) (h : RowOperation.ofCode? row.operation = some operation) :
    (state.record operation row old new).offset = row.offset state.window.label := by
  unfold ChangeRecord.offset WindowState.record ChangeRow.offset
  rw [RowOperation.code_of_ofCode? h]
  rfl

/-- A row that completes a change gives its offset to the record. -/
theorem assemble_eq_some {state state' : WindowState} {label : String} {row : ChangeRow}
    {record : ChangeRecord .sqlserver} (h : assemble state label row = (.ok (some record), state')) :
    record.offset = row.offset state.window.label ∧ row.Completes := by
  unfold assemble at h
  cases hop : RowOperation.ofCode? row.operation with
  | none =>
      rw [hop] at h
      cases h
  | some operation =>
      rw [hop] at h
      cases operation with
      | updateAfter =>
          cases hp : state.project row with
          | error e =>
              rw [hp] at h
              cases h
          | ok new =>
              cases ho : oldValues state label row with
              | error e =>
                  simp only [hp, ho] at h
                  cases h
              | ok old =>
                  simp only [hp, ho] at h
                  cases h
                  exact ⟨offset_record state old new hop, _, hop, by simp⟩
      | delete | insert =>
          cases hb : state.before <;> cases hp : state.project row <;> simp only [hb, hp] at h <;>
            cases h
          exact ⟨offset_record state _ _ hop, _, hop, by simp⟩
      | updateBefore =>
          cases hb : state.before <;> simp only [hb] at h <;> cases h

/-- A row that is held back completes no change. -/
theorem not_completes_of_assemble {state state' : WindowState} {label : String} {row : ChangeRow}
    (h : assemble state label row = (.ok none, state')) : ¬ row.Completes := by
  rintro ⟨operation, hop, hne⟩
  unfold assemble at h
  rw [hop] at h
  cases operation with
  | updateBefore => exact hne rfl
  | updateAfter =>
      cases hp : state.project row <;> cases ho : oldValues state label row <;>
        simp only [hp, ho] at h <;> cases h
  | delete | insert =>
      cases hb : state.before <;> cases hp : state.project row <;> simp only [hb, hp] at h <;>
        cases h

end RowAssembly

/-! ## Rows in their order -/

/-- How the states of some windows take the rows of a merge: the changes that the rows complete, and the
first row that cannot be used as a failure. -/
inductive Assembles (labels : List String) : List WindowState → List (Nat × ChangeRow) →
    List (ChangeRecord .sqlserver) → Option CaptureError → Prop where
  | nil (states) : Assembles labels states [] [] none
  | failed {states i row rows state e state'} (hget : states[i]? = some state)
      (howns : state.window.owns row.startLsn)
      (h : RowAssembly.assemble state (labels.getD i "") row = (.error e, state')) :
      Assembles labels states ((i, row) :: rows) [] (some e)
  | superseded {states i row rows state records failure} (hget : states[i]? = some state)
      (howns : ¬ state.window.owns row.startLsn) :
      Assembles labels states rows records failure →
      Assembles labels states ((i, row) :: rows) records failure
  | held {states i row rows state state' records failure} (hget : states[i]? = some state)
      (howns : state.window.owns row.startLsn)
      (h : RowAssembly.assemble state (labels.getD i "") row = (.ok none, state')) :
      Assembles labels (states.set i state') rows records failure →
      Assembles labels states ((i, row) :: rows) records failure
  | completed {states i row rows state state' record records failure}
      (hget : states[i]? = some state) (howns : state.window.owns row.startLsn)
      (h : RowAssembly.assemble state (labels.getD i "") row = (.ok (some record), state')) :
      Assembles labels (states.set i state') rows records failure →
      Assembles labels states ((i, row) :: rows) (record :: records) failure

/-- A state keeps its window. -/
theorem map_window_set {states : List WindowState} {i : Nat} {state state' : WindowState}
    {label : String} {row : ChangeRow}
    {result : Except CaptureError (Option (ChangeRecord .sqlserver))}
    (hget : states[i]? = some state) (h : RowAssembly.assemble state label row = (result, state')) :
    (states.set i state').map WindowState.window = states.map WindowState.window := by
  have hwindow : state'.window = state.window := by
    rw [← RowAssembly.assemble_window state label row, h]
  obtain ⟨hi, hstate⟩ := List.getElem?_eq_some_iff.mp hget
  apply ext_getElem (by simp)
  intro j _ _
  rw [getElem_map, getElem_map, getElem_set]
  split
  · subst j
    rw [hwindow, hstate]
  · rfl

theorem getElem?_window {states : List WindowState} {i : Nat} {state : WindowState}
    (hget : states[i]? = some state) : (states.map WindowState.window)[i]? = some state.window := by
  rw [getElem?_map, hget, Option.map_some]

namespace Assembles

variable {labels : List String} {states : List WindowState} {rows : List (Nat × ChangeRow)}
  {records : List (ChangeRecord .sqlserver)} {failure : Option CaptureError}

/-- The offset of a row that an input of a merge has given. -/
def givenOffset (labels : List String) (x : Nat × ChangeRow) : Offset .sqlserver :=
  x.2.offset (labels.getD x.1 "")

/-- Every change comes from a row that its window owns. -/
theorem exists_row (h : Assembles labels states rows records failure) :
    ∀ record ∈ records, ∃ x ∈ rows, ∃ window,
      (states.map WindowState.window)[x.1]? = some window ∧ window.owns x.2.startLsn ∧
        x.2.Completes ∧ record.offset = x.2.offset window.label := by
  induction h with
  | nil | failed => simp
  | superseded _ _ _ ih =>
      intro record hrecord
      obtain ⟨x, hx, hwindow⟩ := ih record hrecord
      exact ⟨x, mem_cons_of_mem _ hx, hwindow⟩
  | held hget _ h _ ih =>
      rw [map_window_set hget h] at ih
      intro record hrecord
      obtain ⟨x, hx, hwindow⟩ := ih record hrecord
      exact ⟨x, mem_cons_of_mem _ hx, hwindow⟩
  | @completed states i row rows state state' record records failure hget howns h _ ih =>
      rw [map_window_set hget h] at ih
      obtain ⟨hoffset, hcompletes⟩ := RowAssembly.assemble_eq_some h
      intro record' hrecord
      rcases mem_cons.mp hrecord with rfl | hrecord
      · exact ⟨(i, row), mem_cons_self, state.window, getElem?_window hget, howns, hcompletes, hoffset⟩
      · obtain ⟨x, hx, hwindow⟩ := ih record' hrecord
        exact ⟨x, mem_cons_of_mem _ hx, hwindow⟩

theorem offset_eq_given {i : Nat} {row : ChangeRow} {state state' : WindowState}
    {record : ChangeRecord .sqlserver}
    (hlabels : labels = (states.map WindowState.window).map SourceWindow.label)
    (hget : states[i]? = some state)
    (h : RowAssembly.assemble state (labels.getD i "") row = (.ok (some record), state')) :
    record.offset = givenOffset labels (i, row) := by
  have hlabel : labels.getD i "" = state.window.label := by simp [hlabels, hget]
  rw [(RowAssembly.assemble_eq_some h).1, givenOffset, hlabel]

/-- The changes come in the order of their rows. -/
theorem sublist (h : Assembles labels states rows records failure)
    (hlabels : labels = (states.map WindowState.window).map SourceWindow.label) :
    records.map ChangeRecord.offset <+ rows.map (givenOffset labels) := by
  induction h with
  | nil | failed => exact nil_sublist _
  | superseded _ _ _ ih => exact (ih hlabels).cons _
  | held hget _ h _ ih =>
      rw [map_window_set hget h] at ih
      exact (ih hlabels).cons _
  | @completed states i row rows state state' record records failure hget _ h _ ih =>
      rw [map_window_set hget h] at ih
      rw [map_cons, map_cons, offset_eq_given hlabels hget h]
      exact (ih hlabels).cons_cons _

/-- A row that completes a change of its window gives it, or a failure comes before it. -/
theorem covers (h : Assembles labels states rows records failure)
    (hlabels : labels = (states.map WindowState.window).map SourceWindow.label)
    (hsorted : rows.Pairwise fun x y => compare (givenOffset labels x) (givenOffset labels y) = .lt)
    {x : Nat × ChangeRow} (hx : x ∈ rows) {window : SourceWindow}
    (hwindow : (states.map WindowState.window)[x.1]? = some window)
    (howns : window.owns x.2.startLsn) (hcompletes : x.2.Completes) :
    x.2.offset window.label ∈ records.map ChangeRecord.offset ∨ failure.isSome ∧
      ∀ record ∈ records, compare record.offset (x.2.offset window.label) = .lt := by
  have hgiven : x.2.offset window.label = givenOffset labels x := by
    rw [givenOffset, hlabels, getD_eq_getElem?_getD, getElem?_map, hwindow]
    rfl
  rw [hgiven]
  induction h with
  | nil => cases hx
  | failed => exact .inr ⟨rfl, by simp⟩
  | @superseded states i row rows state records failure hget hnot _ ih =>
      rcases mem_cons.mp hx with rfl | hx
      · rw [getElem?_window hget] at hwindow
        cases hwindow
        exact (hnot howns).elim
      · exact ih hlabels (pairwise_cons.mp hsorted).2 hx hwindow
  | @held states i row rows state state' records failure hget _ h _ ih =>
      rw [map_window_set hget h] at ih
      rcases mem_cons.mp hx with rfl | hx
      · exact (RowAssembly.not_completes_of_assemble h hcompletes).elim
      · exact ih hlabels (pairwise_cons.mp hsorted).2 hx hwindow
  | @completed states i row rows state state' record records failure hget _ h hrest ih =>
      rw [map_window_set hget h] at ih
      have hoffset : record.offset = givenOffset labels (i, row) := offset_eq_given hlabels hget h
      rcases mem_cons.mp hx with rfl | hx
      · exact .inl (mem_map.mpr ⟨record, mem_cons_self, hoffset⟩)
      · rcases ih hlabels (pairwise_cons.mp hsorted).2 hx hwindow with hmem | ⟨hfailed, hbefore⟩
        · exact .inl (mem_cons_of_mem _ hmem)
        · refine .inr ⟨hfailed, fun record' hrecord => ?_⟩
          rcases mem_cons.mp hrecord with rfl | hrecord
          · rw [hoffset]
            exact (pairwise_cons.mp hsorted).1 x hx
          · exact hbefore record' hrecord

end Assembles

end ChangeCapture
