import ChangeCapture.Proofs.Order
import ChangeCapture.Proofs.Stream.Assembly
import Mathlib.Data.List.Forall2

/-! # The changes that the rows of a window stand for

What a window should yield is told from its rows alone: a deletion or an insertion by one row, a change
by the rows before and after it, side by side, or by the row after it alone. -/

namespace ChangeCapture

open List

/-! ## Values and changes -/

namespace PlannedWindow

/-- The values of a row in the order of the schema, looked up by the names of the captured columns. -/
def image? (planned : PlannedWindow) (row : ChangeRow) : Option Row :=
  if row.values.length = planned.window.source.capturedColumns.length then
    some (planned.schema.columns.map fun column =>
      ((planned.window.source.capturedColumns.zip row.values).lookup column.name).join)
  else none

/-- The change that a row completes. -/
def change (planned : PlannedWindow) (kind : ChangeKind) (row : ChangeRow) (old new : Row) :
    ChangeRecord .sqlserver :=
  { kind, opCode := row.operation, table := planned.window.source.table
    source := planned.window.source.name, position := row.startLsn
    sequence := Sequence.ofLsn row.seqval, old, new }

/-- Only captured columns are named by the schema. -/
def IsCaptured (planned : PlannedWindow) : Prop :=
  ∀ column ∈ planned.schema.columns, column.name ∈ planned.window.source.capturedColumns

/-- The rows that no newer instance owns. -/
def owned (planned : PlannedWindow) (rows : List ChangeRow) : List ChangeRow :=
  rows.filter fun row => planned.window.owns row.startLsn

end PlannedWindow

/-- Rows of a window and the changes that they stand for. -/
inductive Reference (planned : PlannedWindow) :
    List ChangeRow → List (ChangeRecord .sqlserver) → Prop where
  | nil : Reference planned [] []
  | delete {row old rows records} (hop : row.operation = 1) (hold : planned.image? row = some old) :
      Reference planned rows records →
      Reference planned (row :: rows) (planned.change .delete row old [] :: records)
  | insert {row new rows records} (hop : row.operation = 2) (hnew : planned.image? row = some new) :
      Reference planned rows records →
      Reference planned (row :: rows) (planned.change .insert row [] new :: records)
  | update {before after old new rows records} (hbefore : before.operation = 3)
      (hafter : after.operation = 4) (hlsn : before.startLsn = after.startLsn)
      (hseqval : before.seqval = after.seqval) (hold : planned.image? before = some old)
      (hnew : planned.image? after = some new) :
      Reference planned rows records →
      Reference planned (before :: after :: rows) (planned.change .update after old new :: records)
  | unpaired {row new rows records} (hop : row.operation = 4)
      (hnew : planned.image? row = some new) :
      Reference planned rows records →
      Reference planned (row :: rows)
        (planned.change .update row (replicate planned.schema.width none) new :: records)

/-- Why a row among others of a window stands for no change. -/
inductive Faulty (planned : PlannedWindow) (rows : List ChangeRow) (row : ChangeRow) : Prop where
  | unknown (h : row.operation ∉ [1, 2, 3, 4])
  | width (h : row.values.length ≠ planned.window.source.capturedColumns.length)
  | orphan (hop : row.operation = 3) (h : ∀ after ∈ rows, after.operation = 4 →
      ¬ (row.startLsn = after.startLsn ∧ row.seqval = after.seqval))

/-! ## Faults -/

/-- No row comes between those before and after a change. -/
theorem ChangeRow.not_between {r s t : ChangeRow} (hlsn : r.startLsn = t.startLsn)
    (hseqval : r.seqval = t.seqval) (hr : r.operation = 3) (ht : t.operation = 4)
    (hrs : r.compareKeys s = .lt) : s.compareKeys t ≠ .lt := by
  intro hst
  rw [compareKeys_eq_lt] at hrs hst
  grind

theorem PlannedWindow.image?_eq_none {planned : PlannedWindow} {row : ChangeRow} :
    planned.image? row = none ↔
      row.values.length ≠ planned.window.source.capturedColumns.length := by
  simp [image?]

variable {planned : PlannedWindow} {rows : List ChangeRow} {row r : ChangeRow}
  {records : List (ChangeRecord .sqlserver)}

theorem Faulty.of_subset {rows' : List ChangeRow} (hsub : rows ⊆ rows') (h : Faulty planned rows' r) :
    Faulty planned rows r := by
  cases h with
  | unknown h => exact .unknown h
  | width h => exact .width h
  | orphan hop h => exact .orphan hop fun after hafter => h after (hsub hafter)

/-- A row after a change does not come before the row before it. -/
theorem Faulty.cons (hsorted : (row :: rows).Pairwise fun r s => r.compareKeys s = .lt)
    (hr : r ∈ rows) (h : Faulty planned rows r) : Faulty planned (row :: rows) r := by
  cases h with
  | unknown h => exact .unknown h
  | width h => exact .width h
  | orphan hop h =>
      refine .orphan hop fun after hafter hop' => ?_
      rcases mem_cons.mp hafter with rfl | hafter
      · rintro ⟨hlsn, hseqval⟩
        have hlt := ChangeRow.compareKeys_eq_lt.mp ((pairwise_cons.mp hsorted).1 r hr)
        grind
      · exact h after hafter hop'

/-- Of a row with the right number of values and a known operation, only the row after it may be missing. -/
theorem faulty_iff_of_image {values : Row} (himage : planned.image? row = some values)
    (hop : row.operation ∈ [1, 2, 3, 4]) :
    Faulty planned rows row ↔ row.operation = 3 ∧ ∀ after ∈ rows, after.operation = 4 →
      ¬ (row.startLsn = after.startLsn ∧ row.seqval = after.seqval) := by
  constructor
  · intro h
    cases h with
    | unknown h => exact absurd hop h
    | width h => simp [PlannedWindow.image?_eq_none.mpr h] at himage
    | orphan hop h => exact ⟨hop, h⟩
  · exact fun ⟨hop, h⟩ => .orphan hop h

theorem exists_image (h : ¬ Faulty planned rows row) : ∃ values, planned.image? row = some values :=
  Option.ne_none_iff_exists'.mp fun hnone => h (.width (PlannedWindow.image?_eq_none.mp hnone))

/-- In order, a row before a change is directly followed by the row after it. -/
theorem exists_after (hsorted : (row :: rows).Pairwise fun r s => r.compareKeys s = .lt)
    (hop : row.operation = 3) (h : ¬ Faulty planned (row :: rows) row) :
    ∃ after rest, rows = after :: rest ∧ after.operation = 4 ∧ row.startLsn = after.startLsn ∧
      row.seqval = after.seqval := by
  obtain ⟨after, hafter, hop', hlsn, hseqval⟩ : ∃ after ∈ row :: rows, after.operation = 4 ∧
      row.startLsn = after.startLsn ∧ row.seqval = after.seqval := by
    by_contra hnone
    exact h (.orphan hop fun after hafter hop' hkeys => hnone ⟨after, hafter, hop', hkeys⟩)
  rcases mem_cons.mp hafter with rfl | hafter
  · simp [hop] at hop'
  · cases rows with
    | nil => cases hafter
    | cons next rest =>
        obtain ⟨hrow, hsorted⟩ := pairwise_cons.mp hsorted
        rcases mem_cons.mp hafter with rfl | hlater
        · exact ⟨after, rest, rfl, hop', hlsn, hseqval⟩
        · exact absurd ((pairwise_cons.mp hsorted).1 after hlater)
            (ChangeRow.not_between hlsn hseqval hop hop' (hrow next mem_cons_self))

namespace Reference

/-- Rows that stand for changes have no fault. -/
theorem not_faulty (h : Reference planned rows records) :
    ∀ row ∈ rows, ¬ Faulty planned rows row := by
  induction h with
  | nil => simp
  | delete hop hvalues _ ih | insert hop hvalues _ ih | unpaired hop hvalues _ ih =>
      refine forall_mem_cons.mpr ⟨?_, fun r hr hfault => ?_⟩
      · rw [faulty_iff_of_image hvalues (by simp [hop])]
        simp [hop]
      · exact ih r hr (hfault.of_subset (by simp))
  | update hbefore hafter hlsn hseqval hold hnew _ ih =>
      refine forall_mem_cons.mpr ⟨?_, forall_mem_cons.mpr ⟨?_, fun r hr hfault => ?_⟩⟩
      · rw [faulty_iff_of_image hold (by simp [hbefore])]
        exact fun ⟨_, hnone⟩ => hnone _ (by simp) hafter ⟨hlsn, hseqval⟩
      · rw [faulty_iff_of_image hnew (by simp [hafter])]
        simp [hafter]
      · exact ih r hr (hfault.of_subset (by simp))

/-- Rows in order stand for changes unless one of them has a fault. -/
theorem exists_of_not_faulty (hsorted : rows.Pairwise fun r s => r.compareKeys s = .lt)
    (h : ∀ row ∈ rows, ¬ Faulty planned rows row) : ∃ records, Reference planned rows records := by
  -- A change takes two rows, so that the induction is on their number.
  induction hn : rows.length using Nat.strongRecOn generalizing rows with
  | ind n ih =>
      subst hn
      cases rows with
      | nil => exact ⟨[], .nil⟩
      | cons row rows =>
          obtain ⟨_, hrest⟩ := pairwise_cons.mp hsorted
          have hfine (r : ChangeRow) (hr : r ∈ rows) : ¬ Faulty planned rows r :=
            fun hfault => h r (mem_cons_of_mem _ hr) (hfault.cons hsorted hr)
          obtain ⟨records, hrecords⟩ := ih rows.length (by simp) hrest hfine rfl
          obtain ⟨values, hvalues⟩ := exists_image (h row mem_cons_self)
          have hop : row.operation ∈ [1, 2, 3, 4] := by
            by_contra hop
            exact h row mem_cons_self (.unknown hop)
          simp only [mem_cons, not_mem_nil, or_false] at hop
          rcases hop with hop | hop | hop | hop
          · exact ⟨_, .delete hop hvalues hrecords⟩
          · exact ⟨_, .insert hop hvalues hrecords⟩
          · obtain ⟨after, rest, rfl, hop', hlsn, hseqval⟩ :=
              exists_after hsorted hop (h row mem_cons_self)
            obtain ⟨new, hnew⟩ := exists_image (hfine after mem_cons_self)
            have hlt : rest.length < (row :: after :: rest).length := by
              rw [length_cons, length_cons]
              omega
            obtain ⟨records, hrecords⟩ := ih rest.length hlt (pairwise_cons.mp hrest).2
              (fun r hr hfault => hfine r (mem_cons_of_mem _ hr) (hfault.cons hrest hr)) rfl
            exact ⟨_, .update hop hop' hlsn hseqval hvalues hnew hrecords⟩
          · exact ⟨_, .unpaired hop hvalues hrecords⟩

end Reference

/-! ## Assembling the changes -/

namespace WindowState

/-- The window that is read. -/
def toPlanned (state : WindowState) : PlannedWindow :=
  { window := state.window, schema := state.schema }

/-- Values are looked up by the names of their columns, and a row that waits is one before a change. -/
structure Sound (state : WindowState) : Prop where
  project : ∀ row values, state.project row = .ok values ↔ state.toPlanned.image? row = some values
  before : ∀ row ∈ state.before, row.operation = 3

theorem record_eq_change {state : WindowState} {operation : RowOperation}
    (hop : row.operation = operation.code) (old new : Row) :
    state.record operation row old new = state.toPlanned.change operation.kind row old new := by
  unfold record PlannedWindow.change
  rw [hop]
  rfl

end WindowState

namespace RowAssembly

variable {state state' : WindowState} {made : Option (ChangeRecord .sqlserver)}

/-- What a row leads to: the change that it completes, if it completes one, and the state after it. -/
inductive Assembled (state : WindowState) (row : ChangeRow) :
    Option (ChangeRecord .sqlserver) → WindowState → Prop where
  | delete {old} (hop : row.operation = 1) (hbefore : state.before = none)
      (hold : state.project row = .ok old) :
      Assembled state row (some (state.record .delete row old [])) state
  | insert {new} (hop : row.operation = 2) (hbefore : state.before = none)
      (hnew : state.project row = .ok new) :
      Assembled state row (some (state.record .insert row [] new)) state
  | held (hop : row.operation = 3) (hbefore : state.before = none) :
      Assembled state row none { state with before := some row }
  | unpaired {new} (hop : row.operation = 4) (hbefore : state.before = none)
      (hnew : state.project row = .ok new) :
      Assembled state row (some (state.record .updateAfter row state.unknownRow new))
        { state with before := none }
  | paired {before old new} (hop : row.operation = 4) (hbefore : state.before = some before)
      (hlsn : before.startLsn = row.startLsn) (hseqval : before.seqval = row.seqval)
      (hold : state.project before = .ok old) (hnew : state.project row = .ok new) :
      Assembled state row (some (state.record .updateAfter row old new)) { state with before := none }

theorem assemble_eq_ok {label : String} :
    assemble state label row = (.ok made, state') ↔ Assembled state row made state' := by
  constructor
  · intro h
    unfold assemble at h
    cases hof : RowOperation.ofCode? row.operation with
    | none => simp [hof] at h
    | some operation =>
        have hop := (RowOperation.code_of_ofCode? hof).symm
        rw [hof] at h
        cases operation with
        | updateAfter =>
            cases hnew : state.project row with
            | error e => simp [hnew] at h
            | ok new =>
                simp only [hnew, oldValues] at h
                cases hbefore : state.before with
                | none =>
                    simp only [hbefore] at h
                    cases h
                    exact .unpaired hop hbefore hnew
                | some before =>
                    simp only [hbefore] at h
                    split_ifs at h with hkeys
                    · cases hold : state.project before <;> simp only [hold] at h <;> cases h
                      exact .paired hop hbefore hkeys.1 hkeys.2 hold hnew
                    · cases h
        | delete =>
            cases hbefore : state.before <;> cases hold : state.project row <;>
              simp only [hbefore, hold] at h <;> cases h
            exact .delete hop hbefore hold
        | insert =>
            cases hbefore : state.before <;> cases hnew : state.project row <;>
              simp only [hbefore, hnew] at h <;> cases h
            exact .insert hop hbefore hnew
        | updateBefore =>
            cases hbefore : state.before <;> simp only [hbefore] at h <;> cases h
            exact .held hop hbefore
  · intro h
    cases h with
    | delete hop hbefore hvalues | insert hop hbefore hvalues =>
        simp [assemble, hop, RowOperation.ofCode?, hbefore, hvalues, Except.map]
    | held hop hbefore => simp [assemble, hop, RowOperation.ofCode?, hbefore]
    | unpaired hop hbefore hnew =>
        simp [assemble, hop, RowOperation.ofCode?, hbefore, hnew, oldValues]
    | paired hop hbefore hlsn hseqval hold hnew =>
        simp [assemble, hop, RowOperation.ofCode?, hbefore, hlsn, hseqval, hold, hnew, oldValues]

namespace Assembled

theorem toPlanned_eq (h : Assembled state row made state') : state'.toPlanned = state.toPlanned := by
  cases h <;> rfl

theorem sound (h : Assembled state row made state') (hsound : state.Sound) : state'.Sound := by
  cases h with
  | delete | insert => exact hsound
  | held hop => exact ⟨hsound.project, by simpa using hop⟩
  | unpaired | paired => exact ⟨hsound.project, by simp⟩

end Assembled

/-- What rows stand for is what the first of them leads to and then the others, where a row that waits
counts as one that is still to come. -/
theorem reference_iff (hsound : state.Sound) :
    Reference state.toPlanned (state.before.toList ++ row :: rows) records ↔
      ∃ made state' rest, Assembled state row made state' ∧ records = made.toList ++ rest ∧
        Reference state.toPlanned (state'.before.toList ++ rows) rest := by
  constructor
  · intro h
    cases hbefore : state.before with
    | none =>
        rw [hbefore] at h
        cases h with
        | @delete _ old _ rest hop hold h =>
            refine ⟨_, _, rest, .delete hop hbefore ((hsound.project _ _).mpr hold), ?_, ?_⟩
            · rw [WindowState.record_eq_change hop]
              rfl
            · rwa [hbefore]
        | @insert _ new _ rest hop hnew h =>
            refine ⟨_, _, rest, .insert hop hbefore ((hsound.project _ _).mpr hnew), ?_, ?_⟩
            · rw [WindowState.record_eq_change hop]
              rfl
            · rwa [hbefore]
        | update hop hop' hlsn hseqval hold hnew h =>
            exact ⟨_, _, _, .held hop hbefore, rfl, .update hop hop' hlsn hseqval hold hnew h⟩
        | @unpaired _ new _ rest hop hnew h =>
            refine ⟨_, _, rest, .unpaired hop hbefore ((hsound.project _ _).mpr hnew), ?_, h⟩
            rw [WindowState.record_eq_change hop]
            rfl
    | some before =>
        have hwaits : before.operation = 3 := hsound.before before hbefore
        rw [hbefore] at h
        cases h with
        | delete hop | insert hop | unpaired hop => simp [hwaits] at hop
        | @update _ _ old new _ rest _ hop hlsn hseqval hold hnew h =>
            refine ⟨_, _, rest, .paired hop hbefore hlsn hseqval ((hsound.project _ _).mpr hold)
              ((hsound.project _ _).mpr hnew), ?_, h⟩
            rw [WindowState.record_eq_change hop]
            rfl
  · rintro ⟨made, state', rest, hassembled, rfl, h⟩
    cases hassembled with
    | delete hop hbefore hold =>
        rw [hbefore] at h ⊢
        rw [WindowState.record_eq_change hop]
        exact .delete hop ((hsound.project _ _).mp hold) h
    | insert hop hbefore hnew =>
        rw [hbefore] at h ⊢
        rw [WindowState.record_eq_change hop]
        exact .insert hop ((hsound.project _ _).mp hnew) h
    | held hop hbefore =>
        rw [hbefore]
        exact h
    | unpaired hop hbefore hnew =>
        rw [hbefore, WindowState.record_eq_change hop]
        exact .unpaired hop ((hsound.project _ _).mp hnew) h
    | paired hop hbefore hlsn hseqval hold hnew =>
        rw [hbefore, WindowState.record_eq_change hop]
        exact .update (hsound.before _ hbefore) hop hlsn hseqval ((hsound.project _ _).mp hold)
          ((hsound.project _ _).mp hnew) h

end RowAssembly

/-! ## Projections -/

theorem exists_mapM {α β : Type} {f : α → Except CaptureError β} {rel : α → β → Prop} {l : List α}
    (h : ∀ a ∈ l, ∃ b, f a = .ok b ∧ rel a b) : ∃ bs, l.mapM f = .ok bs ∧ Forall₂ rel l bs := by
  induction l with
  | nil => exact ⟨[], rfl, .nil⟩
  | cons a l ih =>
      obtain ⟨⟨b, hb, hab⟩, hl⟩ := forall_mem_cons.mp h
      obtain ⟨bs, hbs, hrest⟩ := ih hl
      refine ⟨b :: bs, ?_, .cons hab hrest⟩
      rw [mapM_cons, hb, hbs]
      rfl

/-- A value is at the place of its name. -/
theorem lookup_zip {α : Type} {names : List String} {values : List α} {name : String} {i : Nat}
    (hlength : values.length = names.length) (h : names.findIdx? (· == name) = some i) :
    (names.zip values).lookup name = values[i]? := by
  induction names generalizing values i with
  | nil => cases h
  | cons head names ih =>
      cases values with
      | nil => cases hlength
      | cons value values =>
          rw [findIdx?_cons] at h
          rw [zip_cons_cons]
          by_cases hname : head = name
          · subst hname
            simp only [beq_self_eq_true, ↓reduceIte, Option.some.injEq] at h
            subst h
            simp
          · rw [if_neg (by simpa using hname)] at h
            obtain ⟨j, hj, rfl⟩ := Option.map_eq_some_iff.mp h
            have hne : (name == head) = false := by simpa using Ne.symm hname
            rw [lookup_cons, hne, getElem?_cons_succ]
            exact ih (by simpa using hlength) hj

namespace WindowState

theorem exists_capturedIndex {column : Column}
    (h : column.name ∈ planned.window.source.capturedColumns) :
    ∃ i, capturedIndex planned column = .ok i ∧
      planned.window.source.capturedColumns.findIdx? (· == column.name) = some i := by
  have hsome : (planned.window.source.capturedColumns.findIdx? (· == column.name)).isSome := by
    rw [findIdx?_isSome, any_eq_true]
    exact ⟨column.name, h, by simp⟩
  obtain ⟨i, hi⟩ := Option.isSome_iff_exists.mp hsome
  exact ⟨i, by simp [capturedIndex, hi], hi⟩

/-- A window whose schema names captured columns only can be read. -/
theorem exists_ofPlanned (h : planned.IsCaptured) :
    ∃ state, ofPlanned planned = .ok state ∧ state.toPlanned = planned ∧ state.before = none ∧
      state.Sound := by
  obtain ⟨projection, hprojection, hindices⟩ :=
    exists_mapM fun column hcolumn => exists_capturedIndex (h column hcolumn)
  refine ⟨{ window := planned.window, schema := planned.schema, projection }, ?_, rfl, rfl, ?_, ?_⟩
  · rw [ofPlanned, hprojection]
    rfl
  · intro row values
    by_cases hlength : row.values.length = planned.window.source.capturedColumns.length
    · have hvalues : planned.schema.columns.map (fun column =>
          ((planned.window.source.capturedColumns.zip row.values).lookup column.name).join) =
          projection.map fun i => (row.values[i]?).join := by
        rw [← forall₂_eq_eq_eq, forall₂_map_left_iff, forall₂_map_right_iff]
        exact hindices.imp fun column i hi => by rw [lookup_zip hlength hi]
      simp [project, PlannedWindow.image?, toPlanned, hlength, hvalues]
    · simp [project, PlannedWindow.image?, toPlanned, hlength]
  · simp

end WindowState

end ChangeCapture
