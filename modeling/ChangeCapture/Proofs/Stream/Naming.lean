import ChangeCapture.Proofs.Events
import ChangeCapture.Proofs.Stream.Exactness
import ChangeCapture.Proofs.Stream.Standing

/-! # Values under their names

The columns of a table come in the order of the table, the values of a row in that of the captured columns,
and the members of an object in that of their names. From one to the next a value stays under its name. -/

namespace ChangeCapture

open List

/-! ## Names of a capture instance -/

namespace CaptureInstance

/-- The columns of a table that an instance captures. -/
def captured (source : CaptureInstance) (live : List Column) : List Column :=
  live.filter fun column => source.capturedColumns.contains column.name

/-- The value of a row under the name of a captured column. -/
def valueOf (source : CaptureInstance) (row : ChangeRow) (name : String) : Option RawValue :=
  ((source.capturedColumns.zip row.values).lookup name).join

end CaptureInstance

theorem lookup_eq_some_iff {α : Type} {l : List (String × α)} (h : (l.map Prod.fst).Nodup) {name : String}
    {a : α} : l.lookup name = some a ↔ (name, a) ∈ l := by
  induction l with
  | nil => simp
  | cons head l ih =>
      obtain ⟨n, b⟩ := head
      rw [map_cons, nodup_cons] at h
      rw [mem_cons]
      by_cases hname : name = n
      · subst hname
        have hnot : (name, a) ∉ l := fun hmem => h.1 (mem_map.mpr ⟨_, hmem, rfl⟩)
        simp [hnot, eq_comm]
      · have hne : (name == n) = false := by simpa using hname
        simp [lookup_cons, hne, hname, ih h.2]

/-- Where every name is once, the order does not matter. -/
theorem lookup_eq_of_perm {α : Type} {l l' : List (String × α)} (hperm : l ~ l')
    (h : (l.map Prod.fst).Nodup) (name : String) : l.lookup name = l'.lookup name := by
  apply Option.ext
  intro a
  rw [lookup_eq_some_iff h, lookup_eq_some_iff ((hperm.map _).nodup_iff.mp h), hperm.mem_iff]

namespace CaptureInstance

variable {source source' : CaptureInstance} {live live' : List Column} {row row' : ChangeRow}

theorem map_fst_zip_values (hwidth : row.values.length = source.capturedColumns.length) :
    (source.capturedColumns.zip row.values).map Prod.fst = source.capturedColumns :=
  map_fst_zip hwidth.ge

/-- Captured columns and their values may come in another order. -/
theorem valueOf_eq_of_perm (hnames : source.capturedColumns.Nodup)
    (hwidth : row.values.length = source.capturedColumns.length)
    (hvalues : source.capturedColumns.zip row.values ~ source'.capturedColumns.zip row'.values) :
    source.valueOf row = source'.valueOf row' := by
  funext name
  rw [valueOf, valueOf, lookup_eq_of_perm hvalues (by rwa [map_fst_zip_values hwidth])]

theorem captured_perm (hlive : live ~ live') (hnames : source.capturedColumns ~ source'.capturedColumns) :
    source.captured live ~ source'.captured live' := by
  have hcontains : (fun column : Column => source.capturedColumns.contains column.name) =
      fun column => source'.capturedColumns.contains column.name := by
    funext column
    rw [hnames.contains_eq]
  rw [captured, captured, hcontains]
  exact hlive.filter _

end CaptureInstance

/-! ## Resolved schemas -/

section Opening

variable {answer : (r : CaptureRequest) → r.Answer} {source : CaptureInstance} {live : List Column}
  {key : List String} {states : List WindowState} {planned : List PlannedWindow} {e : CaptureError}

theorem Registry.exists_resolved
    (hcolumns : answer (.server (.tableColumns source.table)) =
      (Except.ok live : Except CaptureError (List Column)))
    (hkey : answer (.server (.keyColumns source.table)) =
      (Except.ok key : Except CaptureError (List String))) :
    ∃ schema, CaptureStep.outcome answer (resolveSchema source) = .ok schema ∧
      schema.columns ~ source.captured live := by
  have hlive : CaptureStep.outcome answer (Server.tableColumns source.table) = .ok live := hcolumns
  have hkeys : CaptureStep.outcome answer (Server.keyColumns source.table) = .ok key := hkey
  have hresolved : CaptureStep.outcome answer (resolveSchema source) = .ok _ :=
    (CaptureStep.outcome_bind_ok hlive).trans (CaptureStep.outcome_bind_ok hkeys)
  exact ⟨_, hresolved, mergeSort_perm _ _⟩

namespace ChangeStream

/-- A cursor that cannot be opened is reported with its window. -/
theorem exists_streamRead_of_openCursors (h : CaptureStep.outcome answer (openCursors states) = .error e) :
    ∃ origin message, e = .streamRead origin message := by
  induction states with
  | nil => cases h
  | cons state states ih =>
      rcases CaptureStep.outcome_bind_error h with hcursor | ⟨cursor, _, h⟩
      · change Except.mapError _ (answer (.server (.changes state.window)) :
          Except CaptureError (Cursor ChangeRow)) = _ at hcursor
        cases hanswer : (answer (.server (.changes state.window)) :
            Except CaptureError (Cursor ChangeRow)) with
        | ok cursor =>
            rw [hanswer] at hcursor
            cases hcursor
        | error cause =>
            rw [hanswer] at hcursor
            cases hcursor
            exact ⟨_, _, rfl⟩
      · rcases CaptureStep.outcome_bind_error h with hrest | ⟨inputs, _, h⟩
        · exact ih hrest
        · cases h

/-- Windows whose schemas name captured columns only may fail to be opened, but not for that. -/
theorem start_ne_notCaptured (hcaptured : ∀ p ∈ planned, p.IsCaptured) (column : Column)
    (p : PlannedWindow) :
    CaptureStep.outcome answer (start planned) ≠ .error (WindowState.notCaptured column p) := by
  intro h
  obtain ⟨states, hstates, _⟩ := exists_mapM fun p hp => WindowState.exists_ofPlanned (hcaptured p hp)
  rcases CaptureStep.outcome_bind_error h with hfailed | ⟨_, _, h⟩
  · cases hstates.symm.trans hfailed
  · rcases CaptureStep.outcome_bind_error h with hfailed | ⟨inputs, _, h⟩
    · obtain ⟨origin, message, he⟩ := exists_streamRead_of_openCursors hfailed
      cases he
    · rcases CaptureStep.outcome_bind_error h with hfailed | ⟨merge, _, h⟩
      · obtain ⟨_, _, _, _, he⟩ := Merge.prime_eq_error (Merge.prime_of_start_error hfailed)
        cases he
      · cases h

end ChangeStream

end Opening

/-! ## Changes by name -/

/-- What is known by name of a row before and after the change that a row of its instance completes. -/
inductive Images (source : CaptureInstance) (rows : List ChangeRow) (row : ChangeRow) :
    ChangeKind → Option (String → Option RawValue) → Option (String → Option RawValue) → Prop where
  | insert (hop : row.operation = 2) : Images source rows row .insert none (some (source.valueOf row))
  | delete (hop : row.operation = 1) : Images source rows row .delete (some (source.valueOf row)) none
  | update {before} (hop : row.operation = 4) (hmem : before ∈ rows) (hbefore : before.IsBefore row) :
      Images source rows row .update (some (source.valueOf before)) (some (source.valueOf row))
  | unpaired (hop : row.operation = 4) (hnone : ∀ before ∈ rows, ¬ before.IsBefore row) :
      Images source rows row .update (some fun _ => none) (some (source.valueOf row))

section Changes

variable {planned : PlannedWindow} {rows : List ChangeRow} {row : ChangeRow}
  {record : ChangeRecord .sqlserver}

theorem PlannedWindow.eq_of_image? {values : Row} (h : planned.image? row = some values) :
    values = ChangeRecord.rowOf planned.schema (some (planned.window.source.valueOf row)) := by
  unfold image? at h
  split_ifs at h
  cases h
  rfl

theorem Stands.exists_images (h : Stands planned rows row record) : ∃ old new,
    Images planned.window.source rows row record.kind old new ∧
      record.old = ChangeRecord.rowOf planned.schema old ∧
      record.new = ChangeRecord.rowOf planned.schema new := by
  cases h with
  | delete hop hold => exact ⟨_, none, .delete hop, PlannedWindow.eq_of_image? hold, rfl⟩
  | insert hop hnew => exact ⟨none, _, .insert hop, rfl, PlannedWindow.eq_of_image? hnew⟩
  | update hop hmem hbefore hold hnew =>
      exact ⟨_, _, .update hop hmem hbefore, PlannedWindow.eq_of_image? hold,
        PlannedWindow.eq_of_image? hnew⟩
  | unpaired hop hnone hnew =>
      exact ⟨_, _, .unpaired hop hnone, map_const'.symm, PlannedWindow.eq_of_image? hnew⟩

theorem ChangeRow.Completes.operation_mem (h : row.Completes) : row.operation ∈ [1, 2, 4] := by
  obtain ⟨operation, hop, hne⟩ := h
  rw [← RowOperation.code_of_ofCode? hop]
  cases operation with
  | updateBefore => exact absurd rfl hne
  | delete | insert | updateAfter => decide

/-- Rows of the captured width have no fault if each completes a change or shows what was before one. -/
theorem not_faulty_of_completes
    (hwidth : ∀ row ∈ rows, row.values.length = planned.window.source.capturedColumns.length)
    (h : ∀ row ∈ rows, planned.window.owns row.startLsn →
      row.Completes ∨ ∃ after ∈ rows, after.operation = 4 ∧ row.IsBefore after) :
    ∀ row ∈ planned.owned rows, ¬ Faulty planned (planned.owned rows) row := by
  intro row hrow hfault
  obtain ⟨hmem, howns⟩ := mem_filter.mp hrow
  rcases h row hmem howns with hcompletes | ⟨after, hafter, hop', hbefore⟩
  · have hop := hcompletes.operation_mem
    cases hfault with
    | unknown hunknown => exact hunknown (by simp only [mem_cons] at hop ⊢; tauto)
    | width hwrong => exact hwrong (hwidth row hmem)
    | orphan hthree _ => simp [hthree] at hop
  · cases hfault with
    | unknown hunknown => exact hunknown (by simp [hbefore.operation])
    | width hwrong => exact hwrong (hwidth row hmem)
    | orphan _ hnone =>
        have howned : after ∈ planned.owned rows := mem_filter.mpr ⟨hafter, hbefore.startLsn ▸ howns⟩
        exact hnone after howned hop' ⟨hbefore.startLsn, hbefore.seqval⟩

end Changes

/-! ## Events of a stream -/

namespace ChangeStream

section Events

variable {answer : (r : CaptureRequest) → r.Answer} {planned : PlannedWindow} {rows : List ChangeRow}
  {stream : ChangeStream}

theorem reads_inputOf {i : Nat} {input : MergeInput ChangeRow}
    (hinput : [inputOf (fun _ => rows) planned.window][i]? = some input) : input.cursor.Reads rows := by
  rw [mem_singleton.mp (mem_of_getElem? hinput)]
  exact ⟨prefix_rfl, fun _ => rfl⟩

/-- Rows that complete changes of a window give them, if no row of it has a fault. -/
theorem Begun.exists_record (h : Begun [planned] (fun _ => rows) stream)
    (hsorted : rows.Pairwise fun r s => r.compareKeys s = .lt)
    (hfine : ∀ row ∈ planned.owned rows, ¬ Faulty planned (planned.owned rows) row) {row : ChangeRow}
    (hrow : row ∈ rows) (howns : planned.window.owns row.startLsn) (hcompletes : row.Completes) :
    ∃ record ∈ stream.drain.1, record.offset = row.offset planned.window.label := by
  obtain ⟨records, hrecords⟩ := Reference.exists_of_not_faulty (hsorted.filter _) hfine
  have hall : ∀ p ∈ [planned], Reference p (p.owned rows) (Function.const _ records p) :=
    forall_mem_singleton.mpr hrecords
  obtain ⟨hend, _⟩ := h.drain_of_references (fun _ _ => hsorted) hall
  have hcovers := h.opened.covers (nodup_singleton _) (fun _ => hsorted)
    (fun _ _ _ _ hinput => reads_inputOf hinput) (mem_singleton_self _) hrow howns hcompletes
  rcases hcovers with hmem | ⟨hfailed, _⟩
  · exact mem_map.mp hmem
  · rw [hend] at hfailed
    cases hfailed

/-- A change of a window is told from its rows. -/
theorem Begun.stands (h : Begun [planned] (fun _ => rows) stream)
    (hsorted : rows.Pairwise fun r s => r.compareKeys s = .lt) {record : ChangeRecord .sqlserver}
    (hrecord : record ∈ stream.drain.1) : ∃ row ∈ rows, Stands planned rows row record := by
  obtain ⟨p, hp, row, hrow, _, hstands⟩ := h.opened.tells
    (fun state hstate => ⟨h.sound state hstate, h.fresh state hstate⟩) (fun _ => hsorted)
    (fun _ _ _ _ hinput => (reads_inputOf hinput).isPrefix) hrecord
  rw [h.planned_eq, mem_singleton] at hp
  exact ⟨row, hrow, hp ▸ hstands⟩

end Events

variable {answer : (r : CaptureRequest) → r.Answer} {window : SourceWindow} {live : List Column}
  {key : List String}

/-- A window whose schema was resolved is never refused for a column that is not captured. The event of each
of its changes shows every value that was captured under its name, for the columns that are still there. It
only fails if one of these values does, and the order of the columns does not matter. -/
theorem events_show_captured_values (hlive : (live.map Column.name).Nodup)
    (hcaptured : window.source.capturedColumns.Nodup)
    (hmeet : ∃ column ∈ live, column.name ∈ window.source.capturedColumns)
    (hcolumns : answer (.server (.tableColumns window.source.table)) =
      (Except.ok live : Except CaptureError (List Column)))
    (hkey : answer (.server (.keyColumns window.source.table)) =
      (Except.ok key : Except CaptureError (List String))) :
    ∃ schema, CaptureStep.outcome answer (Registry.resolveSchema window.source) = .ok schema ∧
      (∀ column p, CaptureStep.outcome answer (start [⟨window, schema⟩]) ≠
        .error (WindowState.notCaptured column p)) ∧
      (∀ rows : List ChangeRow, answer (.server (.changes window)) =
          (Except.ok { rows } : Except CaptureError (Cursor ChangeRow)) →
        (∀ row ∈ rows, row.values.length = window.source.capturedColumns.length) →
        (rows.Pairwise fun r s => r.compareKeys s = .lt) →
        ∃ stream, CaptureStep.outcome answer (start [⟨window, schema⟩]) = .ok stream ∧
          ((∀ row ∈ rows, window.owns row.startLsn →
              row.Completes ∨ ∃ after ∈ rows, after.operation = 4 ∧ row.IsBefore after) →
            ∀ row ∈ rows, window.owns row.startLsn → row.Completes →
              ∃ record ∈ stream.drain.1, record.offset = row.offset window.label) ∧
          ∀ record ∈ stream.drain.1, ∃ row ∈ rows, record.offset = row.offset window.label ∧
            ∃ old new, Images window.source rows row record.kind old new ∧
              ∀ database serial timestamp,
                ChangeRecord.ShowsChange (window.source.captured live) record.kind old new
                  (record.toEvent database schema serial timestamp) ∧
                ∀ values other, record.toEvent database schema serial timestamp ≠
                  .error (ChangeRecord.widthMismatch values other)) ∧
      ∀ (other : CaptureInstance) (live' : List Column) (row row' : ChangeRow) (object object' : Json),
        live ~ live' → row.values.length = window.source.capturedColumns.length →
        row'.values.length = other.capturedColumns.length →
        window.source.capturedColumns.zip row.values ~ other.capturedColumns.zip row'.values →
        Shows (window.source.captured live) (window.source.valueOf row) object →
        Shows (other.captured live') (other.valueOf row') object' → object = object' := by
  obtain ⟨schema, hschema, hperm⟩ := Registry.exists_resolved hcolumns hkey
  have hnamed : ∀ p ∈ [PlannedWindow.mk window schema], p.IsCaptured := by
    rw [forall_mem_singleton]
    intro column hcolumn
    simpa using (mem_filter.mp (hperm.subset hcolumn)).2
  have hnames : (schema.columns.map Column.name).Nodup := by
    rw [(hperm.map _).nodup_iff]
    exact hlive.sublist (filter_sublist.map _)
  have hsome : schema.columns ≠ [] := by
    obtain ⟨column, hcolumn, hname⟩ := hmeet
    exact ne_nil_of_mem (hperm.mem_iff.mpr (mem_filter.mpr ⟨hcolumn, by simpa using hname⟩))
  refine ⟨schema, hschema, start_ne_notCaptured hnamed, fun rows hrows hwidth hsorted => ?_, ?_⟩
  · obtain ⟨stream, hstream, hbegun⟩ := @exists_begun _ (fun _ => rows) answer hnamed
      (forall_mem_singleton.mpr hrows) fun _ _ => hsorted
    refine ⟨stream, hstream, fun hfine row hrow howns hcompletes => ?_, fun record hrecord => ?_⟩
    · exact hbegun.exists_record hsorted (not_faulty_of_completes hwidth hfine) hrow howns hcompletes
    · obtain ⟨row, hrow, hstands⟩ := hbegun.stands hsorted hrecord
      obtain ⟨old, new, himages, hold, hnew⟩ := hstands.exists_images
      refine ⟨row, hrow, hstands.offset_eq, old, new, himages, fun database serial timestamp => ?_⟩
      have hshows :=
        (ChangeRecord.showsChange_toEvent hsome hnames hold hnew database serial timestamp).congr hperm
      exact ⟨hshows, hshows.ne_widthMismatch⟩
  · -- names in another order, with their values, are looked up alike
    intro other live' row row' object object' hlive' hwidth hwidth' hvalues hshows hshows'
    have hother : window.source.capturedColumns ~ other.capturedColumns := by
      rw [← CaptureInstance.map_fst_zip_values hwidth, ← CaptureInstance.map_fst_zip_values hwidth']
      exact hvalues.map _
    refine hshows.unique (CaptureInstance.captured_perm hlive' hother) (fun column _ => ?_) hshows'
    rw [CaptureInstance.valueOf_eq_of_perm hcaptured hwidth hvalues]

namespace SampleStream

/-- Of these columns one came after the others had been captured in another order. -/
def liveColumns : List Column :=
  [{ name := "name", position := 3, typeName := "text" },
    { name := "amount", position := 2, typeName := "int" },
    { name := "id", position := 1, typeName := "int" }]

/-- A server that also tells the columns of its tables. -/
def describing (rows : SourceWindow → List ChangeRow) : (r : CaptureRequest) → r.Answer
  | .server (.tableColumns _) => (Except.ok liveColumns : Except CaptureError (List Column))
  | .server (.keyColumns _) => (Except.ok ["id"] : Except CaptureError (List String))
  | r => serving rows r

def inserted : ChangeRow := rowAt 5 2 1 "a"

end SampleStream

open ChangeStream.SampleStream in
theorem events_show_captured_values_of_sample : ∃ schema stream,
    CaptureStep.outcome (describing fun _ => [inserted]) (Registry.resolveSchema orders.window.source) =
      .ok schema ∧
    CaptureStep.outcome (describing fun _ => [inserted]) (start [⟨orders.window, schema⟩]) = .ok stream ∧
    ∃ record ∈ stream.drain.1, ∀ database serial timestamp,
      ChangeRecord.ShowsChange (orders.window.source.captured liveColumns) .insert none
        (some (orders.window.source.valueOf inserted))
        (record.toEvent database schema serial timestamp) := by
  have hmeet : ∃ column ∈ liveColumns, column.name ∈ orders.window.source.capturedColumns := by decide
  have hcolumns : describing (fun _ => [inserted]) (.server (.tableColumns orders.window.source.table)) =
    (Except.ok liveColumns : Except CaptureError (List Column)) := rfl
  obtain ⟨schema, hschema, _, hopened, _⟩ :=
    events_show_captured_values (by decide) (by decide) hmeet hcolumns rfl
  obtain ⟨stream, hstream, hyielded, hshown⟩ := hopened [inserted] rfl
    (forall_mem_singleton.mpr rfl) (pairwise_singleton _ _)
  have hcompletes : inserted.Completes := ⟨.insert, rfl, by decide⟩
  obtain ⟨record, hrecord, _⟩ := hyielded (forall_mem_singleton.mpr fun _ => .inl hcompletes) inserted
    (mem_singleton_self _) (by decide) hcompletes
  refine ⟨schema, stream, hschema, hstream, record, hrecord, ?_⟩
  obtain ⟨row, hrow, _, old, new, himages, hevents⟩ := hshown record hrecord
  rw [mem_singleton.mp hrow] at himages
  generalize record.kind = kind at himages hevents
  cases himages with
  | insert => exact fun database serial timestamp => (hevents database serial timestamp).1
  | delete hop | update hop | unpaired hop => cases hop

end ChangeStream

end ChangeCapture
