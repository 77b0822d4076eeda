import ChangeCapture.Proofs.Statement.Reading
import ChangeCapture.Statement.Images
import Mathlib.Data.List.TakeDrop

/-! # Values stand in the places of their columns -/

namespace ChangeCapture

/-! ## Columns by name -/

namespace TableSchema

variable {schema : TableSchema} {name : String} {index : Nat}

/-- The name stands for the column at the index. Of columns that share a name it is the first. -/
def Names (schema : TableSchema) (name : String) (index : Nat) : Prop :=
  schema.columnNames[index]? = some name ∧ ∀ earlier < index, schema.columnNames[earlier]? ≠ some name

instance : Decidable (schema.Names name index) := inferInstanceAs (Decidable (_ ∧ _))

theorem columnIndex?_eq_some : schema.columnIndex? name = some index ↔ schema.Names name index := by
  simp only [columnIndex?, Names, columnNames, List.findIdx?_eq_some_iff_getElem, beq_iff_eq,
    List.getElem?_map, Option.map_eq_some_iff, List.getElem?_eq_some_iff]
  grind

theorem exists_columnIndex? (h : name ∈ schema.columnNames) :
    ∃ index, schema.columnIndex? name = some index := by
  obtain ⟨column, hcolumn, hname⟩ := List.mem_map.mp h
  refine Option.ne_none_iff_exists'.mp fun hnone => ?_
  have hother := List.findIdx?_eq_none_iff.mp hnone column hcolumn
  simp [hname] at hother

theorem columnIndex?_eq_none (h : name ∉ schema.columnNames) : schema.columnIndex? name = none := by
  refine List.findIdx?_eq_none_iff.mpr fun column hcolumn => ?_
  exact beq_false_of_ne fun hname => h (List.mem_map.mpr ⟨column, hcolumn, hname⟩)

/-- A name stands for one column at most. -/
theorem names_iff {place : Nat} (h : schema.columnIndex? name = some place) :
    schema.Names name index ↔ place = index := by
  rw [← columnIndex?_eq_some, h, Option.some.injEq]

end TableSchema

namespace Statement

/-! ## Assigned values -/

/-- The last of the pairs' values for the column at an index, if they name that column. -/
def lastValue? (schema : TableSchema) (pairs : List (String × ValueToken)) (index : Nat) :
    Option ValueToken :=
  ((pairs.filter fun pair => schema.Names pair.1 index).getLast?).map Prod.snd

/-- The row with the values that are given for its slots; what is given may be unknown. -/
def overlay (row : Row) (value? : Nat → Option ValueToken) : Row :=
  row.mapIdx fun index value => (value? index).elim value ValueToken.toRaw

section Assign

variable {schema : TableSchema} {pairs : List (String × ValueToken)}

theorem lastValue?_cons (pair : String × ValueToken) (index : Nat) :
    lastValue? schema (pair :: pairs) index =
      (lastValue? schema pairs index).or (if schema.Names pair.1 index then some pair.2 else none) := by
  by_cases hnames : schema.Names pair.1 index
  · simp only [lastValue?, List.filter_cons, hnames, decide_true, if_true, List.getLast?_cons]
    cases (pairs.filter fun pair => schema.Names pair.1 index).getLast? <;> rfl
  · simp [lastValue?, hnames]

theorem getElem?_overlay (row : Row) (value? : Nat → Option ValueToken) (index : Nat) :
    (overlay row value?)[index]? =
      row[index]?.map fun value => (value? index).elim value ValueToken.toRaw :=
  List.getElem?_mapIdx

@[simp] theorem length_overlay (row : Row) (value? : Nat → Option ValueToken) :
    (overlay row value?).length = row.length :=
  List.length_mapIdx

/-- A slot holds the value that is given for it, or what it held before. -/
theorem eq_of_getElem?_overlay {row : Row} {value? : Nat → Option ValueToken} {index : Nat}
    {value : Option RawValue} (h : (overlay row value?)[index]? = some value) :
    (∃ token, value? index = some token ∧ value = token.toRaw) ∨
      value? index = none ∧ row[index]? = some value := by
  rw [getElem?_overlay] at h
  obtain ⟨before, hbefore, rfl⟩ := Option.map_eq_some_iff.mp h
  cases value? index with
  | none => exact .inr ⟨rfl, hbefore⟩
  | some token => exact .inl ⟨token, rfl, rfl⟩

/-- Of several values for one column the last stays. -/
theorem assign_known (hknown : ∀ pair ∈ pairs, pair.1 ∈ schema.columnNames) (row : Row) :
    assign schema row pairs = .ok (overlay row (lastValue? schema pairs)) := by
  induction pairs generalizing row with
  | nil =>
      have hkeep : row.mapIdx (fun _ value => value) = row :=
        List.mapIdx_eq_iff.mpr fun index => Option.map_id'.symm
      exact congrArg Except.ok hkeep.symm
  | cons pair pairs ih =>
      obtain ⟨hpair, hpairs⟩ := List.forall_mem_cons.mp hknown
      obtain ⟨place, hplace⟩ := TableSchema.exists_columnIndex? hpair
      simp only [assign, hplace, ih hpairs]
      congr 1
      refine List.ext_getElem? fun index => ?_
      rw [getElem?_overlay, getElem?_overlay, List.getElem?_set, lastValue?_cons]
      by_cases hindex : place = index
      · rw [if_pos hindex, if_pos ((TableSchema.names_iff hplace).mpr hindex)]
        subst hindex
        cases lastValue? schema pairs place <;> grind
      · rw [if_neg hindex, if_neg (mt (TableSchema.names_iff hplace).mp hindex), Option.or_none]

theorem assign_unknown (hunknown : ∃ pair ∈ pairs, pair.1 ∉ schema.columnNames) (row : Row) :
    ∃ column, assign schema row pairs = .error (unknownColumn column schema.id) := by
  induction pairs generalizing row with
  | nil => simp at hunknown
  | cons pair pairs ih =>
      by_cases hpair : pair.1 ∈ schema.columnNames
      · obtain ⟨place, hplace⟩ := TableSchema.exists_columnIndex? hpair
        simp only [assign, hplace]
        exact ih (by simpa [hpair] using hunknown) _
      · exact ⟨pair.1, by simp only [assign, TableSchema.columnIndex?_eq_none hpair]⟩

end Assign

/-! ## Accepted statements -/

/-- An insertion has no condition, a change names the columns that it sets, and a deletion assigns
nothing. -/
def WellFormed (statement : Statement) : Prop :=
  match statement.operation with
  | .insert => statement.predicates = none
  | .update => ∃ pairs, statement.assignments = .named pairs
  | .delete => statement.assignments = .named []

theorem wellFormed_of_insertion {input : Input} {result : Statement × Input}
    (h : input.insertion = .ok result) : result.1.WellFormed := by
  simp only [Input.insertion, bind_eq_ok] at h
  obtain ⟨_, _, _, _, _, _, _, _, _, _, _, _, hresult⟩ := h
  cases hresult
  rfl

theorem wellFormed_of_change {input : Input} {result : Statement × Input}
    (h : input.change = .ok result) : result.1.WellFormed := by
  simp only [Input.change, bind_eq_ok] at h
  obtain ⟨_, _, _, _, read, _, _, _, hresult⟩ := h
  cases hresult
  exact ⟨read.1, rfl⟩

theorem wellFormed_of_deletion {input : Input} {result : Statement × Input}
    (h : input.deletion = .ok result) : result.1.WellFormed := by
  simp only [Input.deletion, bind_eq_ok] at h
  obtain ⟨_, _, _, _, hresult⟩ := h
  cases hresult
  rfl

theorem wellFormed_of_statement {input : Input} {result : Statement × Input}
    (h : input.statement = .ok result) : result.1.WellFormed := by
  unfold Input.statement at h
  split at h
  · obtain ⟨_, _, hinsertion⟩ := bind_eq_ok.mp h
    exact wellFormed_of_insertion hinsertion
  · split at h
    · exact wellFormed_of_change h
    · split at h
      · obtain ⟨_, _, hdeletion⟩ := bind_eq_ok.mp h
        exact wellFormed_of_deletion hdeletion
      · cases h

theorem wellFormed_of_parse {sql : String} {statement : Statement} (h : parse sql = .ok statement) :
    statement.WellFormed := by
  have hbody := (parse_eq_ok.mp h).2
  simp only [parseBody, bind_eq_ok] at hbody
  obtain ⟨read, hread, _, _, hresult⟩ := hbody
  cases hresult
  exact wellFormed_of_statement hread

end Statement

/-! ## Rows -/

namespace Assignments

/-- The columns that are listed or set by name. -/
def columns : Assignments → List String
  | .named pairs => pairs.map Prod.fst
  | .positional _ => []

/-- The value that is listed or set for the column at an index. -/
def value? (schema : TableSchema) : Assignments → Nat → Option ValueToken
  | .named pairs, index => Statement.lastValue? schema pairs index
  | .positional values, index => values[index]?

end Assignments

namespace Statement

/-- The predicates of the condition, if there is one. -/
def conditions (statement : Statement) : List (String × ValueToken) := statement.predicates.getD []

/-- The statement is about the table and about columns that the table has. -/
structure Fits (statement : Statement) (schema : TableSchema) : Prop where
  schema_eq : statement.schema = schema.id.schema
  table_eq : statement.table = schema.id.table
  assigned : ∀ column ∈ statement.assignments.columns, column ∈ schema.columnNames
  compared : ∀ pair ∈ statement.conditions, pair.1 ∈ schema.columnNames
  /-- Without a list of columns there is one value for each of them. -/
  width_eq : ∀ values, statement.operation = .insert → statement.assignments = .positional values →
    values.length = schema.width

theorem Fits.known_of_named {statement : Statement} {schema : TableSchema}
    {pairs : List (String × ValueToken)} (h : statement.Fits schema)
    (hpairs : statement.assignments = .named pairs) : ∀ pair ∈ pairs, pair.1 ∈ schema.columnNames := by
  intro pair hpair
  refine h.assigned pair.1 ?_
  rw [hpairs]
  exact List.mem_map_of_mem hpair

/-- The rows hold what the statement says about each column. -/
structure Shows (statement : Statement) (schema : TableSchema) (rows : RowImages) : Prop where
  operation_eq : rows.operation = statement.operation
  old_length : rows.old.length = if statement.operation = .insert then 0 else schema.width
  new_length : rows.new.length = if statement.operation = .delete then 0 else schema.width
  /-- Before: the last value of the condition. -/
  old : ∀ index value, rows.old[index]? = some value →
    value = (lastValue? schema statement.conditions index).bind ValueToken.toRaw
  /-- After an insertion: the last value listed. -/
  inserted : statement.operation = .insert → ∀ index value, rows.new[index]? = some value →
    value = (statement.assignments.value? schema index).bind ValueToken.toRaw
  /-- After a change: the last value set, which may be unknown, or else the value before. -/
  updated : statement.operation = .update → ∀ index value, rows.new[index]? = some value →
    (∃ token, statement.assignments.value? schema index = some token ∧ value = token.toRaw) ∨
      statement.assignments.value? schema index = none ∧ rows.old[index]? = some value

section Rows

variable {schema : TableSchema} {statement : Statement}

@[simp] theorem length_emptyRow : (emptyRow schema).length = schema.width := List.length_replicate

/-- What is not given for an empty row is unknown. -/
theorem eq_of_getElem?_overlay_emptyRow {value? : Nat → Option ValueToken} {index : Nat}
    {value : Option RawValue} (h : (overlay (emptyRow schema) value?)[index]? = some value) :
    value = (value? index).bind ValueToken.toRaw := by
  rcases eq_of_getElem?_overlay h with ⟨token, htoken, rfl⟩ | ⟨hnone, hempty⟩
  · rw [htoken, Option.bind_some]
  · rw [hnone, Option.bind_none]
    exact List.eq_of_mem_replicate (List.mem_of_getElem? hempty)

theorem insertedRow_fits (hfits : statement.Fits schema) (hinsert : statement.operation = .insert) :
    insertedRow schema statement.assignments =
      .ok (overlay (emptyRow schema) (statement.assignments.value? schema)) := by
  cases hassignments : statement.assignments with
  | named pairs => exact assign_known (hfits.known_of_named hassignments) _
  | positional values =>
      have hwidth := hfits.width_eq values hinsert hassignments
      rw [insertedRow, if_pos hwidth]
      congr 1
      refine List.ext_getElem? fun index => ?_
      simp only [getElem?_overlay, emptyRow, List.getElem?_replicate, List.getElem?_map,
        Assignments.value?, ← hwidth]
      by_cases hindex : index < values.length
      · simp [hindex]
      · simp [hindex]

/-- Once the condition has given the row before, what is left depends on the operation alone. -/
theorem images_eq {old : Row}
    (htarget : statement.schema = schema.id.schema ∧ statement.table = schema.id.table)
    (hold : assign schema (emptyRow schema) statement.conditions = .ok old) :
    statement.images schema =
      match statement.operation with
      | .insert => (insertedRow schema statement.assignments).map fun new => ⟨.insert, [], new⟩
      | .update => (updatedRow schema old statement.assignments).map fun new => ⟨.update, old, new⟩
      | .delete => .ok ⟨.delete, old, []⟩ := by
  rw [conditions] at hold
  rw [images, if_pos htarget, hold]
  cases statement.operation with
  | insert => cases insertedRow schema statement.assignments <;> rfl
  | update =>
      cases hnew : updatedRow schema old statement.assignments <;>
        simp only [bind, Except.bind, hnew] <;> rfl
  | delete => rfl

theorem images_of_fits (hform : statement.WellFormed) (hfits : statement.Fits schema) :
    ∃ rows, statement.images schema = .ok rows ∧ statement.Shows schema rows := by
  rw [images_eq ⟨hfits.schema_eq, hfits.table_eq⟩ (assign_known hfits.compared _)]
  cases hoperation : statement.operation with
  | insert =>
      refine ⟨_, congrArg (Except.map _) (insertedRow_fits hfits hoperation), ?_⟩
      exact { operation_eq := hoperation.symm
              old_length := by simp [hoperation]
              new_length := by simp [hoperation]
              old := by simp
              inserted := fun _ _ _ => eq_of_getElem?_overlay_emptyRow
              updated := by simp [hoperation] }
  | update =>
      obtain ⟨pairs, hpairs⟩ : ∃ pairs, statement.assignments = .named pairs := by
        simpa only [WellFormed, hoperation] using hform
      rw [hpairs]
      refine ⟨_, congrArg (Except.map _) (assign_known (hfits.known_of_named hpairs) _), ?_⟩
      exact { operation_eq := hoperation.symm
              old_length := by simp [hoperation]
              new_length := by simp [hoperation]
              old := fun _ _ => eq_of_getElem?_overlay_emptyRow
              inserted := by simp [hoperation]
              updated := fun _ _ _ => hpairs ▸ eq_of_getElem?_overlay }
  | delete =>
      refine ⟨_, rfl, ?_⟩
      exact { operation_eq := hoperation.symm
              old_length := by simp [hoperation]
              new_length := by simp [hoperation]
              old := fun _ _ => eq_of_getElem?_overlay_emptyRow
              inserted := by simp [hoperation]
              updated := by simp [hoperation] }

/-- If all else fits, an assigned column is missing or the values are too few or too many. -/
theorem unfit_assignments (hfits : ¬ statement.Fits schema)
    (htarget : statement.schema = schema.id.schema ∧ statement.table = schema.id.table)
    (hcompared : ∀ pair ∈ statement.conditions, pair.1 ∈ schema.columnNames) :
    (∃ pairs, statement.assignments = .named pairs ∧ ∃ pair ∈ pairs, pair.1 ∉ schema.columnNames) ∨
      ∃ values, statement.operation = .insert ∧ statement.assignments = .positional values ∧
        values.length ≠ schema.width := by
  by_contra hnone
  simp only [not_or, not_exists, not_and, not_not] at hnone
  refine hfits ⟨htarget.1, htarget.2, fun column hcolumn => ?_, hcompared, hnone.2⟩
  cases hassignments : statement.assignments with
  | named pairs =>
      rw [hassignments] at hcolumn
      obtain ⟨pair, hpair, rfl⟩ := List.mem_map.mp hcolumn
      exact hnone.1 pairs hassignments pair hpair
  | positional values =>
      rw [hassignments] at hcolumn
      cases hcolumn

theorem images_of_not_fits (hform : statement.WellFormed) (hfits : ¬ statement.Fits schema) :
    ∃ message, statement.images schema = .error (.schemaMismatch message) := by
  by_cases htarget : statement.schema = schema.id.schema ∧ statement.table = schema.id.table
  swap
  · exact ⟨_, if_neg htarget⟩
  by_cases hcompared : ∀ pair ∈ statement.conditions, pair.1 ∈ schema.columnNames
  swap
  · obtain ⟨column, hold⟩ := assign_unknown (by simpa using hcompared) (emptyRow schema)
    rw [images, if_pos htarget]
    exact ⟨_, congrArg (· >>= _) hold⟩
  rw [images_eq htarget (assign_known hcompared _)]
  rcases unfit_assignments hfits htarget hcompared with
    ⟨pairs, hpairs, hunknown⟩ | ⟨values, hinsert, hvalues, hwidth⟩
  · rw [hpairs]
    cases hoperation : statement.operation with
    | insert =>
        obtain ⟨column, hnew⟩ := assign_unknown hunknown (emptyRow schema)
        exact ⟨_, congrArg (Except.map _) hnew⟩
    | update =>
        obtain ⟨column, hnew⟩ := assign_unknown hunknown _
        exact ⟨_, congrArg (Except.map _) hnew⟩
    | delete =>
        have hempty : statement.assignments = .named [] := by
          simpa only [WellFormed, hoperation] using hform
        cases hpairs.symm.trans hempty
        simp at hunknown
  · rw [hinsert, hvalues]
    exact ⟨_, congrArg (Except.map _) (if_neg hwidth)⟩

end Rows

section Sample

def sampleText : String :=
  "update \"S\".\"T\" set \"A\" = 'x', \"A\" = NULL where \"A\" = 'y' and \"B\" = 1 and \"B\" = '2'"

def sampleChange : Statement where
  operation := .update
  schema := "S"
  table := "T"
  assignments := .named [("A", .literal "x"), ("A", .null)]
  predicates := some [("A", .literal "y"), ("B", .expression "1"), ("B", .literal "2")]

def sampleTable (names : List String) : TableSchema where
  id := ⟨"db", "S", "T"⟩
  columns := names.map fun name => { name, position := 1, typeName := "NUMBER" }

theorem parse_sampleText : parse sampleText = .ok sampleChange := by
  have hname (name : String) (h : IsName name) : QuotedName name ("\"" ++ name ++ "\"") := ⟨h, rfl⟩
  have hassignments : Separated ", " WrittenAssignment _ _ :=
    .cons (.set (hname "A" (by decide)) (.literal ['x'])) (.last (.set (hname "A" (by decide)) .null))
  have hone : ValueToken.Written (.expression "1") "1" :=
    .number (by decide) (List.all_eq_true.mp (by decide))
  have hpredicates : Separated " and " WrittenPredicate _ _ :=
    .cons (.equals (hname "A" (by decide)) (.literal ['y']))
      (.cons (.equals (hname "B" (by decide)) hone)
        (.last (.equals (hname "B" (by decide)) (.literal ['2']))))
  have hwritten : sampleChange.Written sampleText :=
    .update (hname "S" (by decide)) (hname "T" (by decide)) hassignments (.present hpredicates)
  exact parse_of_written hwritten (by decide)

end Sample

/-- An accepted statement gives rows exactly where it fits the table, and the rows show what it says.
Elsewhere it is reported as a mismatch. -/
theorem aligns_iff_fits {sql : String} {statement : Statement} (h : parse sql = .ok statement)
    (schema : TableSchema) :
    ((∃ rows, parseImages sql schema = .ok rows) ↔ statement.Fits schema) ∧
      (¬ statement.Fits schema → ∃ message, parseImages sql schema = .error (.schemaMismatch message)) ∧
      ∀ rows, parseImages sql schema = .ok rows → statement.Shows schema rows := by
  have hform := wellFormed_of_parse h
  have himages : parseImages sql schema = statement.images schema := by
    rw [parseImages, h]
    rfl
  rw [himages]
  by_cases hfits : statement.Fits schema
  · obtain ⟨rows, hrows, hshows⟩ := images_of_fits hform hfits
    rw [hrows]
    refine ⟨⟨fun _ => hfits, fun _ => ⟨rows, rfl⟩⟩, fun hnot => absurd hfits hnot, ?_⟩
    rintro _ ⟨⟩
    exact hshows
  · obtain ⟨message, herror⟩ := images_of_not_fits hform hfits
    rw [herror]
    refine ⟨⟨fun ⟨_, hok⟩ => ?_, fun hyes => absurd hyes hfits⟩, fun _ => ⟨message, rfl⟩, by simp⟩
    cases hok

/-- A column that is set twice, the second time to null, and one that is compared twice. -/
theorem aligns_iff_fits_of_sample :
    parse sampleText = .ok sampleChange ∧
      (∃ rows, parseImages sampleText (sampleTable ["A", "B", "C"]) = .ok rows) ∧
      (∃ message, parseImages sampleText (sampleTable ["A", "C"]) = .error (.schemaMismatch message)) ∧
      ∀ rows, parseImages sampleText (sampleTable ["A", "B", "C"]) = .ok rows →
        sampleChange.Shows (sampleTable ["A", "B", "C"]) rows := by
  have hfits : sampleChange.Fits (sampleTable ["A", "B", "C"]) :=
    ⟨rfl, rfl, by decide, by decide, fun _ h => by cases h⟩
  have hunfit : ¬ sampleChange.Fits (sampleTable ["A", "C"]) := fun h =>
    absurd (h.compared ("B", .expression "1") (by decide)) (by decide)
  have hthree := aligns_iff_fits parse_sampleText (sampleTable ["A", "B", "C"])
  have htwo := aligns_iff_fits parse_sampleText (sampleTable ["A", "C"])
  exact ⟨parse_sampleText, hthree.1.mpr hfits, htwo.2.1 hunfit, hthree.2.2⟩

end Statement

end ChangeCapture
