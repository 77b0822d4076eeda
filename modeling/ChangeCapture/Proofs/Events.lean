import ChangeCapture.Record.Event
import Mathlib.Data.List.Nodup

/-! # Objects of rows

The event of a change shows its rows as objects. These have a member for each column of the table, whose
value is looked up by the name of the column, in whatever order the columns are. -/

namespace ChangeCapture

open List

/-! ## Members of objects -/

namespace Json

/-- The names of some members are in strict order. -/
def Ascending (members : List (String × Json)) : Prop := members.Pairwise fun m n => m.1 < n.1

variable {name : String} {value : Json} {members object : List (String × Json)}

/-- No two of them have one name. -/
theorem Ascending.nodup_names (h : Ascending members) : (members.map Prod.fst).Nodup :=
  pairwise_map.mpr (h.imp fun hlt => String.ne_of_lt hlt)

theorem insertMember_perm (value : Json) (h : name ∉ members.map Prod.fst) :
    insertMember name value members ~ (name, value) :: members := by
  induction members with
  | nil => rfl
  | cons head members ih =>
      rw [map_cons, mem_cons, not_or] at h
      unfold insertMember
      split
      · rfl
      · exact absurd (Std.compare_eq_iff_eq.mp ‹_›) h.1
      · exact ((ih h.2).cons head).trans (.swap _ _ _)

theorem ascending_insertMember (value : Json) (hascending : Ascending members)
    (h : name ∉ members.map Prod.fst) : Ascending (insertMember name value members) := by
  induction members with
  | nil => exact pairwise_singleton _ _
  | cons head members ih =>
      obtain ⟨hhead, htail⟩ := pairwise_cons.mp hascending
      rw [map_cons, mem_cons, not_or] at h
      unfold insertMember
      split
      · have hlt : name < head.1 := compareOfLessAndEq_eq_lt.mp ‹_›
        exact hascending.cons (forall_mem_cons.mpr ⟨hlt, fun m hm => String.lt_trans hlt (hhead m hm)⟩)
      · exact absurd (Std.compare_eq_iff_eq.mp ‹_›) h.1
      · refine (ih htail h.2).cons fun m hm => ?_
        rcases mem_cons.mp ((insertMember_perm value h.2).mem_iff.mp hm) with rfl | hm
        · have hgt : compare head.1 name = .lt := Std.OrientedCmp.lt_of_gt ‹_›
          exact compareOfLessAndEq_eq_lt.mp hgt
        · exact hhead m hm

theorem foldl_insertMember (hnames : ((members ++ object).map Prod.fst).Nodup)
    (hascending : Ascending object) :
    members.foldl (fun object m => insertMember m.1 m.2 object) object ~ members ++ object ∧
      Ascending (members.foldl (fun object m => insertMember m.1 m.2 object) object) := by
  induction members generalizing object with
  | nil => exact ⟨.rfl, hascending⟩
  | cons head members ih =>
      have hnew : head.1 ∉ object.map Prod.fst := by
        rw [cons_append, map_cons, nodup_cons, map_append, mem_append, not_or] at hnames
        exact hnames.1.2
      have hmove : members ++ insertMember head.1 head.2 object ~ head :: members ++ object :=
        ((insertMember_perm head.2 hnew).append_left members).trans perm_middle
      obtain ⟨hperm, hsorted⟩ := ih ((hmove.map Prod.fst).nodup_iff.mpr hnames)
        (ascending_insertMember head.2 hascending hnew)
      exact ⟨hperm.trans hmove, hsorted⟩

/-- Members of different names are all in their object. -/
theorem exists_ofMembers (hnames : (members.map Prod.fst).Nodup) :
    ∃ object, ofMembers members = .object object ∧ object ~ members ∧ Ascending object := by
  obtain ⟨hperm, hascending⟩ := foldl_insertMember (by simpa using hnames) Pairwise.nil
  exact ⟨_, rfl, by simpa using hperm, hascending⟩

end Json

/-! ## Objects by name -/

/-- An object has one member for each of some columns, the normal form of what is under its name. -/
def Shows (columns : List Column) (value : String → Option RawValue) (object : Json) : Prop :=
  ∃ members, object = .object members ∧ Json.Ascending members ∧
    members.map Prod.fst ~ columns.map Column.name ∧
    ∀ column ∈ columns, ∃ json, (column.name, json) ∈ members ∧
      Value.normalize column (value column.name) = .ok json

namespace Shows

variable {columns columns' : List Column} {value value' : String → Option RawValue} {object object' : Json}

theorem congr (h : Shows columns value object) (hcolumns : columns ~ columns') :
    Shows columns' value object := by
  obtain ⟨members, hobject, hascending, hnames, hvalues⟩ := h
  refine ⟨members, hobject, hascending, hnames.trans (hcolumns.map _), fun column hcolumn => ?_⟩
  exact hvalues column (hcolumns.mem_iff.mpr hcolumn)

theorem rel_congr {image : Option (String → Option RawValue)} {shown : Option Json}
    (h : Option.Rel (Shows columns) image shown) (hcolumns : columns ~ columns') :
    Option.Rel (Shows columns') image shown := by
  cases h with
  | none => exact .none
  | some h => exact .some (h.congr hcolumns)

theorem exists_mem_iff (h : Shows columns value object) : ∃ members, object = .object members ∧
    Json.Ascending members ∧ ∀ m, m ∈ members ↔
      ∃ column ∈ columns, column.name = m.1 ∧ Value.normalize column (value column.name) = .ok m.2 := by
  obtain ⟨members, hobject, hascending, hnames, hvalues⟩ := h
  refine ⟨members, hobject, hascending, fun m => ⟨fun hm => ?_, ?_⟩⟩
  · obtain ⟨column, hcolumn, hname⟩ := mem_map.mp (hnames.subset (mem_map_of_mem hm))
    obtain ⟨json, hjson, hnormal⟩ := hvalues column hcolumn
    rw [← inj_on_of_nodup_map hascending.nodup_names hjson hm hname]
    exact ⟨column, hcolumn, rfl, hnormal⟩
  · rintro ⟨column, hcolumn, hname, hnormal⟩
    obtain ⟨json, hjson, hother⟩ := hvalues column hcolumn
    cases hnormal.symm.trans hother
    obtain ⟨name, _⟩ := m
    cases hname
    exact hjson

/-- An object is made up by what it shows. The order of the columns does not matter. -/
theorem unique (hcolumns : columns ~ columns')
    (hvalue : ∀ column ∈ columns, value column.name = value' column.name)
    (h : Shows columns value object) (h' : Shows columns' value' object') : object = object' := by
  obtain ⟨members, rfl, hascending, hmem⟩ := h.exists_mem_iff
  obtain ⟨members', rfl, hascending', hmem'⟩ := h'.exists_mem_iff
  have hperm : members ~ members' := by
    rw [perm_ext_iff_of_nodup hascending.nodup_names.of_map hascending'.nodup_names.of_map]
    intro m
    rw [hmem, hmem']
    refine exists_congr fun column => ?_
    rw [← hcolumns.mem_iff]
    exact and_congr_right fun hcolumn => by rw [hvalue column hcolumn]
  rw [hperm.eq_of_pairwise (fun m n _ _ hlt hgt => absurd hlt (String.lt_asymm hgt)) hascending hascending']

end Shows

/-! ## Rows -/

/-- A text that denotes no value of its column is reported with the column. -/
theorem Value.exists_schema_of_ofText {column : Column} {kind : ColumnKind} {text : List Char}
    {e : CaptureError} (h : ofText column kind text = .error e) : ∃ message, e = .schema message := by
  have hvalue {what : String} {value : Option Json} (h : column.valueOf what text value = .error e) :
      ∃ message, e = .schema message := by
    cases value with
    | some json => cases h
    | none =>
        cases h
        exact ⟨_, rfl⟩
  unfold ofText at h
  cases kind with
  | text | other => cases h
  | integer | decimal | float | boolean | binary | date | time | timestamp | timestampTz | uuid =>
      exact hvalue h

theorem Expression.exists_schema_of_firstLiteral {arguments expr : List Char} {e : CaptureError}
    (h : firstLiteral arguments expr = .error e) : ∃ message, e = .schema message := by
  unfold firstLiteral at h
  split at h
  · split at h
    · cases h
    · cases h
      exact ⟨_, rfl⟩
  · cases h
    exact ⟨_, rfl⟩

theorem Expression.exists_schema_of_content {source : List Char} {e : CaptureError}
    (h : content source = .error e) : ∃ message, e = .schema message := by
  have hbind {arguments expr : List Char} {f : List Char → Except CaptureError Content}
      (h : (firstLiteral arguments expr >>= f) = .error e)
      (hf : ∀ body, f body = .error e → ∃ message, e = .schema message) :
      ∃ message, e = .schema message := by
    cases hfirst : firstLiteral arguments expr with
    | error e' =>
        rw [hfirst] at h
        cases h
        exact exists_schema_of_firstLiteral hfirst
    | ok body =>
        rw [hfirst] at h
        exact hf body h
  unfold content at h
  dsimp only at h
  split at h
  · exact hbind (f := fun body => .ok (.text body)) h fun _ h => by cases h
  · split at h
    · refine hbind h fun body h => ?_
      split at h
      · cases h
      · cases h
        exact ⟨_, rfl⟩
    · split at h
      · refine hbind h fun body h => ?_
        split at h
        · cases h
        · cases h
          exact ⟨_, rfl⟩
      · split_ifs at h

/-- A value that has no normal form does not fit its column. -/
theorem Value.exists_schema_of_normalize {column : Column} {value : Option RawValue} {e : CaptureError}
    (h : normalize column value = .error e) : ∃ message, e = .schema message := by
  unfold normalize at h
  cases value with
  | none => cases h
  | some value =>
    cases value with
    | text s => exact exists_schema_of_ofText h
    | literal body => exact exists_schema_of_ofText h
    | binary | integer | float | boolean | timestamp => cases h
    | expression source =>
      dsimp only at h
      cases hcontent : Expression.content source.toList with
      | error e' =>
          rw [hcontent] at h
          cases h
          exact Expression.exists_schema_of_content hcontent
      | ok content =>
          rw [hcontent] at h
          cases content with
          | text text => exact exists_schema_of_ofText h
          | bytes | null => cases h

namespace ChangeRecord

variable {b : Backend} {schema : TableSchema} {columns : List Column} {value : String → Option RawValue}
  {e : CaptureError}

theorem names_of_rowMembers {members : List (String × Json)}
    (h : rowMembers columns (columns.map fun column => value column.name) = .ok members) :
    members.map Prod.fst = columns.map Column.name ∧ ∀ column ∈ columns,
      ∃ json, (column.name, json) ∈ members ∧ Value.normalize column (value column.name) = .ok json := by
  induction columns generalizing members with
  | nil =>
      cases h
      exact ⟨rfl, forall_mem_nil _⟩
  | cons column columns ih =>
      rw [map_cons, rowMembers] at h
      cases hnormal : Value.normalize column (value column.name) with
      | error e =>
          rw [hnormal] at h
          cases h
      | ok json =>
          cases hrest : rowMembers columns (columns.map fun column => value column.name) with
          | error e =>
              rw [hnormal, hrest] at h
              cases h
          | ok rest =>
              rw [hnormal, hrest] at h
              cases h
              obtain ⟨hnames, hvalues⟩ := ih hrest
              refine ⟨by rw [map_cons, map_cons, hnames], forall_mem_cons.mpr ⟨?_, ?_⟩⟩
              · exact ⟨json, mem_cons_self, hnormal⟩
              · intro other hother
                obtain ⟨json, hjson, hnormal⟩ := hvalues other hother
                exact ⟨json, mem_cons_of_mem _ hjson, hnormal⟩

theorem exists_of_rowMembers_error
    (h : rowMembers columns (columns.map fun column => value column.name) = .error e) :
    ∃ column ∈ columns, Value.normalize column (value column.name) = .error e := by
  induction columns with
  | nil => cases h
  | cons column columns ih =>
      rw [map_cons, rowMembers] at h
      cases hnormal : Value.normalize column (value column.name) with
      | error e' =>
          rw [hnormal] at h
          cases h
          exact ⟨column, mem_cons_self, hnormal⟩
      | ok json =>
          rw [hnormal] at h
          cases hrest : rowMembers columns (columns.map fun column => value column.name) with
          | ok members =>
              rw [hrest] at h
              cases h
          | error e' =>
              rw [hrest] at h
              cases h
              obtain ⟨other, hother, hfailed⟩ := ih hrest
              exact ⟨other, mem_cons_of_mem _ hother, hfailed⟩

/-- What is known of a row by name, in the order of the schema. -/
def rowOf (schema : TableSchema) : Option (String → Option RawValue) → Row
  | none => []
  | some value => schema.columns.map fun column => value column.name

/-- A row that is known is shown by an object, unless one of its values has no normal form. -/
theorem rowObject_rowOf (hsome : schema.columns ≠ []) (hnames : (schema.columns.map Column.name).Nodup)
    (image : Option (String → Option RawValue)) :
    (∃ object, rowObject schema (rowOf schema image) = .ok object ∧
      Option.Rel (Shows schema.columns) image object) ∨
    ∃ e, rowObject schema (rowOf schema image) = .error e ∧
      ∃ column ∈ schema.columns, ∃ value ∈ image, Value.normalize column (value column.name) = .error e := by
  cases image with
  | none => exact .inl ⟨none, rfl, .none⟩
  | some value =>
      have hrow : rowObject schema (rowOf schema (some value)) =
          (rowMembers schema.columns (schema.columns.map fun column => value column.name)).map
            fun members => some (Json.ofMembers members) := by
        rw [rowObject, rowOf, if_neg (by simpa using hsome), if_pos (by rw [length_map, TableSchema.width])]
      rw [hrow]
      cases hmembers : rowMembers schema.columns (schema.columns.map fun column => value column.name) with
      | error e =>
          obtain ⟨column, hcolumn, hfailed⟩ := exists_of_rowMembers_error hmembers
          exact .inr ⟨e, rfl, column, hcolumn, value, rfl, hfailed⟩
      | ok members =>
          obtain ⟨heq, hvalues⟩ := names_of_rowMembers hmembers
          obtain ⟨object, hobject, hperm, hascending⟩ := Json.exists_ofMembers (heq ▸ hnames)
          refine .inl ⟨some (.object object), by rw [← hobject]; rfl, .some ⟨object, rfl, hascending, ?_, ?_⟩⟩
          · rw [← heq]
            exact hperm.map _
          · intro column hcolumn
            obtain ⟨json, hjson, hnormal⟩ := hvalues column hcolumn
            exact ⟨json, hperm.mem_iff.mpr hjson, hnormal⟩

/-- The event of a record shows what is known of the rows before and after the change. It has no failures
but those of single values. -/
structure ShowsChange (columns : List Column) (kind : ChangeKind) (old new : Option (String → Option RawValue))
    (result : Except CaptureError ChangeEvent) : Prop where
  ok : ∀ event, result = .ok event → event.kind = kind ∧
    Option.Rel (Shows columns) old event.before ∧ Option.Rel (Shows columns) new event.after
  error : ∀ e, result = .error e → ∃ column ∈ columns, ∃ value, (value ∈ old ∨ value ∈ new) ∧
    Value.normalize column (value column.name) = .error e

namespace ShowsChange

variable {columns' : List Column} {kind : ChangeKind} {old new : Option (String → Option RawValue)}
  {result : Except CaptureError ChangeEvent}

theorem congr (h : ShowsChange columns kind old new result) (hcolumns : columns ~ columns') :
    ShowsChange columns' kind old new result := by
  refine ⟨fun event hevent => ?_, fun e he => ?_⟩
  · obtain ⟨hkind, hbefore, hafter⟩ := h.ok event hevent
    exact ⟨hkind, Shows.rel_congr hbefore hcolumns, Shows.rel_congr hafter hcolumns⟩
  · obtain ⟨column, hcolumn, hfailed⟩ := h.error e he
    exact ⟨column, hcolumns.mem_iff.mp hcolumn, hfailed⟩

/-- There are never too many or too few values. -/
theorem ne_widthMismatch (h : ShowsChange columns kind old new result) (values : Nat) (other : TableSchema) :
    result ≠ .error (widthMismatch values other) := by
  intro hresult
  obtain ⟨column, _, value, _, hfailed⟩ := h.error _ hresult
  obtain ⟨message, he⟩ := Value.exists_schema_of_normalize hfailed
  cases he

end ShowsChange

theorem showsChange_toEvent {record : ChangeRecord b} {old new : Option (String → Option RawValue)}
    (hsome : schema.columns ≠ []) (hnames : (schema.columns.map Column.name).Nodup)
    (hold : record.old = rowOf schema old) (hnew : record.new = rowOf schema new)
    (database : String) (serial : Nat) (timestamp : Int) :
    ShowsChange schema.columns record.kind old new (record.toEvent database schema serial timestamp) := by
  unfold toEvent
  rw [hold, hnew]
  rcases rowObject_rowOf hsome hnames old with
    ⟨before, hbefore, hrel⟩ | ⟨e, hbefore, column, hcolumn, value, hvalue, hfailed⟩
  · rcases rowObject_rowOf hsome hnames new with
      ⟨after, hafter, hrel'⟩ | ⟨e, hafter, column, hcolumn, value, hvalue, hfailed⟩
    · rw [hbefore, hafter]
      refine ⟨fun event hevent => ?_, fun _ he => nomatch he⟩
      cases hevent
      exact ⟨rfl, hrel, hrel'⟩
    · rw [hbefore, hafter]
      refine ⟨fun _ hevent => (nomatch hevent), fun e' he => ?_⟩
      cases he
      exact ⟨column, hcolumn, value, .inr hvalue, hfailed⟩
  · rw [hbefore]
    refine ⟨fun _ hevent => (nomatch hevent), fun e' he => ?_⟩
    cases he
    exact ⟨column, hcolumn, value, .inl hvalue, hfailed⟩

end ChangeRecord

end ChangeCapture
