import ChangeCapture.Proofs.Json.Reading
import ChangeCapture.Snapshot.State
import Mathlib.Data.List.Forall2

/-! # Progress that is kept

The progress of a first reading that was written to a file is the same when it is read again. -/

namespace ChangeCapture

open List Json

/-! ## Fields -/

namespace Json.Fields

variable {α : Type} {name other : String} {t : Tree} {fields : Fields} {value : Tree → Option α}

theorem get?_cons : Fields.get? ((other, t) :: fields) name value =
    if name = other then value t else fields.get? name value := by
  unfold get?
  by_cases h : name = other
  · simp [h]
  · simp [lookup_cons, beq_false_of_ne h, h]

theorem getOption?_cons : Fields.getOption? ((other, t) :: fields) name value =
    if name = other then t.toOption? value else fields.getOption? name value := by
  unfold getOption?
  by_cases h : name = other
  · simp [h]
  · simp [lookup_cons, beq_false_of_ne h, h]

end Json.Fields

/-- The fields of an object that has all of them in their order. -/
theorem Json.Tree.toFields?_object (fields : Fields) (h : (fields.map Prod.fst).Nodup) (optional : Nat) :
    (Tree.object (fields.map fun m => (some m.1, m.2))).toFields? (fields.map Prod.fst) optional =
      some fields := by
  have hnamed : (fields.map fun m => (some m.1, m.2)).mapM
      (fun m : Option String × Tree => m.1.map fun name => (name, m.2)) = some fields := by
    clear h
    induction fields with
    | nil => rfl
    | cons m fields ih =>
        rw [map_cons, mapM_cons, ih]
        rfl
  have hall : fields.filter (fun m => (fields.map Prod.fst).contains m.1) = fields := by
    rw [filter_eq_self]
    exact fun m hm => contains_iff_mem.mpr (mem_map_of_mem hm)
  rw [toFields?, hnamed]
  simp only [Option.bind_eq_bind, Option.bind_some, hall, if_pos h]

/-! ## Integers -/

theorem Json.Tree.toUInt64?_ofNat (n : Nat) : (Tree.number (.ofInt n)).toUInt64? =
    if n < UInt64.size then some n else none := by
  have hmin : Text.minInt64 ≤ (n : Int) := by
    rw [Text.minInt64]
    omega
  rw [toUInt64?, toIntIn?, NumberToken.toInt?_ofInt]
  by_cases h : n < UInt64.size
  · have hint : (n : Int) < UInt64.size := by exact_mod_cast h
    have hle : (n : Int) ≤ (UInt64.size - 1 : Nat) := by exact_mod_cast Nat.le_sub_one_of_lt h
    rw [if_pos ⟨hmin, hint⟩, if_pos h]
    simp only [Option.filter_some, Int.natCast_nonneg, decide_true, hle, Bool.and_self, if_true]
    rfl
  · have hint : ¬ (n : Int) < UInt64.size := by exact_mod_cast h
    rw [if_neg fun hand => hint hand.2, if_neg h]
    rfl

theorem Json.Tree.toInt64?_ofInt (n : Int) : (Tree.number (.ofInt n)).toInt64? =
    if Text.minInt64 ≤ n ∧ n ≤ Text.maxInt64 then some n else none := by
  have hsize : n ≤ Text.maxInt64 → n < UInt64.size := by
    have hlt : Text.maxInt64 < UInt64.size := by decide
    omega
  rw [toInt64?, toIntIn?, NumberToken.toInt?_ofInt]
  by_cases h : Text.minInt64 ≤ n ∧ n ≤ Text.maxInt64
  · rw [if_pos h, if_pos ⟨h.1, hsize h.2⟩]
    simp [h.1, h.2]
  · rw [if_neg h]
    split_ifs
    · rw [Option.filter_some, if_neg (by simpa using h)]
    · rfl

/-! ## Tables -/

namespace TableProgress

/-- The fields that the progress of a table is read as. -/
def fields (p : TableProgress) : Fields :=
  [("schema", .string (some p.schema)), ("table", .string (some p.table)),
    ("processed_rows", .number (.ofInt p.processedRows)), ("complete", .bool p.complete)]

def tree (p : TableProgress) : Tree := .object (p.fields.map fun m => (some m.1, m.2))

theorem readsAs (level : Nat) (p : TableProgress) : ReadsAs (indented level p.toJson) p.tree := by
  apply readsAs_object
  refine .cons ⟨rfl, ?_⟩ (.cons ⟨rfl, ?_⟩ (.cons ⟨rfl, ?_⟩ (.cons ⟨rfl, ?_⟩ .nil)))
  · exact readsAs_string p.schema
  · exact readsAs_string p.table
  · exact readsAs_integer p.processedRows
  · exact readsAs_bool p.complete

/-- The number of rows must fit into 64 bits. -/
theorem ofTree?_tree (p : TableProgress) :
    ofTree? p.tree = if p.processedRows < UInt64.size then some p else none := by
  have hfields : p.tree.toFields? ["schema", "table", "processed_rows", "complete"] 0 = some p.fields := by
    apply Tree.toFields?_object p.fields
    simp [fields]
  simp only [ofTree?, hfields, fields, Option.bind_eq_bind, Option.bind_some, Fields.get?_cons, if_pos,
    Tree.toString?, Tree.toBool?, Tree.toUInt64?_ofNat, String.reduceEq, if_false]
  split_ifs <;> rfl

end TableProgress

/-! ## All progress -/

namespace SnapshotState

/-- The fields that progress is read as. -/
def fields (state : SnapshotState) : Fields :=
  [("database", .string (some state.database)), ("snapshot_lsn", .string (some state.snapshotLsn)),
    ("tables", .object (state.tables.toList.map fun t => (some t.1, t.2.tree))),
    ("started_at", .number (.ofInt state.startedAt)),
    ("completed_at", state.completedAt.elim .null fun time => .number (.ofInt time))]

def tree (state : SnapshotState) : Tree := .object (state.fields.map fun m => (some m.1, m.2))

theorem readsAs (state : SnapshotState) : ReadsAs state.write state.tree := by
  apply readsAs_object
  refine .cons ⟨rfl, ?_⟩ (.cons ⟨rfl, ?_⟩ (.cons ⟨rfl, ?_⟩ (.cons ⟨rfl, ?_⟩ (.cons ⟨rfl, ?_⟩ .nil))))
  · exact readsAs_string state.database
  · exact readsAs_string state.snapshotLsn
  · apply readsAs_object
    rw [forall₂_map_left_iff, forall₂_map_right_iff]
    exact forall₂_same.mpr fun t _ => ⟨rfl, t.2.readsAs 2⟩
  · exact readsAs_integer state.startedAt
  · cases state.completedAt with
    | none => exact readsAs_null
    | some time => exact readsAs_integer time

/-- A map that is filled again from its entries. -/
theorem getElem?_foldl_insert_toList {α : Type} (map : Std.TreeMap String α) (key : String) :
    (map.toList.foldl (fun map t => map.insert t.1 t.2) (∅ : Std.TreeMap String α))[key]? = map[key]? := by
  have hfold (entries : List (String × α)) (map : Std.TreeMap String α) :
      entries.foldl (fun map t => map.insert t.1 t.2) map = map.insertMany entries := by
    induction entries generalizing map with
    | nil => rfl
    | cons t entries ih => rw [foldl_cons, ih, Std.TreeMap.insertMany_cons]
  rw [hfold, ← Std.TreeMap.ofList_eq_insertMany_empty]
  cases hget : map[key]? with
  | none =>
      apply Std.TreeMap.getElem?_ofList_of_contains_eq_false
      rw [Std.TreeMap.map_fst_toList_eq_keys, Std.TreeMap.contains_keys,
        Std.TreeMap.contains_eq_isSome_getElem?, hget, Option.isSome_none]
  | some value =>
      exact Std.TreeMap.getElem?_ofList_of_mem Std.compare_self Std.TreeMap.distinct_keys_toList
        (Std.TreeMap.mem_toList_iff_getElem?_eq_some.mpr hget)

/-- The numbers of rows fit into 64 bits, and so do the times. -/
structure Fits (state : SnapshotState) : Prop where
  tables : ∀ t ∈ state.tables.toList, t.2.processedRows < UInt64.size
  startedAt : Text.minInt64 ≤ state.startedAt ∧ state.startedAt ≤ Text.maxInt64
  completedAt : ∀ time, state.completedAt = some time → Text.minInt64 ≤ time ∧ time ≤ Text.maxInt64

/-- The entries of a tree of tables are those that were written, if their numbers fit. -/
theorem mapM_ofTree?_tree (entries : List (String × TableProgress)) :
    (entries.map fun t => (some t.1, t.2.tree)).mapM (fun m : Option String × Tree => do
      let name ← m.1
      let progress ← TableProgress.ofTree? m.2
      return (name, progress)) =
    if ∀ t ∈ entries, t.2.processedRows < UInt64.size then some entries else none := by
  induction entries with
  | nil => rfl
  | cons t entries ih =>
      rw [map_cons, mapM_cons, ih]
      simp only [TableProgress.ofTree?_tree, forall_mem_cons]
      by_cases ht : t.2.processedRows < UInt64.size
      · by_cases hentries : ∀ t ∈ entries, t.2.processedRows < UInt64.size
        · rw [if_pos ht, if_pos hentries, if_pos (And.intro ht hentries)]
          rfl
        · rw [if_pos ht, if_neg hentries, if_neg (fun h : _ ∧ _ => hentries h.2)]
          rfl
      · rw [if_neg ht, if_neg (fun h : _ ∧ _ => ht h.1)]
        rfl

theorem tablesOfTree?_tree (state : SnapshotState) :
    tablesOfTree? (.object (state.tables.toList.map fun t => (some t.1, t.2.tree))) =
      if ∀ t ∈ state.tables.toList, t.2.processedRows < UInt64.size then
        some (state.tables.toList.foldl (fun map t => map.insert t.1 t.2) ∅)
      else none := by
  rw [tablesOfTree?, mapM_ofTree?_tree]
  split_ifs <;> rfl

theorem toOption?_tree (state : SnapshotState) :
    (state.completedAt.elim Tree.null fun time => Tree.number (.ofInt time)).toOption? Tree.toInt64? =
      if ∀ time, state.completedAt = some time → Text.minInt64 ≤ time ∧ time ≤ Text.maxInt64 then
        some state.completedAt
      else none := by
  cases state.completedAt with
  | none => simp [Tree.toOption?]
  | some time =>
      have hone : (∀ t, some time = some t → Text.minInt64 ≤ t ∧ t ≤ Text.maxInt64) ↔
          Text.minInt64 ≤ time ∧ time ≤ Text.maxInt64 :=
        ⟨fun h => h time rfl, fun h t ht => Option.some.inj ht ▸ h⟩
      simp only [Option.elim_some, Tree.toOption?, Tree.toInt64?_ofInt, hone]
      split_ifs <;> rfl

/-- The progress with its map of tables filled again. -/
def refilled (state : SnapshotState) : SnapshotState :=
  { state with tables := state.tables.toList.foldl (fun map t => map.insert t.1 t.2) ∅ }

theorem ofTree?_tree_eq_some {state kept : SnapshotState} :
    ofTree? state.tree = some kept ↔ state.Fits ∧ state.refilled = kept := by
  have hfields : state.tree.toFields?
      ["database", "snapshot_lsn", "tables", "started_at", "completed_at"] 0 = some state.fields := by
    apply Tree.toFields?_object state.fields
    simp [fields]
  simp only [ofTree?, hfields, fields, Option.bind_eq_bind, Option.bind_some, Fields.get?_cons,
    Fields.getOption?_cons, if_pos, Tree.toString?, Tree.toInt64?_ofInt, tablesOfTree?_tree,
    toOption?_tree, String.reduceEq, if_false]
  constructor
  · intro h
    split_ifs at h with htables hstarted hcompleted
    all_goals simp at h
    exact ⟨⟨htables, hstarted, hcompleted⟩, h⟩
  · rintro ⟨⟨htables, hstarted, hcompleted⟩, rfl⟩
    rw [if_pos htables, if_pos hstarted, if_pos hcompleted]
    rfl

/-- Progress is read back if its numbers fit. -/
theorem read_write_eq_ok {state kept : SnapshotState} :
    read state.write = .ok kept ↔ state.Fits ∧ state.refilled = kept := by
  rw [read, decodeText, parse?_eq_of_readsAs state.readsAs, Option.bind_some, ← ofTree?_tree_eq_some]
  cases ofTree? state.tree <;> simp

/-- Progress that is read back is what was written. -/
structure Same (state kept : SnapshotState) : Prop where
  database : kept.database = state.database
  snapshotLsn : kept.snapshotLsn = state.snapshotLsn
  tables : ∀ key : String, kept.tables[key]? = state.tables[key]?
  startedAt : kept.startedAt = state.startedAt
  completedAt : kept.completedAt = state.completedAt

theorem same_of_read {state kept : SnapshotState} (h : read state.write = .ok kept) : state.Same kept := by
  obtain ⟨_, rfl⟩ := read_write_eq_ok.mp h
  exact ⟨rfl, rfl, getElem?_foldl_insert_toList state.tables, rfl, rfl⟩

/-! ## Tables that are done -/

/-- The table of a key was read. -/
def IsDone (state : SnapshotState) (key : String) : Prop :=
  ∃ progress, state.tables[key]? = some progress ∧ progress.complete

variable {state kept : SnapshotState} {key schema table : String}

theorem isTableComplete_iff :
    state.isTableComplete schema table ↔ state.IsDone (tableKey schema table) := by
  rw [isTableComplete, Std.TreeMap.get?_eq_getElem?, Option.any_eq_true, IsDone]

/-- A table that is known stays as it is, and one that is new is not done. -/
theorem isDone_addTable : (state.addTable schema table).IsDone key ↔ state.IsDone key := by
  simp only [IsDone, addTable, Std.TreeMap.getElem?_insertIfNew, Std.compare_eq_iff_eq]
  by_cases h : tableKey schema table = key ∧ tableKey schema table ∉ state.tables
  · obtain ⟨rfl, hnew⟩ := h
    simp [hnew, TableProgress.start]
  · rw [if_neg h]

theorem isTableComplete_addTable :
    (state.addTable schema table).isTableComplete schema table = state.isTableComplete schema table := by
  rw [Bool.eq_iff_iff, isTableComplete_iff, isTableComplete_iff, isDone_addTable]

theorem mem_addTable : tableKey schema table ∈ (state.addTable schema table).tables :=
  Std.TreeMap.mem_insertIfNew_self

theorem isDone_markComplete {rows : Nat} (h : tableKey schema table ∈ state.tables) :
    (state.markComplete schema table rows).IsDone key ↔ key = tableKey schema table ∨ state.IsDone key := by
  obtain ⟨progress, hprogress⟩ := Option.isSome_iff_exists.mp (Std.TreeMap.mem_iff_isSome_getElem?.mp h)
  rw [markComplete, Std.TreeMap.get?_eq_getElem?, hprogress]
  simp only [IsDone, Std.TreeMap.getElem?_insert, Std.compare_eq_iff_eq]
  by_cases hkey : tableKey schema table = key
  · simp [hkey]
  · simp [hkey, Ne.symm hkey]

theorem Same.isDone (h : state.Same kept) : kept.IsDone key ↔ state.IsDone key := by
  rw [IsDone, h.tables, IsDone]

theorem watermark_markComplete {rows : Nat} :
    (state.markComplete schema table rows).watermark = state.watermark := by
  rw [markComplete]
  split <;> rfl

theorem Same.watermark (h : state.Same kept) : kept.watermark = state.watermark := by
  rw [SnapshotState.watermark, h.snapshotLsn, SnapshotState.watermark]

/-- Nothing is done when a reading begins anew. -/
theorem not_isDone_start {database : String} {lsn : Lsn} {time : Int} :
    ¬ (start database lsn time).IsDone key := by
  rintro ⟨progress, hprogress, _⟩
  simp [start] at hprogress

/-! ## Progress that can be kept -/

theorem fits_iff : state.Fits ↔
    (∀ (key : String) progress, state.tables[key]? = some progress → progress.processedRows < UInt64.size) ∧
      (Text.minInt64 ≤ state.startedAt ∧ state.startedAt ≤ Text.maxInt64) ∧
      ∀ time, state.completedAt = some time → Text.minInt64 ≤ time ∧ time ≤ Text.maxInt64 := by
  constructor
  · intro h
    refine ⟨fun key progress hprogress => ?_, h.startedAt, h.completedAt⟩
    exact h.tables (key, progress) (Std.TreeMap.mem_toList_iff_getElem?_eq_some.mpr hprogress)
  · rintro ⟨htables, hstarted, hcompleted⟩
    refine ⟨fun t ht => ?_, hstarted, hcompleted⟩
    exact htables t.1 t.2 (Std.TreeMap.mem_toList_iff_getElem?_eq_some.mp ht)

theorem fits_start {database : String} {lsn : Lsn} {time : Int}
    (h : Text.minInt64 ≤ time ∧ time ≤ Text.maxInt64) : (start database lsn time).Fits := by
  rw [fits_iff]
  refine ⟨fun key progress hprogress => ?_, h, fun _ hcompleted => by cases hcompleted⟩
  simp [start] at hprogress

theorem Fits.addTable (h : state.Fits) : (state.addTable schema table).Fits := by
  rw [fits_iff] at h ⊢
  refine ⟨fun key progress hprogress => ?_, h.2⟩
  rw [SnapshotState.addTable, Std.TreeMap.getElem?_insertIfNew] at hprogress
  split_ifs at hprogress
  · cases hprogress
    exact (by decide : 0 < UInt64.size)
  · exact h.1 key progress hprogress

theorem Fits.markComplete (h : state.Fits) {rows : Nat} (hrows : rows < UInt64.size) :
    (state.markComplete schema table rows).Fits := by
  rw [fits_iff] at h ⊢
  rw [SnapshotState.markComplete]
  split
  · exact h
  · refine ⟨fun key progress hprogress => ?_, h.2⟩
    rw [Std.TreeMap.getElem?_insert] at hprogress
    split_ifs at hprogress
    · cases hprogress
      exact hrows
    · exact h.1 key progress hprogress

end SnapshotState

end ChangeCapture
