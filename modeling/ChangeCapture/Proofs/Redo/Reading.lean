import ChangeCapture.Proofs.Merge.Completeness
import ChangeCapture.Proofs.Redo.Order
import ChangeCapture.Proofs.Resuming
import ChangeCapture.Proofs.Runs
import ChangeCapture.Proofs.Statement.Reading
import ChangeCapture.Redo.Reader

/-! # Reading a redo log in order

The records of all threads come in the order of their rows and threads. This is the order of their
offsets as long as the texts of their tables go as the tables do. -/

namespace ChangeCapture

open List Program
open RedoRequest (interface)

/-! ## Threads -/

theorem Text.eq_of_decimalPadded {width m n : Nat} (hm : m < 10 ^ width) (hn : n < 10 ^ width)
    (h : Text.decimalPadded width m = Text.decimalPadded width n) : m = n := by
  induction width generalizing m n with
  | zero => omega
  | succ width ih =>
      obtain ⟨hleft, hright⟩ := append_inj' h rfl
      have hdigit : (m % 10).digitChar.toNat = (n % 10).digitChar.toNat := by
        rw [(cons.inj hright).1]
      rw [Nat.toNat_digitChar_of_lt_ten (Nat.mod_lt _ (by decide)),
        Nat.toNat_digitChar_of_lt_ten (Nat.mod_lt _ (by decide))] at hdigit
      rw [Nat.pow_succ] at hm hn
      have hrest : m / 10 = n / 10 := ih (by omega) (by omega) hleft
      omega

theorem threadLabel_injective : Function.Injective threadLabel := by
  intro t u h
  have htext := (String.append_right_inj _).mp h
  have hlt (t : UInt16) : t.toNat < 10 ^ 5 := Nat.lt_trans t.toNat_lt (by decide)
  exact UInt16.toNat_inj.mp
    (Text.eq_of_decimalPadded (hlt t) (hlt u) (String.ofList_injective htext))

namespace RedoReader

theorem eraseReps_loop (t : UInt16) (threads done : List UInt16) :
    eraseRepsBy.loop (· == ·) t threads done =
      done.reverse ++ eraseRepsBy.loop (· == ·) t threads [] := by
  induction threads generalizing t done with
  | nil => simp [eraseRepsBy.loop]
  | cons u threads ih =>
      simp only [eraseRepsBy.loop]
      cases hu : t == u with
      | true => exact ih t done
      | false =>
          simp only
          rw [ih u (t :: done), ih u [t]]
          simp

theorem mem_of_mem_eraseReps_loop {t u : UInt16} {threads : List UInt16}
    (h : u ∈ eraseRepsBy.loop (· == ·) t threads []) : u ∈ t :: threads := by
  induction threads generalizing t with
  | nil => exact h
  | cons v threads ih =>
      rw [eraseRepsBy.loop] at h
      cases hv : t == v with
      | true =>
          rw [hv] at h
          rcases mem_cons.mp (ih h) with rfl | hu
          · exact mem_cons_self
          · exact mem_cons_of_mem _ (mem_cons_of_mem _ hu)
      | false =>
          rw [hv] at h
          simp only [eraseReps_loop v threads [t], reverse_singleton, singleton_append, mem_cons] at h
          exact mem_cons.mpr (h.imp_right ih)

theorem pairwise_eraseReps_loop {t : UInt16} {threads : List UInt16}
    (h : (t :: threads).Pairwise (· ≤ ·)) :
    (eraseRepsBy.loop (· == ·) t threads []).Pairwise (· < ·) := by
  induction threads generalizing t with
  | nil => exact pairwise_singleton _ _
  | cons v threads ih =>
      obtain ⟨ht, hthreads⟩ := pairwise_cons.mp h
      rw [eraseRepsBy.loop]
      cases hv : t == v with
      | true =>
          exact ih (pairwise_cons.mpr ⟨fun u hu => ht u (mem_cons_of_mem _ hu), hthreads.tail⟩)
      | false =>
          simp only [eraseReps_loop v threads [t], reverse_singleton, singleton_append]
          refine pairwise_cons.mpr ⟨fun u hu => ?_, ih hthreads⟩
          have htv : t < v := UInt16.lt_of_le_of_ne (ht v mem_cons_self) (by simpa using hv)
          rcases mem_cons.mp (mem_of_mem_eraseReps_loop hu) with rfl | hu
          · exact htv
          · exact UInt16.lt_of_lt_of_le htv ((pairwise_cons.mp hthreads).1 u hu)

theorem pairwise_distinctThreads (threads : List UInt16) : (distinctThreads threads).Pairwise (· < ·) := by
  have hsorted : (threads.mergeSort (· ≤ ·)).Pairwise (· ≤ ·) := by
    simpa using @pairwise_mergeSort UInt16 (fun t u => decide (t ≤ u))
      (by simpa using fun _ _ _ => UInt16.le_trans) (by simpa using UInt16.le_total) threads
  rw [distinctThreads, eraseReps, eraseRepsBy.eq_def]
  split
  · exact .nil
  · rename_i t rest hthreads
    rw [hthreads] at hsorted
    exact pairwise_eraseReps_loop hsorted

theorem nodup_distinctThreads (threads : List UInt16) : (distinctThreads threads).Nodup :=
  (pairwise_distinctThreads threads).imp UInt16.ne_of_lt

end RedoReader

/-! ## Runs -/

namespace RedoRequest

/-- Databases that may answer anything. -/
def anything : Answers interface Unit := fun _ _ _ _ => True

/-- Databases whose answers for a table are among some. Anything else may be answered in any way. -/
def describing (tables : TableId → Except CaptureError TableSchema → Prop) : Answers interface Unit
  | _, .tableSchema table, answer, _ => tables table answer
  | _, .redoThreads, _, _ | _, .mine .., _, _ => True

theorem describing_true : describing (fun _ _ => True) = anything := by
  funext w r answer w'
  cases r <;> rfl

end RedoRequest

namespace RedoReader

open RedoRequest (anything describing)

/-- The reader gives some records one after another, and `last` is what it is then. -/
inductive Reads : RedoReader → List (ChangeRecord .oracle) → RedoReader → Prop where
  | nil (reader) : Reads reader [] reader
  | cons {reader record rest records last}
      (h : Ends anything reader.next () (.ok (some record), rest) ()) :
      Reads rest records last → Reads reader (record :: records) last

theorem labels_of_ends_mineAll {answers : Answers interface Unit} {first last : Scn}
    {threads : List UInt16} {inputs : List (MergeInput RedoRow)}
    (h : Ends answers (mineAll first last threads) () (.ok inputs) ()) :
    inputs.map MergeInput.label = threads.map threadLabel := by
  induction threads generalizing inputs with
  | nil =>
      cases (leads_done.mp h).1
      rfl
  | cons thread threads ih =>
      obtain ⟨answer, _, _, h⟩ := ends_bind.mp h
      cases answer with
      | error e => cases (leads_done.mp h).1
      | ok cursor =>
          obtain ⟨found, _, hfound, h⟩ := ends_bind.mp h
          cases found with
          | error e => cases (leads_done.mp h).1
          | ok rest =>
              cases (leads_done.mp h).1
              rw [map_cons, map_cons, ih hfound]

/-- A reader merges inputs with different labels, and no schema is known at first. -/
theorem start_of_ends {answers : Answers interface Unit} {first last : Scn} {reader : RedoReader}
    (h : Ends answers (start first last) () (.ok reader) ()) :
    ∃ inputs, Merge.start inputs = .ok reader.merge ∧ (inputs.map MergeInput.label).Nodup ∧
      reader.schemas = [] := by
  unfold start at h
  split at h
  · cases (leads_done.mp h).1
  · obtain ⟨answer, _, _, h⟩ := ends_bind.mp h
    cases answer with
    | error e => cases (leads_done.mp h).1
    | ok threads =>
        obtain ⟨found, _, hfound, h⟩ := ends_bind.mp h
        cases found with
        | error e => cases (leads_done.mp h).1
        | ok inputs =>
            have hreader := Program.done.inj (leads_done.mp h).1
            cases hstart : Merge.start inputs with
            | error e => simp [Except.bind, Except.map, hstart] at hreader
            | ok merge =>
                simp only [Except.bind, Except.map, hstart, Except.ok.injEq] at hreader
                refine ⟨inputs, by rw [hreader, hstart], ?_, by rw [hreader]⟩
                rw [labels_of_ends_mineAll hfound]
                exact (nodup_distinctThreads threads).map threadLabel_injective

/-! ## Rows and records -/

/-- The record says what the row of a thread says. -/
structure StandsFor (label : String) (row : RedoRow) (record : ChangeRecord .oracle) : Prop where
  table : record.table = row.table
  source : record.source = label
  position : record.position = row.scn
  sequence : record.sequence = Sequence.ofUInt64 row.sequence
  opCode : record.opCode = row.operationCode

theorem standsFor_of_recordOf {label : String} {operation : Operation} {row : RedoRow}
    {schema : TableSchema} {record : ChangeRecord .oracle}
    (h : recordOf label operation row schema = .ok record) : StandsFor label row record := by
  unfold recordOf at h
  split at h
  · cases h
  · split at h
    · cases h
      exact ⟨rfl, rfl, rfl, rfl, rfl⟩
    · cases h

/-- What a call returns for a row. -/
inductive Replies (tables : TableId → Except CaptureError TableSchema → Prop) (label : String)
    (row : RedoRow) : Except CaptureError (ChangeRecord .oracle) → Prop where
  | unsupported (h : Operation.ofCode? row.operationCode.toNat = none) :
      Replies tables label row (.error (unsupportedOperation label row))
  | undescribed {operation e} (h : Operation.ofCode? row.operationCode.toNat = some operation)
      (htable : tables row.table (.error e)) : Replies tables label row (.error e)
  | read {operation schema reply} (h : Operation.ofCode? row.operationCode.toNat = some operation)
      (htable : tables row.table (.ok schema))
      (hreply : recordOf label operation row schema = reply) : Replies tables label row reply

/-- All schemas that a reader keeps were answers. -/
def Described (tables : TableId → Except CaptureError TableSchema → Prop) (reader : RedoReader) : Prop :=
  ∀ (table : TableId) schema, reader.schemas.lookup table = some schema → tables table (.ok schema)

variable {tables : TableId → Except CaptureError TableSchema → Prop}

theorem described_of_ends_schemaOf {reader rest : RedoReader} {table : TableId}
    {found : Except CaptureError TableSchema} (hreader : reader.Described tables)
    (h : Ends (describing tables) (reader.schemaOf table) () (found, rest) ()) :
    tables table found ∧ rest.Described tables ∧ rest.merge = reader.merge := by
  unfold schemaOf at h
  split at h
  · rename_i schema hlookup
    cases (leads_done.mp h).1
    exact ⟨hreader table schema hlookup, hreader, rfl⟩
  · obtain ⟨answer, _, hasked, h⟩ := ends_bind.mp h
    obtain ⟨_, _, hanswer, hdone⟩ := ends_ask.mp hasked
    cases (leads_done.mp hdone).1
    cases answer with
    | error e =>
        cases (leads_done.mp h).1
        exact ⟨hanswer, hreader, rfl⟩
    | ok schema =>
        cases (leads_done.mp h).1
        refine ⟨hanswer, fun other schema' hother => ?_, rfl⟩
        rw [lookup_cons] at hother
        split at hother
        · rename_i heq
          cases hother
          rwa [eq_of_beq heq]
        · exact hreader other schema' hother

/-- A call takes the next row of the merge and answers for it. -/
theorem replies_of_ends_next {reader rest : RedoReader}
    {result : Except CaptureError (Option (ChangeRecord .oracle))} (hreader : reader.Described tables)
    (h : Ends (describing tables) reader.next () (result, rest) ()) :
    rest.Described tables ∧
      ((∃ e, reader.merge.next = (.error e, rest.merge) ∧ result = .error e) ∨
        (reader.merge.next = (.ok none, rest.merge) ∧ result = .ok none) ∨
        ∃ x reply, reader.merge.next = (.ok (some x), rest.merge) ∧ result = reply.map some ∧
          Replies tables (reader.merge.label x.1) x.2 reply) := by
  unfold next at h
  cases hnext : reader.merge.next with
  | mk taken merge =>
      rw [hnext] at h
      dsimp only at h
      split at h
      · cases (leads_done.mp h).1
        exact ⟨hreader, .inl ⟨_, rfl, rfl⟩⟩
      · cases (leads_done.mp h).1
        exact ⟨hreader, .inr (.inl ⟨rfl, rfl⟩)⟩
      · rename_i input row
        obtain ⟨_, _, _, _, _, _, _, hlabels⟩ := Merge.next_eq_some hnext
        have hlabel : merge.label input = reader.merge.label input := by
          rw [Merge.label, hlabels, Merge.label]
        rw [hlabel] at h
        split at h
        · rename_i hoperation
          cases (leads_done.mp h).1
          exact ⟨hreader, .inr (.inr ⟨(input, row), .error _, rfl, rfl, .unsupported hoperation⟩)⟩
        · rename_i operation hoperation
          obtain ⟨⟨found, asked⟩, _, hasked, h⟩ := ends_bind.mp h
          obtain ⟨htable, hdescribed, hmerge⟩ :=
            @described_of_ends_schemaOf tables { reader with merge } asked row.table found hreader
              hasked
          have hreply : Replies tables (reader.merge.label input) row
              (found.bind (recordOf (reader.merge.label input) operation row)) := by
            cases found with
            | error e => exact .undescribed hoperation htable
            | ok schema => exact .read hoperation htable rfl
          cases hrecord : found.bind (recordOf (reader.merge.label input) operation row) <;>
          · simp only [hrecord] at h hreply
            cases (leads_done.mp h).1
            exact ⟨hdescribed, .inr (.inr ⟨(input, row), _, by rw [hmerge], rfl, hreply⟩)⟩

/-- A record is read from the next row of the merge. -/
theorem row_of_ends_next {reader rest : RedoReader} {record : ChangeRecord .oracle}
    (h : Ends anything reader.next () (.ok (some record), rest) ()) :
    ∃ x, reader.merge.next = (.ok (some x), rest.merge) ∧
      StandsFor (reader.merge.label x.1) x.2 record := by
  rw [← RedoRequest.describing_true] at h
  have hreader : reader.Described fun _ _ => True := fun _ _ _ => trivial
  obtain ⟨_, ⟨e, _, h⟩ | ⟨_, h⟩ | ⟨x, reply, hx, h, hreply⟩⟩ := replies_of_ends_next hreader h
  · cases h
  · cases h
  · cases reply with
    | error e => cases h
    | ok record' =>
        cases h
        cases hreply with
        | read _ _ hrecord => exact ⟨x, hx, standsFor_of_recordOf hrecord⟩

/-- The records that a reader gives, each with the row of the merge that it was read from. -/
theorem Reads.exists_rows {reader last : RedoReader} {records : List (ChangeRecord .oracle)}
    (h : reader.Reads records last) :
    ∃ given : List ((Nat × RedoRow) × ChangeRecord .oracle), given.map Prod.snd = records ∧
      reader.merge.Gives (given.map Prod.fst) last.merge ∧
      ∀ g ∈ given, StandsFor (reader.merge.label g.1.1) g.1.2 g.2 := by
  induction h with
  | nil reader => exact ⟨[], rfl, .nil _, by simp⟩
  | cons hnext _ ih =>
      obtain ⟨x, hx, hstands⟩ := row_of_ends_next hnext
      obtain ⟨given, hrecords, hgives, hgiven⟩ := ih
      obtain ⟨_, _, _, _, _, _, _, hlabels⟩ := Merge.next_eq_some hx
      refine ⟨(x, _) :: given, by rw [map_cons, hrecords], .cons hx hgives, ?_⟩
      rintro g hg
      rcases mem_cons.mp hg with rfl | hg
      · exact hstands
      · have hlabel := hgiven g hg
        rwa [Merge.label, hlabels] at hlabel

end RedoReader

/-! ## Records in order -/

theorem Sequence.compare_ofUInt64 (m n : UInt64) :
    compare (ofUInt64 m) (ofUInt64 n) = compare m n :=
  (UInt64.compare_eq_toNat_compare_toNat m n).symm

namespace ChangeRecord

/-- The place of a record, its table and its thread compared in this order. -/
def compareRead (r s : ChangeRecord .oracle) : Ordering :=
  (r.offset.compareKey s.offset).then ((compare r.table s.table).then (compare r.source s.source))

theorem compare_offset {r s : ChangeRecord .oracle} (h : compareRead r s = .lt)
    (htable : r.offset.compareKey s.offset = .eq → r.table.SortsLike s.table) :
    compare r.offset s.offset = .lt := by
  rw [Offset.compare_eq_lt]
  rcases Ordering.then_eq_lt.mp h with hkey | ⟨hkey, hsource⟩
  · exact .inl hkey
  · exact .inr ⟨hkey, (htable hkey).compare_sourceLabel hsource⟩

end ChangeRecord

namespace RedoReader

open RedoRequest (anything)

theorem StandsFor.compareRead {label label' : String} {row row' : RedoRow}
    {record record' : ChangeRecord .oracle} (h : StandsFor label row record)
    (h' : StandsFor label' row' record') :
    record.compareRead record' = (row.compareKeys row').then (compare label label') := by
  rw [ChangeRecord.compareRead, Offset.compareKey, RedoRow.compareKeys]
  simp only [ChangeRecord.offset, h.position, h'.position, h.sequence, h'.sequence, h.opCode,
    h'.opCode, h.table, h'.table, h.source, h'.source, Sequence.compare_ofUInt64,
    Ordering.then_assoc]

/-- No two records have the same place, table and thread, and they come in the order of these. -/
theorem ascending_of_reads {first last : Scn} {reader final : RedoReader}
    {records : List (ChangeRecord .oracle)}
    (hstart : Ends anything (start first last) () (.ok reader) ())
    (hreads : reader.Reads records final) : records.Pairwise fun r s => r.compareRead s = .lt := by
  obtain ⟨inputs, hmerge, hnodup, _⟩ := start_of_ends hstart
  obtain ⟨given, rfl, hgives, hgiven⟩ := hreads.exists_rows
  have hlabels : reader.merge.labels = inputs.map MergeInput.label := by
    obtain ⟨_, _, hstarted⟩ := Merge.start_eq_ok.mp hmerge
    rw [hstarted]
  have hrows := (Merge.sound_start hmerge).drain_ascending.sublist hgives.isPrefix.sublist
  have hbound : ∀ g ∈ given, g.1.1 < reader.merge.labels.length := by
    intro g hg
    obtain ⟨input, hinput, _⟩ := Merge.mem_of_mem_drain (Merge.drawn_start hmerge) g.1
      (hgives.isPrefix.subset (mem_map_of_mem hg))
    rw [hlabels, length_map]
    exact (List.getElem?_eq_some_iff.mp hinput).1
  refine pairwise_map.mpr ((pairwise_map.mp hrows).imp_of_mem fun {g g'} hg hg' hlt => ?_)
  rw [(hgiven g hg).compareRead (hgiven g' hg')]
  exact Merge.lt_of_distinct_labels (hlabels ▸ hnodup) (hbound g hg) (hbound g' hg') hlt

/-- If the texts of all tables that are changed at one place go as the tables do, the offsets of the
records ascend. Then each can be committed after those before it, and a filter that resumes after one of
them passes over it and those before it and nothing else. -/
theorem reads_in_order {first last : Scn} {reader final : RedoReader}
    {records : List (ChangeRecord .oracle)}
    (hstart : Ends anything (start first last) () (.ok reader) ())
    (hreads : reader.Reads records final)
    (htables : ∀ r ∈ records, ∀ s ∈ records,
      r.offset.compareKey s.offset = .eq → r.table.SortsLike s.table) :
    let offsets := records.map ChangeRecord.offset
    (offsets.Pairwise fun o p => compare o p = .lt) ∧
      offsets.foldlM OffsetTracker.commit {} = .ok ⟨offsets.getLast?⟩ ∧
      ∀ before o after, offsets = before ++ o :: after →
        ({ resumeAfter := some o } : ResumeFilter .oracle).remaining offsets = after := by
  intro offsets
  have hascending : offsets.Pairwise fun o p => compare o p = .lt :=
    pairwise_map.mpr ((ascending_of_reads hstart hreads).imp_of_mem fun {r s} hr hs hlt =>
      ChangeRecord.compare_offset hlt (htables r hr s hs))
  have horigin : ∀ o ∈ offsets, o.origin ≠ "" := by
    intro o ho
    obtain ⟨record, _, rfl⟩ := mem_map.mp ho
    exact record.origin_ne_empty
  refine ⟨hascending, ?_, ?_⟩
  · have hnew : ∀ o ∈ offsets, ¬ ({} : OffsetTracker .oracle).Covers o := by
      rintro o _ ⟨_, hcommitted, _⟩
      cases hcommitted
    rw [OffsetTracker.foldlM_commit hascending horigin {} hnew, Option.or_none]
  · intro before o after hoffsets
    have ho : o ∈ offsets := by simp [hoffsets]
    rw [hoffsets] at hascending ⊢
    exact ResumeFilter.remaining_of_ascending hascending (horigin o ho) 0

/-! ## Two threads -/

theorem ends_mineAll_cons {first last : Scn} {thread : UInt16} {threads : List UInt16}
    {inputs : List (MergeInput RedoRow)} (cursor : Cursor RedoRow)
    (h : Ends anything (mineAll first last threads) () (.ok inputs) ()) :
    Ends anything (mineAll first last (thread :: threads)) ()
      (.ok ({ label := threadLabel thread, cursor } :: inputs)) () := by
  refine ends_bind.mpr ⟨(.ok cursor : Except CaptureError (Cursor RedoRow)), (), ?_, ?_⟩
  · exact ends_ask.mpr ⟨(.ok cursor : Except CaptureError (Cursor RedoRow)), (), trivial, .refl _ _⟩
  · exact ends_bind.mpr ⟨_, (), h, .refl _ _⟩

theorem ends_start {first last : Scn} {threads : List UInt16} {inputs : List (MergeInput RedoRow)}
    {merge : Merge RedoRow} (hrange : ¬ last < first)
    (hmine : Ends anything (mineAll first last (distinctThreads threads)) () (.ok inputs) ())
    (hmerge : Merge.start inputs = .ok merge) :
    Ends anything (start first last) () (.ok { merge }) () := by
  unfold start
  rw [if_neg hrange]
  refine ends_bind.mpr ⟨(.ok threads : Except CaptureError (List UInt16)), (), ?_, ?_⟩
  · exact ends_ask.mpr
      ⟨(.ok threads : Except CaptureError (List UInt16)), (), trivial, .refl _ _⟩
  · refine ends_bind.mpr ⟨_, (), hmine, ?_⟩
    simp only [Except.bind, hmerge]
    exact .refl _ _

theorem ends_next {reader : RedoReader} {merge : Merge RedoRow} {input : Nat} {row : RedoRow}
    {operation : Operation} {schema : TableSchema} {record : ChangeRecord .oracle}
    (hnext : reader.merge.next = (.ok (some (input, row)), merge))
    (hoperation : Operation.ofCode? row.operationCode.toNat = some operation)
    (hschema : reader.schemas.lookup row.table = none)
    (hrecord : recordOf (merge.label input) operation row schema = .ok record) :
    Ends anything reader.next () (.ok (some record),
      { merge, schemas := (row.table, schema) :: reader.schemas
        records := reader.records + 1 }) () := by
  unfold next
  simp only [hnext, hoperation, schemaOf, hschema]
  refine ends_bind.mpr ⟨(.ok schema, { reader with
    merge, schemas := (row.table, schema) :: reader.schemas }), (), ?_, ?_⟩
  · exact ends_ask.mpr ⟨(.ok schema : Except CaptureError TableSchema), (), trivial, .refl _ _⟩
  · simp only [Except.bind, hrecord]
    exact .refl _ _

section Sample

/-- An insertion of one value into a table. -/
def sampleRow (table : String) : RedoRow where
  scn := Position.ofNat 42
  sequence := 1
  operationCode := 1
  table := ⟨"db", "S", table⟩
  sql := "insert into " ++ "\"S\"" ++ "." ++ ("\"" ++ table ++ "\"") ++ " values (" ++ "1" ++ ")" ++ ";"

def sampleSchema (table : String) : TableSchema where
  id := ⟨"db", "S", table⟩
  columns := [{ name := "X", position := 1, typeName := "NUMBER" }]

def sampleRecord (thread : UInt16) (table : String) : ChangeRecord .oracle where
  kind := .insert
  opCode := 1
  table := ⟨"db", "S", table⟩
  source := threadLabel thread
  position := Position.ofNat 42
  sequence := Sequence.ofUInt64 1
  old := []
  new := [some (.expression "1")]

def sampleImages : RowImages := { operation := .insert, old := [], new := [some (.expression "1")] }

theorem parseImages_sampleRow {table : String} (hname : IsName table)
    (hsize : (sampleRow table).sql.utf8ByteSize ≤ Statement.maxBytes) :
    Statement.parseImages (sampleRow table).sql (sampleSchema table) = .ok sampleImages := by
  have hwritten : Statement.Written ⟨.insert, "S", table, .positional [.expression "1"], none⟩
      ("insert into " ++ "\"S\"" ++ "." ++ ("\"" ++ table ++ "\"") ++ " values (" ++ "1" ++ ")") :=
    .positional ⟨by decide, by decide⟩ ⟨hname, rfl⟩
      (.last (.number (by decide) (List.all_eq_true.mp (by decide))))
  have hparse : Statement.parse (sampleRow table).sql =
      .ok ⟨.insert, "S", table, .positional [.expression "1"], none⟩ := by
    rw [Statement.parse, if_neg (Nat.not_lt.mpr hsize)]
    simp only [sampleRow]
    rw [Statement.dropEndWhile_written hwritten (.inr rfl),
      Statement.parseBody_written hwritten (.inr rfl)]
  rw [Statement.parseImages, hparse]
  change Statement.images _ _ = _
  rw [Statement.images, if_pos ⟨rfl, rfl⟩]
  rfl

theorem recordOf_sampleRow {thread : UInt16} {table : String} (hname : IsName table)
    (hsize : (sampleRow table).sql.utf8ByteSize ≤ Statement.maxBytes) :
    recordOf (threadLabel thread) .insert (sampleRow table) (sampleSchema table) =
      .ok (sampleRecord thread table) := by
  simp only [recordOf, parseImages_sampleRow hname hsize]
  rfl

/-- The only row of a thread. -/
def samplePending (input : Nat) (thread : UInt16) (table : String) : PendingRow RedoRow where
  input := input
  label := threadLabel thread
  row := sampleRow table
  rest := ⟨[], none⟩

def sampleReader (first second : String) : RedoReader where
  merge :=
    { labels := [threadLabel 1, threadLabel 2]
      pending := [samplePending 0 1 first, samplePending 1 2 second]
      counts := [0, 0] }

theorem comparePending_sample {first second : String} (h : compare first second = .lt) :
    Merge.comparePending (samplePending 0 1 first) (samplePending 1 2 second) = .lt := by
  have htable : compare (⟨"db", "S", first⟩ : TableId) ⟨"db", "S", second⟩ = .lt := by
    change (compare "db" "db").then ((compare "S" "S").then (compare first second)) = _
    rw [Std.ReflOrd.compare_self, Std.ReflOrd.compare_self, Ordering.eq_then, Ordering.eq_then, h]
  have hrows : (sampleRow first).compareKeys (sampleRow second) = .lt := by
    simp only [RedoRow.compareKeys, sampleRow, htable, Std.ReflOrd.compare_self, Ordering.eq_then]
  change ((sampleRow first).compareKeys (sampleRow second)).then _ = .lt
  rw [hrows, Ordering.lt_then]

theorem ends_start_sample {first second : String} (h : compare first second = .lt) :
    Ends anything (start (Position.ofNat 42) (Position.ofNat 42)) ()
      (.ok (sampleReader first second)) () := by
  have hthreads : distinctThreads [1, 2] = [1, 2] := by
    rw [distinctThreads, mergeSort_of_pairwise (by decide)]
    rfl
  have hmine : Ends anything (mineAll (Position.ofNat 42) (Position.ofNat 42) [1, 2]) ()
      (.ok [⟨threadLabel 1, ⟨[sampleRow first], none⟩⟩,
        ⟨threadLabel 2, ⟨[sampleRow second], none⟩⟩]) () :=
    ends_mineAll_cons _ (ends_mineAll_cons _ (.refl _ _))
  have hmerge : Merge.start [⟨threadLabel 1, ⟨[sampleRow first], none⟩⟩,
      ⟨threadLabel 2, ⟨[sampleRow second], none⟩⟩] = .ok (sampleReader first second).merge := by
    refine Merge.start_eq_ok.mpr ⟨[samplePending 0 1 first, samplePending 1 2 second], ?_, ?_⟩
    · exact .row rfl (.row rfl (.nil _))
    · simp [Merge.insert, comparePending_sample h, sampleReader]
  exact ends_start (by decide) (hthreads ▸ hmine) hmerge

theorem reads_sample {first second : String} (hne : first ≠ second) (hfirst : IsName first)
    (hsecond : IsName second)
    (hfirstSize : (sampleRow first).sql.utf8ByteSize ≤ Statement.maxBytes)
    (hsecondSize : (sampleRow second).sql.utf8ByteSize ≤ Statement.maxBytes) :
    ∃ final, (sampleReader first second).Reads
      [sampleRecord 1 first, sampleRecord 2 second] final := by
  have hother :
      [((sampleRow first).table, sampleSchema first)].lookup (sampleRow second).table = none := by
    have htable : (sampleRow second).table ≠ (sampleRow first).table := fun h =>
      hne (congrArg TableId.table h).symm
    rw [lookup_cons, beq_eq_false_iff_ne.mpr htable]
    rfl
  have hread : Ends anything (next (sampleReader first second)) () _ () :=
    ends_next rfl rfl rfl (recordOf_sampleRow hfirst hfirstSize)
  have hrecord := @recordOf_sampleRow 2 second hsecond hsecondSize
  exact ⟨_, .cons hread (.cons (ends_next rfl rfl hother hrecord) (.nil _))⟩

end Sample

/-- Two threads change different tables at one place. -/
theorem reads_in_order_of_sample :
    let offsets := [(sampleRecord 1 "T1").offset, (sampleRecord 2 "T2").offset]
    offsets.foldlM OffsetTracker.commit {} = .ok ⟨some (sampleRecord 2 "T2").offset⟩ ∧
      ({ resumeAfter := some (sampleRecord 1 "T1").offset } : ResumeFilter .oracle).remaining offsets =
        [(sampleRecord 2 "T2").offset] := by
  obtain ⟨final, hreads⟩ :=
    @reads_sample "T1" "T2" (by decide) (by decide) (by decide) (by decide) (by decide)
  have htables : ∀ r ∈ [sampleRecord 1 "T1", sampleRecord 2 "T2"],
      ∀ s ∈ [sampleRecord 1 "T1", sampleRecord 2 "T2"], r.table.SortsLike s.table := by
    -- names of one length do not go on behind each other
    intro r hr s hs
    simp only [mem_cons, not_mem_nil, or_false] at hr hs
    rcases hr with rfl | rfl <;> rcases hs with rfl | rfl <;>
      exact ⟨rfl, fun c rest h => absurd (congrArg List.length h) (by simp [sampleRecord]),
        fun c rest h => absurd (congrArg List.length h) (by simp [sampleRecord])⟩
  obtain ⟨_, hcommit, hresume⟩ := reads_in_order (ends_start_sample (by decide)) hreads
    fun r hr s hs _ => htables r hr s hs
  exact ⟨hcommit, hresume [] _ _ rfl⟩

/-- The offset of a table whose name goes on with a digit comes before that of the other table, since a
digit comes before the colon. So the second record of this run cannot be committed. -/
theorem reads_out_of_order :
    ∃ (reader final : RedoReader) (records : List (ChangeRecord .oracle)),
      Ends anything (start (Position.ofNat 42) (Position.ofNat 42)) () (.ok reader) () ∧
        reader.Reads records final ∧
        ¬ (records.map ChangeRecord.offset).Pairwise (fun o p => compare o p = .lt) ∧
        ¬ ∃ tracker, (records.map ChangeRecord.offset).foldlM OffsetTracker.commit {} = .ok tracker := by
  obtain ⟨final, hreads⟩ :=
    @reads_sample "T" "T1" (by decide) (by decide) (by decide) (by decide) (by decide)
  refine ⟨_, final, _, ends_start_sample (by decide), hreads, ?_, ?_⟩
  · have hback : compare (sampleRecord 1 "T").offset (sampleRecord 2 "T1").offset ≠ .lt := by decide
    simpa using hback
  · rintro ⟨tracker, htracker⟩
    have hcovered : (sampleRecord 1 "T").offset.covers (sampleRecord 2 "T1").offset := by decide
    simp [OffsetTracker.commit, hcovered, bind, Except.bind] at htracker

end RedoReader

end ChangeCapture
