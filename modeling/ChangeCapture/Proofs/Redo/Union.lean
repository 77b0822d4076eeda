import ChangeCapture.Proofs.Calls
import ChangeCapture.Proofs.Merge.Union
import ChangeCapture.Proofs.Text.Integer
import Mathlib.Data.List.Dedup

/-! # Redo logs as one list of rows

A reader asks for each thread once, in ascending order, whatever the order and repetitions of the threads
that it is told of. What it gives are the rows of all threads, sorted by their keys and then by the numbers
of the threads. -/

namespace ChangeCapture

open List Program
open Std (TransCmp OrientedCmp LawfulEqOrd)
open RedoRequest (describing interface)

/-! ## Threads -/

theorem append_lt_append {l l' : List Char} (h : l < l') (hlength : l.length = l'.length)
    (r r' : List Char) : l ++ r < l' ++ r' := by
  induction l generalizing l' with
  | nil =>
      rw [length_eq_zero_iff.mp hlength.symm] at h
      exact absurd h (List.lt_irrefl [])
  | cons a l ih =>
      cases l' with
      | nil => cases h
      | cons b l' =>
          rcases List.cons_lt_cons_iff.mp h with hab | ⟨hab, hlt⟩
          · exact List.cons_lt_cons_iff.mpr (.inl hab)
          · exact List.cons_lt_cons_iff.mpr (.inr ⟨hab, ih hlt (Nat.succ.inj hlength)⟩)

namespace Text

theorem digitChar_lt {m n : Nat} (h : m < n) (hn : n < 10) : m.digitChar < n.digitChar := by
  have hm : m.digitChar.toNat = 48 + m := Nat.toNat_digitChar_of_lt_ten (Nat.lt_trans h hn)
  have hn : n.digitChar.toNat = 48 + n := Nat.toNat_digitChar_of_lt_ten hn
  have hlt : m.digitChar.toNat < n.digitChar.toNat := by omega
  exact hlt

/-- Digits of one width go as their numbers do. -/
theorem decimalPadded_lt {width m n : Nat} (h : m < n) (hn : n < 10 ^ width) :
    decimalPadded width m < decimalPadded width n := by
  induction width generalizing m n with
  | zero => omega
  | succ width ih =>
      rw [Nat.pow_succ] at hn
      simp only [decimalPadded]
      by_cases htens : m / 10 = n / 10
      · have hdigit : m % 10 < n % 10 := by omega
        rw [htens]
        apply append_left_lt
        exact List.cons_lt_cons_iff.mpr (.inl (digitChar_lt hdigit (Nat.mod_lt _ (by decide))))
      · have hprefix : decimalPadded width (m / 10) < decimalPadded width (n / 10) :=
          ih (by omega) (by omega)
        exact append_lt_append hprefix (by simp [length_decimalPadded]) _ _

end Text

/-- Labels go as the threads do. -/
theorem compare_threadLabel_eq_lt {t u : UInt16} (h : compare t u = .lt) :
    compare (threadLabel t) (threadLabel u) = .lt := by
  have hu : u.toNat < 10 ^ 5 := Nat.lt_trans u.toNat_lt (by decide)
  have hdigits := Text.decimalPadded_lt (UInt16.lt_iff_toNat_lt.mp (Std.compare_eq_lt.mp h)) hu
  rw [compare_eq_lt_iff_toList]
  simp only [threadLabel, String.toList_append, String.toList_ofList]
  exact append_left_lt hdigits

namespace RedoReader

theorem mem_eraseReps_loop {t u : UInt16} {threads : List UInt16} (h : u ∈ t :: threads) :
    u ∈ eraseRepsBy.loop (· == ·) t threads [] := by
  induction threads generalizing t with
  | nil => exact h
  | cons v threads ih =>
      rw [eraseRepsBy.loop]
      cases hv : t == v with
      | true =>
          -- the first one is repeated
          cases eq_of_beq hv
          apply ih
          simpa using h
      | false =>
          simp only [eraseReps_loop v threads [t], reverse_singleton, singleton_append]
          rcases mem_cons.mp h with rfl | h
          · exact mem_cons_self
          · exact mem_cons_of_mem _ (ih h)

theorem mem_distinctThreads {t : UInt16} {threads : List UInt16} :
    t ∈ distinctThreads threads ↔ t ∈ threads := by
  rw [← (mergeSort_perm threads (· ≤ ·)).mem_iff, distinctThreads, eraseReps, eraseRepsBy.eq_def]
  split
  · rename_i hnil
    rw [hnil]
  · rename_i hcons
    rw [hcons]
    exact ⟨mem_of_mem_eraseReps_loop, mem_eraseReps_loop⟩

/-- Neither the order of the threads nor repetitions matter. -/
theorem distinctThreads_congr {threads threads' : List UInt16} (h : ∀ t, t ∈ threads' ↔ t ∈ threads) :
    distinctThreads threads' = distinctThreads threads := by
  apply eq_of_ascending ((pairwise_distinctThreads threads').imp Std.compare_eq_lt.mpr)
    ((pairwise_distinctThreads threads).imp Std.compare_eq_lt.mpr)
  intro t
  rw [mem_distinctThreads, mem_distinctThreads, h]

/-! ## What is asked for -/

/-- A request that is not for the threads. -/
def Asked (r : interface.Request) : Prop := r ≠ RedoRequest.redoThreads

theorem asks_mineAll (first last : Scn) (threads : List UInt16) :
    (mineAll first last threads).Asks Asked := by
  induction threads with
  | nil => trivial
  | cons t threads ih =>
      refine ⟨nofun, fun answer => ?_⟩
      cases (answer : Except CaptureError (Cursor RedoRow)) with
      | error e => trivial
      | ok cursor => exact asks_andThen (p := mineAll first last threads) ih fun _ => trivial

theorem asks_schemaOf (reader : RedoReader) (table : TableId) : (reader.schemaOf table).Asks Asked := by
  unfold schemaOf
  split
  · trivial
  · refine ⟨nofun, fun answer => ?_⟩
    cases (answer : Except CaptureError TableSchema) <;> trivial

theorem asks_next (reader : RedoReader) : reader.next.Asks Asked := by
  unfold next
  dsimp only
  split
  · trivial
  · trivial
  · split
    · trivial
    · apply asks_andThen (asks_schemaOf _ _)
      intro answer
      split <;> trivial

end RedoReader

/-! ## Databases -/

/-- A database whose answers depend only on the thread, the range and the table that are asked for. -/
structure RedoDatabase where
  /-- The threads that have a log. -/
  threads : List UInt16
  mine : UInt16 → Scn → Scn → Except CaptureError (Cursor RedoRow)
  schema : TableId → Except CaptureError TableSchema

namespace RedoDatabase

def answer (db : RedoDatabase) : (r : RedoRequest) → r.Answer
  | .redoThreads => .ok db.threads
  | .mine thread first last => db.mine thread first last
  | .tableSchema table => db.schema table

/-- What a program ends with. -/
def eval {α : Type} (db : RedoDatabase) (p : RedoProgram α) : α := p.run (m := Id) db.answer

/-- What opening a reader gives. -/
def opened (db : RedoDatabase) (first last : Scn) : Except CaptureError RedoReader :=
  db.eval (RedoReader.start first last)

/-- What a call of a reader returns, and the reader then. -/
def called (db : RedoDatabase) (reader : RedoReader) :
    Except CaptureError (Option (ChangeRecord .oracle)) × RedoReader :=
  db.eval reader.next

/-- What a call of a reader returns that comes after some other calls. -/
def returned (db : RedoDatabase) (reader : RedoReader) :
    Nat → Except CaptureError (Option (ChangeRecord .oracle))
  | 0 => (db.called reader).1
  | calls + 1 => db.returned (db.called reader).2 calls

variable {db : RedoDatabase} {first last : Scn}

/-! ### Other orders of the threads -/

theorem eval_andThen {α β : Type} (p : RedoProgram α) (f : α → RedoProgram β) :
    db.eval (p.andThen f) = db.eval (f (db.eval p)) := by
  induction p with
  | done a => rfl
  | ask r next ih => exact ih (db.answer r)

/-- Opening a reader is asking for the rows of each thread, in order, and starting their merge. -/
theorem opened_eq (hrange : ¬ last < first) :
    db.opened first last =
      (db.eval (RedoReader.mineAll first last (RedoReader.distinctThreads db.threads))).bind
        fun inputs => (Merge.start inputs).map fun merge => { merge } := by
  unfold opened RedoReader.start
  rw [if_neg hrange]
  exact eval_andThen (RedoReader.mineAll first last (RedoReader.distinctThreads db.threads)) _

section Threads

variable {threads : List UInt16}

theorem eval_congr {α : Type} {p : RedoProgram α} (hp : p.Asks RedoReader.Asked) :
    { db with threads }.eval p = db.eval p := by
  apply hp.run_congr
  intro r hr
  cases r with
  | redoThreads => exact absurd rfl hr
  | mine thread first last => rfl
  | tableSchema table => rfl

theorem opened_congr (h : ∀ t, t ∈ threads ↔ t ∈ db.threads) :
    { db with threads }.opened first last = db.opened first last := by
  by_cases hrange : last < first
  · unfold opened RedoReader.start
    rw [if_pos hrange]
    rfl
  · rw [opened_eq hrange, opened_eq hrange, RedoReader.distinctThreads_congr h,
      eval_congr (RedoReader.asks_mineAll first last _)]

theorem called_congr (reader : RedoReader) : { db with threads }.called reader = db.called reader :=
  eval_congr (RedoReader.asks_next reader)

theorem returned_congr (reader : RedoReader) (n : Nat) :
    { db with threads }.returned reader n = db.returned reader n := by
  induction n generalizing reader with
  | zero => rw [returned, returned, called_congr]
  | succ n ih => rw [returned, returned, called_congr, ih]

end Threads

/-! ### The rows of all threads -/

/-- The rows of a thread in a range. -/
def rowsOf (db : RedoDatabase) (first last : Scn) (thread : UInt16) : List RedoRow :=
  match db.mine thread first last with
  | .ok cursor => cursor.rows
  | .error _ => []

/-- Rows go by key and then by the number of the thread. -/
def compareMined (x y : UInt16 × RedoRow) : Ordering :=
  (x.2.compareKeys y.2).then (compare x.1 y.1)

/-- The rows of the different threads in a range, sorted. -/
def union (db : RedoDatabase) (first last : Scn) : List (UInt16 × RedoRow) :=
  (db.threads.dedup.flatMap fun t => (db.rowsOf first last t).map fun row => (t, row)).mergeSort
    fun x y => (compareMined x y).isLE

/-- Every thread answers, and it gives its rows in strict order. -/
def Ascends (db : RedoDatabase) (first last : Scn) : Prop :=
  ∀ t ∈ db.threads, ∃ cursor, db.mine t first last = .ok cursor ∧ cursor.Orderly

instance : TransCmp compareMined :=
  haveI : TransCmp fun x y : UInt16 × RedoRow => x.2.compareKeys y.2 :=
    { eq_swap := OrientedCmp.eq_swap, isLE_trans := TransCmp.isLE_trans }
  inferInstanceAs (TransCmp (compareLex (fun x y : UInt16 × RedoRow => x.2.compareKeys y.2)
    (compareOn Prod.fst)))

theorem mem_union {x : UInt16 × RedoRow} :
    x ∈ db.union first last ↔ x.1 ∈ db.threads ∧ x.2 ∈ db.rowsOf first last x.1 := by
  rw [union, (mergeSort_perm _ _).mem_iff]
  simp only [mem_flatMap, mem_dedup, mem_map]
  constructor
  · rintro ⟨t, ht, row, hrow, rfl⟩
    exact ⟨ht, hrow⟩
  · rintro ⟨ht, hrow⟩
    exact ⟨x.1, ht, x.2, hrow, rfl⟩

theorem Ascends.rows (h : db.Ascends first last) {t : UInt16} (ht : t ∈ db.threads) :
    (db.rowsOf first last t).Pairwise fun r s => r.compareKeys s = .lt := by
  obtain ⟨cursor, hcursor, horderly⟩ := h t ht
  rw [rowsOf, hcursor]
  exact horderly.ascending

/-- Rows of different threads and of one thread differ. -/
theorem Ascends.nodup (h : db.Ascends first last) : (db.union first last).Nodup := by
  rw [RedoDatabase.union, (mergeSort_perm _ _).nodup_iff, nodup_flatMap]
  constructor
  · intro t ht
    have hrows : (db.rowsOf first last t).Nodup := by
      refine (h.rows (mem_dedup.mp ht)).imp ?_
      rintro r _ hlt rfl
      cases hlt.symm.trans Std.ReflCmp.compare_self
    exact hrows.map fun _ _ hrow => (Prod.mk.inj hrow).2
  · refine (nodup_dedup db.threads).imp ?_
    intro t u hne x ht hu
    obtain ⟨_, _, rfl⟩ := mem_map.mp ht
    obtain ⟨_, _, heq⟩ := mem_map.mp hu
    exact hne (Prod.mk.inj heq).1.symm

theorem Ascends.union (h : db.Ascends first last) :
    (db.union first last).Pairwise fun x y => compareMined x y = .lt := by
  have hsorted : (db.union first last).Pairwise fun x y => (compareMined x y).isLE := by
    apply pairwise_mergeSort
    · exact fun _ _ _ => TransCmp.isLE_trans
    · intro x y
      have hswap : compareMined y x = (compareMined x y).swap := OrientedCmp.eq_swap
      rw [hswap]
      cases compareMined x y <;> rfl
  refine (hsorted.and h.nodup).imp_of_mem ?_
  rintro ⟨t, row⟩ ⟨u, row'⟩ hx hy ⟨hle, hne⟩
  cases hcompare : compareMined (t, row) (u, row') with
  | lt => rfl
  | gt => simp [hcompare] at hle
  | eq =>
      -- rows that compare as equal are of one thread, whose rows differ
      obtain ⟨hkeys, hthreads⟩ := Ordering.then_eq_eq.mp hcompare
      cases LawfulEqOrd.eq_of_compare hthreads
      obtain ⟨ht, hrow⟩ := mem_union.mp hx
      obtain ⟨_, hrow'⟩ := mem_union.mp hy
      exact absurd (congrArg (Prod.mk t) (eq_of_compare_eq (h.rows ht) hrow hrow' hkeys)) hne

/-! ### Merging -/

/-- A thread with its label, as it is merged. -/
def input (db : RedoDatabase) (first last : Scn) (thread : UInt16) : MergeInput RedoRow :=
  { label := threadLabel thread, cursor := { rows := db.rowsOf first last thread } }

/-- What is merged: each thread once. -/
def inputs (db : RedoDatabase) (first last : Scn) : List (MergeInput RedoRow) :=
  (RedoReader.distinctThreads db.threads).map (db.input first last)

theorem Ascends.orderly (h : db.Ascends first last) :
    ∀ input ∈ db.inputs first last, input.cursor.Orderly := by
  intro input hinput
  obtain ⟨t, ht, rfl⟩ := mem_map.mp hinput
  exact ⟨rfl, h.rows (RedoReader.mem_distinctThreads.mp ht)⟩

theorem nodup_labels : ((db.inputs first last).map MergeInput.label).Nodup := by
  have hlabels : (db.inputs first last).map MergeInput.label =
      (RedoReader.distinctThreads db.threads).map threadLabel := by
    rw [inputs, map_map]
    rfl
  rw [hlabels]
  exact (RedoReader.nodup_distinctThreads db.threads).map threadLabel_injective

theorem eval_mineAll_cons {t : UInt16} {cursor : Cursor RedoRow} (h : db.mine t first last = .ok cursor)
    (threads : List UInt16) :
    db.eval (RedoReader.mineAll first last (t :: threads)) =
      (db.eval (RedoReader.mineAll first last threads)).map
        ({ label := threadLabel t, cursor } :: ·) := by
  have hmine : db.eval (RedoProgram.mine t first last) = .ok cursor := h
  apply (eval_andThen (RedoProgram.mine t first last) _).trans
  rw [hmine]
  exact eval_andThen (RedoReader.mineAll first last threads) _

theorem Ascends.eval_mineAll (h : db.Ascends first last) {threads : List UInt16}
    (hthreads : ∀ t ∈ threads, t ∈ db.threads) :
    db.eval (RedoReader.mineAll first last threads) = .ok (threads.map (db.input first last)) := by
  induction threads with
  | nil => rfl
  | cons t threads ih =>
      obtain ⟨ht, hrest⟩ := forall_mem_cons.mp hthreads
      obtain ⟨⟨rows, _⟩, hcursor, rfl, _⟩ := h t ht
      have hrows : db.rowsOf first last t = rows := by rw [rowsOf, hcursor]
      rw [eval_mineAll_cons hcursor, ih hrest, map_cons, input, hrows]
      rfl

/-- The reader that merges all threads is opened. -/
theorem Ascends.exists_opened (h : db.Ascends first last) (hrange : ¬ last < first) :
    ∃ merge, Merge.start (db.inputs first last) = .ok merge ∧ db.opened first last = .ok { merge } := by
  obtain ⟨merge, hmerge⟩ := Merge.exists_start h.orderly
  refine ⟨merge, hmerge, ?_⟩
  rw [opened_eq hrange, h.eval_mineAll fun t => RedoReader.mem_distinctThreads.mp]
  change (Merge.start (db.inputs first last)).map _ = _
  rw [hmerge]
  rfl

/-- Under their labels the rows that the merge gives are those of all threads, in the same order. -/
theorem Ascends.labelled_drain (h : db.Ascends first last) {merge : Merge RedoRow}
    (hmerge : Merge.start (db.inputs first last) = .ok merge) (hend : merge.drain.2 = none) :
    Merge.labelled (db.inputs first last) merge.drain.1 =
      (db.union first last).map fun x => (threadLabel x.1, x.2) := by
  have hunites := Merge.unites_drain h.orderly hmerge hend
  apply eq_of_ascending (hunites.labelled_ascending nodup_labels)
  · refine pairwise_map.mpr (h.union.imp ?_)
    intro x y hlt
    rcases Ordering.then_eq_lt.mp hlt with hkeys | ⟨hkeys, hthreads⟩
    · exact Ordering.then_eq_lt.mpr (.inl hkeys)
    · exact Ordering.then_eq_lt.mpr (.inr ⟨hkeys, compare_threadLabel_eq_lt hthreads⟩)
  · intro a
    rw [hunites.mem_labelled, mem_map]
    constructor
    · rintro ⟨_, hinput, hlabel, hrow⟩
      obtain ⟨t, ht, rfl⟩ := mem_map.mp hinput
      exact ⟨(t, a.2), mem_union.mpr ⟨RedoReader.mem_distinctThreads.mp ht, hrow⟩,
        Prod.ext hlabel.symm rfl⟩
    · rintro ⟨x, hx, rfl⟩
      obtain ⟨ht, hrow⟩ := mem_union.mp hx
      exact ⟨_, mem_map_of_mem (RedoReader.mem_distinctThreads.mpr ht), rfl, hrow⟩

/-! ### Records -/

/-- What a call returns for a row. -/
def reply (db : RedoDatabase) (x : UInt16 × RedoRow) : Except CaptureError (ChangeRecord .oracle) :=
  match Operation.ofCode? x.2.operationCode.toNat with
  | none => .error (RedoReader.unsupportedOperation (threadLabel x.1) x.2)
  | some operation =>
      (db.schema x.2.table).bind (RedoReader.recordOf (threadLabel x.1) operation x.2)

/-- The answers to what a reader asks for a table. -/
def Describes (db : RedoDatabase) (table : TableId) (schema : Except CaptureError TableSchema) : Prop :=
  schema = db.schema table

theorem reply_of_replies {x : UInt16 × RedoRow} {reply : Except CaptureError (ChangeRecord .oracle)}
    (h : RedoReader.Replies db.Describes (threadLabel x.1) x.2 reply) : reply = db.reply x := by
  rw [RedoDatabase.reply]
  cases h with
  | unsupported hoperation => rw [hoperation]
  | undescribed hoperation htable =>
      rw [hoperation, ← htable]
      rfl
  | read hoperation htable hreply =>
      rw [hoperation, ← htable]
      exact hreply.symm

theorem ends_called (reader : RedoReader) :
    Ends (describing db.Describes) reader.next () (db.called reader) () := by
  refine (@ends_answering interface _ db.answer reader.next).mono ?_
  intro _ r answer _ hanswer
  cases r with
  | redoThreads => trivial
  | mine thread first last => trivial
  | tableSchema table => exact hanswer

/-- The calls up to one, and what it returns. -/
theorem exists_calls (db : RedoDatabase) (reader : RedoReader) (n : Nat) :
    ∃ results last, reader.Calls (describing db.Describes) results last ∧
      results[n]? = some (db.returned reader n) := by
  induction n generalizing reader with
  | zero => exact ⟨[_], _, .cons (ends_called reader) (.nil _), rfl⟩
  | succ n ih =>
      obtain ⟨results, last, hcalls, hresult⟩ := ih (db.called reader).2
      exact ⟨_ :: results, last, .cons (ends_called reader) hcalls, hresult⟩

/-- The rows of all threads are answered for one by one, and then nothing is left for ever. -/
theorem Ascends.returned_eq (h : db.Ascends first last) {merge : Merge RedoRow}
    (hmerge : Merge.start (db.inputs first last) = .ok merge) (n : Nat) :
    db.returned { merge } n =
      (db.union first last)[n]?.elim (.ok none) fun x => (db.reply x).map some := by
  obtain ⟨pending, _, hstarted⟩ := Merge.start_eq_ok.mp hmerge
  have hlabels : merge.labels = (db.inputs first last).map MergeInput.label := by rw [hstarted]
  have hend : merge.drain.2 = none :=
    Merge.drain_failure_eq_none (by rw [hstarted]) (Merge.orderly_of_start h.orderly hmerge)
  obtain ⟨results, final, hcalls, hresult⟩ := exists_calls db { merge } n
  have hreturns := hcalls.returns nofun hresult
  rw [hend, hlabels] at hreturns
  have hrow := congrArg (·[n]?) (h.labelled_drain hmerge hend)
  simp only [Merge.labelled, getElem?_map] at hrow
  cases hgiven : merge.drain.1[n]? with
  | none =>
      rw [hgiven] at hreturns hrow
      rw [Option.map_eq_none_iff.mp hrow.symm]
      exact hreturns
  | some given =>
      rw [hgiven] at hreturns hrow
      obtain ⟨x, hx, hlabelled⟩ := Option.map_eq_some_iff.mp hrow.symm
      obtain ⟨hlabel, hsame⟩ := Prod.mk.inj hlabelled
      obtain ⟨reply, hreply, hreplies⟩ := hreturns
      rw [← hlabel, ← hsame] at hreplies
      rw [hx, hreply, reply_of_replies hreplies]
      rfl

/-- The row holds a statement on its table that does what the operation code says, with some values. -/
def Parses (db : RedoDatabase) (x : UInt16 × RedoRow) (images : RowImages) : Prop :=
  Operation.ofCode? x.2.operationCode.toNat = some images.operation ∧
    ∃ schema, db.schema x.2.table = .ok schema ∧ Statement.parseImages x.2.sql schema = .ok images

/-- The record of a row of a thread that holds some values. -/
def record (x : UInt16 × RedoRow) (images : RowImages) : ChangeRecord .oracle where
  kind := images.operation.kind
  opCode := x.2.operationCode
  table := x.2.table
  source := threadLabel x.1
  position := x.2.scn
  sequence := Sequence.ofUInt64 x.2.sequence
  old := images.old
  new := images.new

theorem reply_of_parses {x : UInt16 × RedoRow} {images : RowImages} (h : db.Parses x images) :
    db.reply x = .ok (record x images) := by
  obtain ⟨hoperation, schema, hschema, himages⟩ := h
  have hrecord : RedoReader.recordOf (threadLabel x.1) images.operation x.2 schema =
      .ok (record x images) := by
    simp only [RedoReader.recordOf, himages, if_true]
    rfl
  rw [reply, hoperation, hschema]
  exact hrecord

/-- A reader, what its calls return and so the first failure do not depend on how the threads are listed.
If the rows of each thread are in strict order, the calls answer one by one for the rows of the different
threads, sorted by key and thread, and then nothing is left for ever. If the rows also parse, the answers
are their records. -/
theorem reads_union (db : RedoDatabase) (first last : Scn) :
    (∀ threads : List UInt16, (∀ t, t ∈ threads ↔ t ∈ db.threads) →
      { db with threads }.opened first last = db.opened first last ∧
        ∀ reader n, { db with threads }.returned reader n = db.returned reader n) ∧
    (¬ last < first → db.Ascends first last →
      ∃ reader, db.opened first last = .ok reader ∧
        (∀ n, db.returned reader n =
          (db.union first last)[n]?.elim (.ok none) fun x => (db.reply x).map some) ∧
        ∀ images : UInt16 × RedoRow → RowImages,
          (∀ x ∈ db.union first last, db.Parses x (images x)) →
          ∀ n, db.returned reader n = .ok ((db.union first last)[n]?.map fun x => record x (images x))) := by
  constructor
  · intro threads hthreads
    exact ⟨opened_congr hthreads, returned_congr⟩
  · intro hrange h
    obtain ⟨merge, hmerge, hopened⟩ := h.exists_opened hrange
    refine ⟨_, hopened, h.returned_eq hmerge, ?_⟩
    intro images hparses n
    rw [h.returned_eq hmerge]
    cases hx : (db.union first last)[n]? with
    | none => rfl
    | some x =>
        rw [Option.elim_some, reply_of_parses (hparses x (mem_of_getElem? hx))]
        rfl

section Sample

open RedoReader (sampleImages sampleRow sampleSchema)

/-- Two threads insert into one table at one place, and one of them is listed twice. -/
def sample : RedoDatabase where
  threads := [2, 1, 2]
  mine _ _ _ := .ok { rows := [sampleRow "T"] }
  schema table := .ok (sampleSchema table.table)

theorem ascends_sample : sample.Ascends (.ofNat 42) (.ofNat 42) :=
  fun _ _ => ⟨_, rfl, rfl, pairwise_singleton _ _⟩

theorem union_sample : sample.union (.ofNat 42) (.ofNat 42) = [(1, sampleRow "T"), (2, sampleRow "T")] :=
  mergeSort_of_pairwise (by decide)

theorem parses_sample (t : UInt16) : sample.Parses (t, sampleRow "T") sampleImages :=
  ⟨rfl, sampleSchema "T", rfl, RedoReader.parseImages_sampleRow (by decide) (by decide)⟩

end Sample

theorem reads_union_of_sample :
    ({ sample with threads := [1, 2] }.opened (.ofNat 42) (.ofNat 42) =
      sample.opened (.ofNat 42) (.ofNat 42)) ∧
    ∃ reader, sample.opened (.ofNat 42) (.ofNat 42) = .ok reader ∧
      ∀ n, sample.returned reader n =
        .ok [RedoReader.sampleRecord 1 "T", RedoReader.sampleRecord 2 "T"][n]? := by
  obtain ⟨hthreads, hunion⟩ := reads_union sample (.ofNat 42) (.ofNat 42)
  refine ⟨(hthreads [1, 2] (by simp [sample, or_comm])).1, ?_⟩
  obtain ⟨reader, hopened, _, hrecords⟩ := hunion (by decide) ascends_sample
  refine ⟨reader, hopened, fun n => ?_⟩
  rw [union_sample] at hrecords
  rw [hrecords (fun _ => RedoReader.sampleImages) ?_ n, ← getElem?_map]
  · rfl
  · exact forall_mem_cons.mpr ⟨parses_sample 1, forall_mem_singleton.mpr (parses_sample 2)⟩

end RedoDatabase

end ChangeCapture
