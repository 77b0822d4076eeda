import ChangeCapture.Proofs.Snapshot.Keeping
import ChangeCapture.Proofs.Steps
import ChangeCapture.Snapshot.Reading

/-! # Readings of tables

What a first reading asks and what it is answered, table by table. -/

namespace ChangeCapture

open List CaptureStep
open Program (Answers Ends ends_andThen leads_done)

/-! ## Replies -/

/-- A request with the answer to it. -/
abbrev Reply := (r : CaptureRequest) × r.Answer

namespace Reply

def locked (table : TableId) (timeout : Nat) (answer : LockAnswer) : Reply :=
  ⟨.lockTable table timeout, answer⟩

def queried (schema : TableSchema) (answer : Except CaptureError (Cursor Row)) : Reply :=
  ⟨.server (.snapshotRows schema.id schema.columnNames), answer⟩

def delivered (record : ChangeRecord .sqlserver) (answer : Except CaptureError Unit) : Reply :=
  ⟨.deliver record, answer⟩

def unlocked (table : TableId) (answer : Except CaptureError Unit) : Reply :=
  ⟨.server (.unlockTable table), answer⟩

end Reply

/-- All that was asked and answered, and the files that keep progress. -/
structure Dialogue where
  replies : List Reply := []
  files : String → Option String := fun _ => none

/-- The text of a file is written. -/
def CaptureRequest.Writes : CaptureRequest → Prop
  | .storage (.writeProgress _ _) => True
  | _ => False

namespace Dialogue

def note (d : Dialogue) (replies : List Reply) : Dialogue := { d with replies := d.replies ++ replies }

/-- Any request may be answered in any way. A file that was written holds the text; one that could not be
written holds the text or what it held before. -/
def Responds (d : Dialogue) (r : CaptureRequest) (answer : r.Answer) (d' : Dialogue) : Prop :=
  d'.replies = d.replies ++ [⟨r, answer⟩] ∧
    match r, answer with
    | .storage (.writeProgress path text), answer =>
        d'.files = Function.update d.files path (some text) ∨
          d'.files = d.files ∧ ∃ e, answer = .error e
    | _, _ => d'.files = d.files

def answers : Answers CaptureRequest.interface Dialogue := fun d r answer d' => d.Responds r answer d'

variable {d d' : Dialogue}

@[simp] theorem note_nil (d : Dialogue) : d.note [] = d := by
  simp [note]

@[simp] theorem note_note (d : Dialogue) (replies replies' : List Reply) :
    (d.note replies).note replies' = d.note (replies ++ replies') := by
  simp [note]

theorem responds_iff {r : CaptureRequest} (hr : ¬ r.Writes) {answer : r.Answer} :
    Responds d r answer d' ↔ d' = d.note [⟨r, answer⟩] := by
  have hfiles : Responds d r answer d' ↔
      d'.replies = d.replies ++ [⟨r, answer⟩] ∧ d'.files = d.files := by
    cases r with
    | storage request =>
        cases request with
        | writeProgress => exact absurd trivial hr
        | loadOffset | saveOffset | readProgress => rfl
    | server | lockTable | deliver | isActive | now => rfl
  rw [hfiles]
  constructor
  · rintro ⟨hreplies, hfiles⟩
    obtain ⟨replies, files⟩ := d'
    cases hreplies
    cases hfiles
    rfl
  · rintro rfl
    exact ⟨rfl, rfl⟩

/-- The run of a single request that writes no file. -/
theorem ends_ask {r : CaptureRequest} (hr : ¬ r.Writes) {answer : r.Answer} :
    Ends answers (Server.ask r) d answer d' ↔ d' = d.note [⟨r, answer⟩] :=
  ends_request.trans (responds_iff hr)

end Dialogue

namespace SnapshotReading

open Dialogue (answers)

variable {d d' : Dialogue}

/-! ## Rows -/

section Rows

variable (schema : TableSchema) (watermark : Lsn)

/-- What is replied while rows are handed over, and how that ends. -/
inductive Delivers : List Row → List Reply → Except CaptureError Unit → Prop where
  | done : Delivers [] [] (.ok ())
  | narrow {row rows} (hwidth : row.length ≠ schema.width) :
      Delivers (row :: rows) [] (.error (wrongWidth schema row))
  | lost {row rows e} (hwidth : row.length = schema.width) :
      Delivers (row :: rows) [.delivered (record schema watermark row) (.error e)] (.error e)
  | acknowledged {row rows replies result} (hwidth : row.length = schema.width) :
      Delivers rows replies result →
      Delivers (row :: rows) (.delivered (record schema watermark row) (.ok ()) :: replies) result

/-- What is replied while a table is read, and how that ends. -/
inductive Reads : List Reply → Except CaptureError Nat → Prop where
  | refused (e) : Reads [.queried schema (.error e)] (.error e)
  | stopped {cursor replies e} (h : Delivers schema watermark cursor.rows replies (.error e)) :
      Reads (.queried schema (.ok cursor) :: replies) (.error e)
  | drained {cursor replies} (h : Delivers schema watermark cursor.rows replies (.ok ())) :
      Reads (.queried schema (.ok cursor) :: replies)
        (cursor.failure.elim (.ok cursor.rows.length) .error)

/-- What is replied while a table is read under its lock, and how that ends. -/
inductive ReadsLocked (timeout : Nat) : List Reply → Except CaptureError Nat → Prop where
  | expired : ReadsLocked timeout [.locked schema.id timeout .expired]
      (.error (.lockTimeout schema.id.display timeout))
  | refused (e) : ReadsLocked timeout [.locked schema.id timeout (.refused e)] (.error e)
  | granted {replies result} (released : Except CaptureError Unit)
      (h : Reads schema watermark replies result) :
      ReadsLocked timeout
        (.locked schema.id timeout .granted :: (replies ++ [.unlocked schema.id released]))
        (afterRelease result released)

end Rows

section Runs

variable {schema : TableSchema} {watermark : Lsn}

theorem ends_deliver {record : ChangeRecord .sqlserver} {answer : Except CaptureError Unit} :
    Ends answers (Server.deliver record).run d answer d' ↔ d' = d.note [.delivered record answer] :=
  Dialogue.ends_ask id

theorem ends_snapshotRows {answer : Except CaptureError (Cursor Row)} :
    Ends answers (Server.snapshotRows schema.id schema.columnNames).run d answer d' ↔
      d' = d.note [.queried schema answer] := Dialogue.ends_ask id

theorem ends_lockTable {timeout : Nat} {answer : LockAnswer} :
    Ends answers (Server.lockTable schema.id timeout) d answer d' ↔
      d' = d.note [.locked schema.id timeout answer] := Dialogue.ends_ask id

theorem ends_unlockTable {answer : Except CaptureError Unit} :
    Ends answers (Server.unlockTable schema.id) d answer d' ↔ d' = d.note [.unlocked schema.id answer] :=
  Dialogue.ends_ask id

theorem ends_deliverRows {rows : List Row} {result : Except CaptureError Unit} :
    Ends answers (deliverRows schema watermark rows).run d result d' ↔
      ∃ replies, Delivers schema watermark rows replies result ∧ d' = d.note replies := by
  induction rows generalizing d with
  | nil =>
      refine ends_pure.trans ⟨?_, ?_⟩
      · rintro ⟨rfl, rfl⟩
        exact ⟨[], .done, d'.note_nil.symm⟩
      · rintro ⟨_, ⟨⟩, rfl⟩
        exact ⟨rfl, d.note_nil⟩
  | cons row rows ih =>
      unfold deliverRows
      by_cases hwidth : row.length = schema.width
      · rw [if_neg (not_not_intro hwidth), ends_bind_iff]
        constructor
        · rintro (⟨_, v, hrow, hrows⟩ | ⟨e, rfl, hrow⟩)
          · obtain rfl := ends_deliver.mp hrow
            obtain ⟨replies, hreplies, rfl⟩ := ih.mp hrows
            exact ⟨_, .acknowledged hwidth hreplies, d.note_note _ _⟩
          · exact ⟨_, .lost hwidth, ends_deliver.mp hrow⟩
        · rintro ⟨_, h, rfl⟩
          cases h with
          | narrow hnarrow => exact absurd hwidth hnarrow
          | lost => exact .inr ⟨_, rfl, ends_deliver.mpr rfl⟩
          | @acknowledged _ _ replies _ _ h =>
              refine .inl ⟨(), _, ends_deliver.mpr rfl, ih.mpr ⟨replies, h, ?_⟩⟩
              rw [Dialogue.note_note, singleton_append]
      · rw [if_pos hwidth]
        refine ends_ofExcept.trans ⟨?_, ?_⟩
        · rintro ⟨rfl, rfl⟩
          exact ⟨[], .narrow hwidth, d'.note_nil.symm⟩
        · rintro ⟨_, h, rfl⟩
          cases h with
          | narrow => exact ⟨rfl, d.note_nil⟩
          | lost hwide | acknowledged hwide => exact absurd hwide hwidth

/-- Behind the rows comes the failure of the cursor, if there is one. -/
theorem ends_drained {cursor : Cursor Row} {result : Except CaptureError Nat} :
    Ends answers (match cursor.failure with
      | some e => throw e
      | none => return cursor.rows.length : CaptureStep Nat).run d result d' ↔
      result = cursor.failure.elim (.ok cursor.rows.length) .error ∧ d' = d := by
  cases cursor.failure with
  | none => exact ends_pure
  | some e => exact ends_ofExcept

theorem ends_readTable {result : Except CaptureError Nat} :
    Ends answers (readTable schema watermark).run d result d' ↔
      ∃ replies, Reads schema watermark replies result ∧ d' = d.note replies := by
  unfold readTable
  rw [ends_bind_iff]
  constructor
  · rintro (⟨cursor, v, hquery, h⟩ | ⟨e, rfl, hquery⟩)
    · obtain rfl := ends_snapshotRows.mp hquery
      obtain ⟨_, v, hrows, h⟩ | ⟨e, rfl, hrows⟩ := ends_bind_iff.mp h
      · obtain ⟨replies, hreplies, rfl⟩ := ends_deliverRows.mp hrows
        obtain ⟨rfl, rfl⟩ := ends_drained.mp h
        exact ⟨_, .drained hreplies, d.note_note _ _⟩
      · obtain ⟨replies, hreplies, rfl⟩ := ends_deliverRows.mp hrows
        exact ⟨_, .stopped hreplies, d.note_note _ _⟩
    · exact ⟨_, .refused e, ends_snapshotRows.mp hquery⟩
  · rintro ⟨_, h, rfl⟩
    cases h with
    | refused e => exact .inr ⟨e, rfl, ends_snapshotRows.mpr rfl⟩
    | @stopped cursor replies e h =>
        have hrows := (ends_deliverRows (d := d.note [.queried schema (.ok cursor)])).mpr ⟨replies, h, rfl⟩
        rw [Dialogue.note_note] at hrows
        exact .inl ⟨cursor, _, ends_snapshotRows.mpr rfl, ends_bind_iff.mpr (.inr ⟨e, rfl, hrows⟩)⟩
    | @drained cursor replies h =>
        have hrows := (ends_deliverRows (d := d.note [.queried schema (.ok cursor)])).mpr ⟨replies, h, rfl⟩
        rw [Dialogue.note_note] at hrows
        exact .inl ⟨cursor, _, ends_snapshotRows.mpr rfl,
          ends_bind_iff.mpr (.inl ⟨(), _, hrows, ends_drained.mpr ⟨rfl, rfl⟩⟩)⟩

theorem ends_locked {timeout : Nat} {result : Except CaptureError Nat} :
    Ends answers (locked schema.id timeout (readTable schema watermark)).run d result d' ↔
      ∃ replies, ReadsLocked schema watermark timeout replies result ∧ d' = d.note replies := by
  unfold CaptureStep.locked withTableLock
  refine ends_andThen.trans ?_
  constructor
  · rintro ⟨answer, v, hlock, h⟩
    obtain rfl := ends_lockTable.mp hlock
    cases answer with
    | expired =>
        obtain ⟨h, rfl⟩ := leads_done.mp h
        cases h
        exact ⟨_, .expired, rfl⟩
    | refused e =>
        obtain ⟨h, rfl⟩ := leads_done.mp h
        cases h
        exact ⟨_, .refused e, rfl⟩
    | granted =>
        obtain ⟨read, v, hread, h⟩ := ends_andThen.mp h
        obtain ⟨released, u, hrelease, h⟩ := ends_andThen.mp h
        obtain ⟨replies, hreplies, rfl⟩ := ends_readTable.mp hread
        obtain rfl := ends_unlockTable.mp hrelease
        obtain ⟨h, rfl⟩ := leads_done.mp h
        cases h
        refine ⟨_, .granted released hreplies, ?_⟩
        rw [Dialogue.note_note, Dialogue.note_note, singleton_append]
  · rintro ⟨_, h, rfl⟩
    cases h with
    | expired => exact ⟨.expired, _, ends_lockTable.mpr rfl, .refl _ _⟩
    | refused e => exact ⟨.refused e, _, ends_lockTable.mpr rfl, .refl _ _⟩
    | @granted replies result released h =>
        have hread := (ends_readTable (d := d.note [.locked schema.id timeout .granted])).mpr
          ⟨replies, h, rfl⟩
        refine ⟨.granted, _, ends_lockTable.mpr rfl, ends_andThen.mpr ⟨result, _, hread, ?_⟩⟩
        refine ends_andThen.mpr ⟨released, _, ends_unlockTable.mpr rfl, ?_⟩
        rw [Dialogue.note_note, Dialogue.note_note, singleton_append]
        exact .refl _ _

end Runs

/-! ## Steps that keep progress -/

section Steps

variable {α : Type} {state state' : SnapshotState} {result : Except CaptureError α}

theorem ends_liftStep {step : CaptureStep α} :
    Ends answers ((liftStep step).run.run state) d (result, state') d' ↔
      state' = state ∧ Ends answers step.run d result d' := StatefulStep.ends_lift

theorem ends_watermark_bind {f : Lsn → SnapshotStep α} :
    Ends answers ((do f (← ExceptT.mk (return (← get).watermark)) : SnapshotStep α).run.run state) d
        (result, state') d' ↔
      (∃ watermark, state.watermark = .ok watermark ∧
        Ends answers ((f watermark).run.run state) d (result, state') d') ∨
      ∃ e, state.watermark = .error e ∧ result = .error e ∧ state' = state ∧ d' = d := by
  refine StatefulStep.ends_get_bind.trans ?_
  cases hwatermark : state.watermark with
  | ok watermark =>
      refine ⟨fun h => .inl ⟨watermark, rfl, h⟩, ?_⟩
      rintro (⟨_, ⟨⟩, h⟩ | ⟨_, ⟨⟩, _⟩)
      exact h
  | error e =>
      have hends : Ends answers ((ExceptT.mk (pure (.error e)) : SnapshotStep α).run.run state) d
          (result, state') d' ↔ result = .error e ∧ state' = state ∧ d' = d := StatefulStep.ends_ofExcept
      refine hends.trans ⟨?_, ?_⟩
      · rintro ⟨rfl, rfl, rfl⟩
        exact .inr ⟨e, rfl, rfl, rfl, rfl⟩
      · rintro (⟨_, ⟨⟩, _⟩ | ⟨_, ⟨⟩, rfl, rfl, rfl⟩)
        exact ⟨rfl, rfl, rfl⟩

end Steps

/-! ## Tables -/

/-- The progress is written to its file, if there is one. -/
def Saves (path : Option String) (state : SnapshotState) (d : Dialogue) (result : Except CaptureError Unit)
    (d' : Dialogue) : Prop :=
  match path with
  | some path => d.Responds (.storage (.writeProgress path state.write)) result d'
  | none => result = .ok () ∧ d' = d

section Turns

variable (timeout : Nat) (path : Option String) (watermark : Lsn)

/-- The turn of a table. -/
inductive Turn (schema : TableSchema) (state : SnapshotState) (d : Dialogue) :
    Except CaptureError Unit → SnapshotState → Dialogue → Prop where
  | skipped (hcomplete : state.isTableComplete schema.id.schema schema.id.table) :
      Turn schema state d (.ok ()) (state.addTable schema.id.schema schema.id.table) d
  | failed {replies e} (hcomplete : ¬ state.isTableComplete schema.id.schema schema.id.table)
      (hread : ReadsLocked schema watermark timeout replies (.error e)) :
      Turn schema state d (.error e) (state.addTable schema.id.schema schema.id.table) (d.note replies)
  | read {replies rows after result d'}
      (hcomplete : ¬ state.isTableComplete schema.id.schema schema.id.table)
      (hread : ReadsLocked schema watermark timeout replies (.ok rows))
      (hafter : after = (state.addTable schema.id.schema schema.id.table).markComplete
        schema.id.schema schema.id.table rows)
      (hsave : Saves path after (d.note replies) result d') : Turn schema state d result after d'

/-- The turns of some tables; a failure ends them. -/
inductive Turns : List TableSchema → SnapshotState → Dialogue →
    Except CaptureError Unit → SnapshotState → Dialogue → Prop where
  | nil (state d) : Turns [] state d (.ok ()) state d
  | failed {schema schemas state d e state' d'}
      (h : Turn timeout path watermark schema state d (.error e) state' d') :
      Turns (schema :: schemas) state d (.error e) state' d'
  | cons {schema schemas state d between v result state' d'}
      (h : Turn timeout path watermark schema state d (.ok ()) between v) :
      Turns schemas between v result state' d' → Turns (schema :: schemas) state d result state' d'

end Turns

/-- A first reading of some tables. -/
inductive Executes (timeout : Nat) (path : Option String) (schemas : List TableSchema)
    (state : SnapshotState) (d : Dialogue) :
    Except CaptureError Unit → SnapshotState → Dialogue → Prop where
  | unreadable {e} (hwatermark : state.watermark = .error e) :
      Executes timeout path schemas state d (.error e) state d
  | failed {watermark e state' d'} (hwatermark : state.watermark = .ok watermark)
      (hturns : Turns timeout path watermark schemas state d (.error e) state' d') :
      Executes timeout path schemas state d (.error e) state' d'
  | finished {watermark between v after result d'} (time : Int)
      (hwatermark : state.watermark = .ok watermark)
      (hturns : Turns timeout path watermark schemas state d (.ok ()) between v)
      (hafter : after = { between with completedAt := some time })
      (hsave : Saves path after (v.note [⟨.now, time⟩]) result d') :
      Executes timeout path schemas state d result after d'

section Runs

variable {timeout : Nat} {path : Option String} {watermark : Lsn} {schema : TableSchema}
  {schemas : List TableSchema} {state state' : SnapshotState} {result : Except CaptureError Unit}

theorem ends_saveProgress : Ends answers ((saveProgress path).run.run state) d (result, state') d' ↔
    state' = state ∧ Saves path state d result d' := by
  cases path with
  | none =>
      refine StatefulStep.ends_ofExcept.trans ?_
      rw [Saves, and_left_comm]
  | some path =>
      refine StatefulStep.ends_get_bind.trans (ends_liftStep.trans ?_)
      rw [Saves]
      exact and_congr_right fun _ => ends_request

theorem ends_snapshotTable :
    Ends answers ((snapshotTable timeout path watermark schema).run.run state) d (result, state') d' ↔
      Turn timeout path watermark schema state d result state' d' := by
  unfold snapshotTable
  refine StatefulStep.ends_modify_bind.trans (StatefulStep.ends_get_bind.trans ?_)
  rw [SnapshotState.isTableComplete_addTable]
  by_cases hcomplete : state.isTableComplete schema.id.schema schema.id.table
  · rw [if_pos hcomplete]
    refine StatefulStep.ends_ofExcept.trans ⟨?_, ?_⟩
    · rintro ⟨rfl, rfl, rfl⟩
      exact .skipped hcomplete
    · intro h
      cases h with
      | skipped => exact ⟨rfl, rfl, rfl⟩
      | failed hunread | read hunread => exact absurd hcomplete hunread
  · rw [if_neg hcomplete]
    refine StatefulStep.ends_bind_iff.trans ⟨?_, ?_⟩
    · rintro (⟨rows, between, v, hread, h⟩ | ⟨e, rfl, hread⟩)
      · obtain ⟨rfl, hlocked⟩ := ends_liftStep.mp hread
        obtain ⟨replies, hreplies, rfl⟩ := ends_locked.mp hlocked
        obtain ⟨rfl, hsave⟩ := ends_saveProgress.mp (StatefulStep.ends_modify_bind.mp h)
        exact .read hcomplete hreplies rfl hsave
      · obtain ⟨rfl, hlocked⟩ := ends_liftStep.mp hread
        obtain ⟨replies, hreplies, rfl⟩ := ends_locked.mp hlocked
        exact .failed hcomplete hreplies
    · intro h
      cases h with
      | skipped hread => exact absurd hread hcomplete
      | failed _ hread => exact .inr ⟨_, rfl, ends_liftStep.mpr ⟨rfl, ends_locked.mpr ⟨_, hread, rfl⟩⟩⟩
      | read _ hread hafter hsave =>
          refine .inl ⟨_, _, _, ends_liftStep.mpr ⟨rfl, ends_locked.mpr ⟨_, hread, rfl⟩⟩, ?_⟩
          subst hafter
          exact StatefulStep.ends_modify_bind.mpr (ends_saveProgress.mpr ⟨rfl, hsave⟩)

theorem ends_snapshotTables :
    Ends answers ((snapshotTables timeout path watermark schemas).run.run state) d (result, state') d' ↔
      Turns timeout path watermark schemas state d result state' d' := by
  induction schemas generalizing state d with
  | nil =>
      refine StatefulStep.ends_ofExcept.trans ⟨?_, ?_⟩
      · rintro ⟨rfl, rfl, rfl⟩
        exact .nil _ _
      · rintro ⟨⟩
        exact ⟨rfl, rfl, rfl⟩
  | cons schema schemas ih =>
      refine StatefulStep.ends_bind_iff.trans ⟨?_, ?_⟩
      · rintro (⟨_, between, v, hturn, h⟩ | ⟨e, rfl, hturn⟩)
        · exact .cons (ends_snapshotTable.mp hturn) (ih.mp h)
        · exact .failed (ends_snapshotTable.mp hturn)
      · intro h
        cases h with
        | failed h => exact .inr ⟨_, rfl, ends_snapshotTable.mpr h⟩
        | cons h hrest => exact .inl ⟨(), _, _, ends_snapshotTable.mpr h, ih.mpr hrest⟩

theorem ends_now {answer : Except CaptureError Int} :
    Ends answers (ExceptT.lift Server.now : CaptureStep Int).run d answer d' ↔
      ∃ time, answer = .ok time ∧ d' = d.note [⟨.now, time⟩] := by
  refine ends_andThen.trans ⟨?_, ?_⟩
  · rintro ⟨time, v, hnow, h⟩
    obtain ⟨h, rfl⟩ := leads_done.mp h
    cases h
    exact ⟨time, rfl, (Dialogue.ends_ask id).mp hnow⟩
  · rintro ⟨time, rfl, rfl⟩
    exact ⟨time, _, (Dialogue.ends_ask id).mpr rfl, .refl _ _⟩

theorem ends_execute :
    Ends answers (execute timeout path schemas state) d (result, state') d' ↔
      Executes timeout path schemas state d result state' d' := by
  unfold execute snapshot
  refine ends_watermark_bind.trans ⟨?_, ?_⟩
  · rintro (⟨watermark, hwatermark, h⟩ | ⟨e, hwatermark, rfl, rfl, rfl⟩)
    · obtain ⟨_, between, v, hturns, h⟩ | ⟨e, rfl, hturns⟩ := StatefulStep.ends_bind_iff.mp h
      · obtain ⟨time, _, v, hnow, h⟩ | ⟨e, rfl, hnow⟩ := StatefulStep.ends_bind_iff.mp h
        · obtain ⟨rfl, hclock⟩ := ends_liftStep.mp hnow
          obtain ⟨_, ⟨⟩, rfl⟩ := ends_now.mp hclock
          obtain ⟨rfl, hsave⟩ := ends_saveProgress.mp (StatefulStep.ends_modify_bind.mp h)
          exact .finished time hwatermark (ends_snapshotTables.mp hturns) rfl hsave
        · obtain ⟨_, hclock⟩ := ends_liftStep.mp hnow
          obtain ⟨_, ⟨⟩, _⟩ := ends_now.mp hclock
      · exact .failed hwatermark (ends_snapshotTables.mp hturns)
    · exact .unreadable hwatermark
  · intro h
    cases h with
    | unreadable hwatermark => exact .inr ⟨_, hwatermark, rfl, rfl, rfl⟩
    | failed hwatermark hturns =>
        have hfailed := ends_snapshotTables.mpr hturns
        exact .inl ⟨_, hwatermark, StatefulStep.ends_bind_iff.mpr (.inr ⟨_, rfl, hfailed⟩)⟩
    | @finished _ between v _ _ _ time hwatermark hturns hafter hsave =>
        subst hafter
        have hswept := ends_snapshotTables.mpr hturns
        refine .inl ⟨_, hwatermark, StatefulStep.ends_bind_iff.mpr (.inl ⟨(), between, v, hswept, ?_⟩)⟩
        apply StatefulStep.ends_bind_iff.mpr
        refine .inl ⟨time, between, v.note [⟨.now, time⟩], ends_liftStep.mpr ⟨rfl, ?_⟩, ?_⟩
        · exact ends_now.mpr ⟨time, rfl, rfl⟩
        · exact StatefulStep.ends_modify_bind.mpr (ends_saveProgress.mpr ⟨rfl, hsave⟩)

end Runs

end SnapshotReading

end ChangeCapture
