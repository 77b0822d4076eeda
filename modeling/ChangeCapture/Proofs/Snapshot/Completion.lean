import ChangeCapture.Proofs.Snapshot.Tables
import Mathlib.Data.List.Nodup

/-! # Which tables a first reading reads

Progress knows a table by its schema and its name with a point between them. Of the tables with one such
key the first is read, and the others are taken for it. -/

namespace ChangeCapture.SnapshotReading

open List
open Program (Ends)
open Dialogue (answers)

variable {path : Option String} {schemas : List TableSchema} {schema : TableSchema}
  {watermark : Lsn} {state state' kept : SnapshotState} {d d' : Dialogue} {replies replies' : List Reply}
  {timeout : Nat} {result : Except CaptureError Unit}

/-! ## Tables that were read -/

/-- All rows of a table were handed over at a position and acknowledged while its lock was held, and then
the lock was released. -/
def ReadWholly (schema : TableSchema) (watermark : Lsn) (replies : List Reply) : Prop :=
  ∃ timeout rows,
    .locked schema.id timeout .granted :: .queried schema (.ok { rows }) ::
      (rows.map (fun row => .delivered (record schema watermark row) (.ok ())) ++
        [.unlocked schema.id (.ok ())]) <:+: replies

theorem ReadWholly.mono (h : ReadWholly schema watermark replies) (hgrows : replies <+: replies') :
    ReadWholly schema watermark replies' := by
  obtain ⟨timeout, rows, hpart⟩ := h
  exact ⟨timeout, rows, hpart.trans hgrows.isInfix⟩

theorem Delivers.eq_of_ok {rows : List Row} (h : Delivers schema watermark rows replies result)
    (hresult : result = .ok ()) :
    replies = rows.map fun row => .delivered (record schema watermark row) (.ok ()) := by
  induction h with
  | done => rfl
  | narrow | lost => cases hresult
  | acknowledged _ _ ih => rw [map_cons, ih hresult]

theorem Reads.eq_of_ok {read : Except CaptureError Nat} (h : Reads schema watermark replies read)
    {n : Nat} (hread : read = .ok n) :
    ∃ rows, replies = .queried schema (.ok { rows }) ::
      rows.map fun row => .delivered (record schema watermark row) (.ok ()) := by
  cases h with
  | refused | stopped => cases hread
  | @drained cursor replies hrows =>
      obtain ⟨rows, failure⟩ := cursor
      cases failure with
      | none => exact ⟨rows, by rw [hrows.eq_of_ok rfl]⟩
      | some e => cases hread

theorem afterRelease_eq_ok {α : Type} {read : Except CaptureError α} {released : Except CaptureError Unit}
    {a : α} (h : afterRelease read released = .ok a) : read = .ok a ∧ released = .ok () := by
  cases read with
  | error e => cases h
  | ok b =>
      cases released with
      | error e => cases h
      | ok u => exact ⟨h, rfl⟩

/-- A table that was read without a failure was read wholly. -/
theorem ReadsLocked.readWholly {read : Except CaptureError Nat} {n : Nat}
    (h : ReadsLocked schema watermark timeout replies read) (hread : read = .ok n) (before : List Reply) :
    ReadWholly schema watermark (before ++ replies) := by
  cases h with
  | expired | refused => cases hread
  | granted released hbody =>
      obtain ⟨hbodyOk, rfl⟩ := afterRelease_eq_ok hread
      obtain ⟨rows, rfl⟩ := hbody.eq_of_ok hbodyOk
      exact ⟨timeout, rows, (suffix_append before _).isInfix⟩

/-! ## Locks -/

/-- While rows are handed over nothing else is asked for. -/
theorem Delivers.exists_row {rows : List Row} (h : Delivers schema watermark rows replies result)
    {reply : Reply} (hreply : reply ∈ replies) :
    ∃ row ∈ rows, reply.1 = .deliver (record schema watermark row) := by
  induction h with
  | done | narrow => cases hreply
  | @lost row => exact ⟨row, mem_cons_self, by rw [mem_singleton.mp hreply]; rfl⟩
  | @acknowledged row _ _ _ _ _ ih =>
      rcases mem_cons.mp hreply with rfl | hreply
      · exact ⟨row, mem_cons_self, rfl⟩
      · obtain ⟨other, hother, hdeliver⟩ := ih hreply
        exact ⟨other, mem_cons_of_mem _ hother, hdeliver⟩

/-- A table is read by a query and by handing over its rows. -/
theorem Reads.query_or_row {read : Except CaptureError Nat} (h : Reads schema watermark replies read)
    {reply : Reply} (hreply : reply ∈ replies) :
    reply.1 = .server (.snapshotRows schema.id schema.columnNames) ∨
      ∃ row, reply.1 = .deliver (record schema watermark row) := by
  cases h with
  | refused =>
      rw [mem_singleton.mp hreply]
      exact .inl rfl
  | stopped hrows | drained hrows =>
      rcases mem_cons.mp hreply with rfl | hreply
      · exact .inl rfl
      · obtain ⟨row, _, hrow⟩ := hrows.exists_row hreply
        exact .inr ⟨row, hrow⟩

/-- The only lock that is asked for is that of the table. -/
theorem ReadsLocked.lock_eq {read : Except CaptureError Nat} {reply : Reply} {table : TableId}
    {wait : Nat} (h : ReadsLocked schema watermark timeout replies read) (hreply : reply ∈ replies)
    (hlock : reply.1 = .lockTable table wait) : schema.id = table := by
  have hown {answer : LockAnswer} (heq : reply = .locked schema.id timeout answer) : schema.id = table := by
    subst heq
    exact (CaptureRequest.lockTable.inj hlock).1
  cases h with
  | expired | refused => exact hown (mem_singleton.mp hreply)
  | granted released hbody =>
      rcases mem_cons.mp hreply with hreply | hreply
      · exact hown hreply
      · rcases mem_append.mp hreply with hreply | hreply
        · rcases hbody.query_or_row hreply with hquery | ⟨row, hrow⟩
          · cases hquery.symm.trans hlock
          · cases hrow.symm.trans hlock
        · rw [mem_singleton.mp hreply] at hlock
          cases hlock

/-! ## Keys -/

/-- What progress knows a table by. -/
def key (schema : TableSchema) : String := SnapshotState.tableKey schema.id.schema schema.id.table

/-- The first of some tables that has a key. -/
def firstOf? (schemas : List TableSchema) (name : String) : Option TableSchema :=
  schemas.find? fun schema => key schema = name

theorem firstOf?_eq_some {before after : List TableSchema} (h : ∀ other ∈ before, key other ≠ key schema) :
    firstOf? (before ++ schema :: after) (key schema) = some schema := by
  have hbefore : before.find? (fun other => key other = key schema) = none := by
    rw [find?_eq_none]
    simpa using h
  simp [firstOf?, find?_append, hbefore]

/-! ## What is known between two tables -/

/-- Of the tables of each key that the progress calls done the first was read wholly at its position. -/
def Backed (schemas : List TableSchema) (state : SnapshotState) (replies : List Reply) : Prop :=
  ∀ watermark, state.watermark = .ok watermark → ∀ name, state.IsDone name →
    ∃ schema, firstOf? schemas name = some schema ∧ ReadWholly schema watermark replies

theorem Backed.mono (h : Backed schemas state replies) (hgrows : replies <+: replies') :
    Backed schemas state replies' := by
  intro watermark hwatermark name hdone
  obtain ⟨schema, hfirst, hread⟩ := h watermark hwatermark name hdone
  exact ⟨schema, hfirst, hread.mono hgrows⟩

/-- Progress backs what tells the same or less. -/
theorem Backed.weaken (h : Backed schemas state replies) (hwatermark : kept.watermark = state.watermark)
    (hdone : ∀ name, kept.IsDone name → state.IsDone name) : Backed schemas kept replies :=
  fun watermark hkept name hname => h watermark (hwatermark ▸ hkept) name (hdone name hname)

/-- What the file keeps is backed, and only first tables of their keys were ever locked. -/
structure Filed (path : Option String) (schemas : List TableSchema) (d : Dialogue) : Prop where
  kept : ∀ text kept, path.bind d.files = some text → SnapshotState.read text = .ok kept →
    Backed schemas kept d.replies
  locked : ∀ reply ∈ d.replies, ∀ table wait, reply.1 = .lockTable table wait →
    ∃ schema, schema.id = table ∧ firstOf? schemas (key schema) = some schema

theorem Filed.note (h : Filed path schemas d)
    (hlocked : ∀ reply ∈ replies, ∀ table wait, reply.1 = .lockTable table wait →
      ∃ schema, schema.id = table ∧ firstOf? schemas (key schema) = some schema) :
    Filed path schemas (d.note replies) where
  kept text kept htext hkept := (h.kept text kept htext hkept).mono (prefix_append _ _)
  locked reply hreply := (mem_append.mp hreply).elim (h.locked reply) (hlocked reply)

/-- Progress that is backed may be written to the file, whether that succeeds or fails. -/
theorem Filed.save (h : Filed path schemas d) (hbacked : Backed schemas state d.replies)
    (hsave : Saves path state d result d') : Filed path schemas d' ∧ d.replies <+: d'.replies := by
  cases path with
  | none =>
      obtain ⟨_, rfl⟩ := hsave
      exact ⟨h, prefix_rfl⟩
  | some path =>
      obtain ⟨hreplies, hfiles⟩ := hsave
      have hgrows : d.replies <+: d'.replies := hreplies ▸ prefix_append _ _
      refine ⟨⟨?_, ?_⟩, hgrows⟩
      · intro text kept htext hkept
        rcases hfiles with hfiles | ⟨hfiles, _⟩
        · rw [Option.bind_some, hfiles, Function.update_self] at htext
          cases htext
          have hsame := SnapshotState.same_of_read hkept
          exact (hbacked.mono hgrows).weaken hsame.watermark fun name => hsame.isDone.mp
        · rw [hfiles] at htext
          exact (h.kept text kept htext hkept).mono hgrows
      · intro reply hreply table wait hlock
        rw [hreplies] at hreply
        rcases mem_append.mp hreply with hreply | hreply
        · exact h.locked reply hreply table wait hlock
        · rw [mem_singleton.mp hreply] at hlock
          cases hlock

/-- What is known between two tables of a call. -/
structure Sound (path : Option String) (schemas : List TableSchema) (watermark : Lsn)
    (state : SnapshotState) (d : Dialogue) : Prop extends Filed path schemas d where
  watermark_eq : state.watermark = .ok watermark
  backed : Backed schemas state d.replies

section Sound

variable {before after : List TableSchema}

/-- A table that is not done has none of its key before it. -/
theorem firstOf?_of_not_isTableComplete (after : List TableSchema)
    (hdone : ∀ other ∈ before, state.IsDone (key other))
    (hcomplete : ¬ state.isTableComplete schema.id.schema schema.id.table) :
    firstOf? (before ++ schema :: after) (key schema) = some schema := by
  apply firstOf?_eq_some
  intro other hother hkey
  have hother := hdone other hother
  rw [hkey] at hother
  exact hcomplete (SnapshotState.isTableComplete_iff.mpr hother)

theorem Sound.turn (h : Sound path (before ++ schema :: after) watermark state d)
    (hdone : ∀ other ∈ before, state.IsDone (key other))
    (hturn : Turn timeout path watermark schema state d result state' d') :
    Sound path (before ++ schema :: after) watermark state' d' ∧
      (result = .ok () → ∀ other ∈ before ++ [schema], state'.IsDone (key other)) := by
  have hadded : Backed (before ++ schema :: after)
      (state.addTable schema.id.schema schema.id.table) d.replies :=
    h.backed.weaken rfl fun _ => SnapshotState.isDone_addTable.mp
  cases hturn with
  | skipped hcomplete =>
      refine ⟨⟨h.toFiled, h.watermark_eq, hadded⟩, fun _ => ?_⟩
      rw [forall_mem_append, forall_mem_singleton]
      refine ⟨fun other hother => SnapshotState.isDone_addTable.mpr (hdone other hother), ?_⟩
      exact SnapshotState.isDone_addTable.mpr (SnapshotState.isTableComplete_iff.mp hcomplete)
  | failed hcomplete hread =>
      have hfirst := firstOf?_of_not_isTableComplete after hdone hcomplete
      have hfiled := h.toFiled.note fun reply hreply table wait hlock =>
        ⟨schema, hread.lock_eq hreply hlock, hfirst⟩
      exact ⟨⟨hfiled, h.watermark_eq, hadded.mono (prefix_append _ _)⟩, fun hok => by cases hok⟩
  | @read replies rows _ _ _ hcomplete hread hafter hsave =>
      have hfirst := firstOf?_of_not_isTableComplete after hdone hcomplete
      have hfiled := h.toFiled.note fun reply hreply table wait hlock =>
        ⟨schema, hread.lock_eq hreply hlock, hfirst⟩
      have hisDone (name : String) : state'.IsDone name ↔ name = key schema ∨ state.IsDone name := by
        rw [hafter, SnapshotState.isDone_markComplete SnapshotState.mem_addTable,
          SnapshotState.isDone_addTable, key]
      have hwatermark : state'.watermark = .ok watermark := by
        rw [hafter, SnapshotState.watermark_markComplete]
        exact h.watermark_eq
      have hbacked : Backed (before ++ schema :: after) state' (d.note replies).replies := by
        intro other hother name hname
        cases hwatermark.symm.trans hother
        rcases (hisDone name).mp hname with rfl | hname
        · exact ⟨schema, hfirst, hread.readWholly rfl d.replies⟩
        · exact h.backed.mono (prefix_append _ _) watermark h.watermark_eq name hname
      obtain ⟨hfiled, hgrows⟩ := hfiled.save hbacked hsave
      refine ⟨⟨hfiled, hwatermark, hbacked.mono hgrows⟩, fun _ => ?_⟩
      rw [forall_mem_append, forall_mem_singleton]
      exact ⟨fun other hother => (hisDone _).mpr (.inr (hdone other hother)), (hisDone _).mpr (.inl rfl)⟩

end Sound

/-- The tables of a call are done one after another. -/
theorem Sound.turns {rest : List TableSchema}
    (hturns : Turns timeout path watermark rest state d result state' d') :
    ∀ before, Sound path (before ++ rest) watermark state d →
      (∀ other ∈ before, state.IsDone (key other)) →
      Sound path (before ++ rest) watermark state' d' ∧
        (result = .ok () → ∀ other ∈ before ++ rest, state'.IsDone (key other)) := by
  induction hturns with
  | nil state d =>
      intro before h hdone
      exact ⟨h, fun _ => by simpa using hdone⟩
  | failed hturn =>
      intro before h hdone
      exact ⟨(h.turn hdone hturn).1, fun hok => by cases hok⟩
  | @cons schema schemas state d between v result state' d' hturn _ ih =>
      intro before h hdone
      obtain ⟨hbetween, hnext⟩ := h.turn hdone hturn
      rw [append_cons] at hbetween ⊢
      exact ih _ hbetween (hnext rfl)

theorem Sound.execute (h : Sound path schemas watermark state d)
    (hexecute : Executes timeout path schemas state d result state' d') :
    Filed path schemas d' ∧ (result = .ok () → Backed schemas state' d'.replies ∧
      state'.watermark = .ok watermark ∧ ∀ schema ∈ schemas, state'.IsDone (key schema)) := by
  have hnone : ∀ other ∈ ([] : List TableSchema), state.IsDone (key other) := by
    intro other hother
    cases hother
  cases hexecute with
  | unreadable hwatermark => exact ⟨h.toFiled, fun hok => by cases hok⟩
  | failed hwatermark hturns =>
      cases h.watermark_eq.symm.trans hwatermark
      exact ⟨(Sound.turns hturns [] h hnone).1.toFiled, fun hok => by cases hok⟩
  | @finished _ between v _ _ _ time hwatermark hturns hafter hsave =>
      cases h.watermark_eq.symm.trans hwatermark
      obtain ⟨hswept, hdone⟩ := Sound.turns hturns [] h hnone
      have hfiled : Filed path schemas (v.note [⟨.now, time⟩]) :=
        hswept.toFiled.note fun reply hreply table wait hlock => by
          rw [mem_singleton.mp hreply] at hlock
          cases hlock
      have hbacked : Backed schemas state' (v.note [⟨.now, time⟩]).replies := by
        refine (hswept.backed.mono (prefix_append _ _)).weaken ?_ fun name hname => ?_
        · rw [hafter]
          rfl
        · rw [hafter] at hname
          exact hname
      obtain ⟨hfiled, hgrows⟩ := hfiled.save hbacked hsave
      refine ⟨hfiled, fun _ => ⟨hbacked.mono hgrows, ?_, ?_⟩⟩
      · rw [hafter]
        exact hswept.watermark_eq
      · rw [hafter]
        exact hdone rfl

/-! ## Calls -/

/-- A call goes on from the progress that its file keeps, or begins anew if there is none. -/
def Begins (path : Option String) (d : Dialogue) (state : SnapshotState) : Prop :=
  match path.bind d.files with
  | some text => SnapshotState.read text = .ok state
  | none => ∃ database lsn time, state = .start database lsn time

/-- Calls one after another; each may have been interrupted by any failure. -/
inductive Calls (path : Option String) (schemas : List TableSchema) : Dialogue → Prop where
  | none {files} (hnew : path.bind files = none) : Calls path schemas { files }
  | call {d state timeout outcome d'} (h : Calls path schemas d) (hbegins : Begins path d state)
      (hcall : Ends answers (execute timeout path schemas state) d outcome d') : Calls path schemas d'

theorem Filed.begins (h : Filed path schemas d) (hbegins : Begins path d state) :
    Backed schemas state d.replies := by
  unfold Begins at hbegins
  split at hbegins
  · rename_i text htext
    exact h.kept text state htext hbegins
  · obtain ⟨database, lsn, time, rfl⟩ := hbegins
    exact fun _ _ name hname => absurd hname SnapshotState.not_isDone_start

theorem Filed.execute (h : Filed path schemas d) (hbegins : Begins path d state)
    (hexecute : Executes timeout path schemas state d result state' d') : Filed path schemas d' := by
  cases hwatermark : state.watermark with
  | ok watermark => exact (Sound.execute ⟨h, hwatermark, h.begins hbegins⟩ hexecute).1
  | error e =>
      cases hexecute with
      | unreadable => exact h
      | failed hok | finished _ hok => cases hwatermark.symm.trans hok

theorem Calls.filed (h : Calls path schemas d) : Filed path schemas d := by
  induction h with
  | none hnew =>
      constructor
      · intro text kept htext
        cases hnew.symm.trans htext
      · intro reply hreply
        cases hreply
  | call _ hbegins hcall ih => exact ih.execute hbegins (ends_execute.mp hcall)

/-- A table that was read was locked. -/
theorem Filed.first_of_readWholly (h : Filed path schemas d)
    (hread : ReadWholly schema watermark d.replies) :
    ∃ other, other.id = schema.id ∧ firstOf? schemas (key other) = some other := by
  obtain ⟨wait, rows, hpart⟩ := hread
  exact h.locked (.locked schema.id wait .granted) (hpart.subset mem_cons_self) schema.id wait rfl

/-- Behind any calls, a call begins with tables done whose keys have their first table read by an earlier call.
If it ends well, a table was read in one of the calls if and only if it is the first of its key. -/
theorem readWholly_iff_first_of_key
    (hdistinct : (schemas.map fun schema => (schema.id.schema, schema.id.table)).Nodup)
    (hcalls : Calls path schemas d) (hbegins : Begins path d state)
    (hcall : Ends answers (execute timeout path schemas state) d (result, state') d') :
    (∀ watermark, state.watermark = .ok watermark → ∀ schema ∈ schemas,
      state.isTableComplete schema.id.schema schema.id.table →
        ∃ first, firstOf? schemas (key schema) = some first ∧ ReadWholly first watermark d.replies) ∧
    (result = .ok () → ∃ watermark, state.watermark = .ok watermark ∧ ∀ schema ∈ schemas,
      ReadWholly schema watermark d'.replies ↔ firstOf? schemas (key schema) = some schema) := by
  have hexecute := ends_execute.mp hcall
  have hfiled := hcalls.filed
  have hbacked := hfiled.begins hbegins
  refine ⟨fun watermark hwatermark schema _ hcomplete => ?_, fun hok => ?_⟩
  · exact hbacked watermark hwatermark _ (SnapshotState.isTableComplete_iff.mp hcomplete)
  · cases hwatermark : state.watermark with
    | error e =>
        cases hexecute with
        | unreadable => cases hok
        | failed hread | finished _ hread => cases hwatermark.symm.trans hread
    | ok watermark =>
        obtain ⟨hfiled', hend⟩ := Sound.execute ⟨hfiled, hwatermark, hbacked⟩ hexecute
        obtain ⟨hbacked', hwatermark', hdone⟩ := hend hok
        refine ⟨watermark, rfl, fun schema hschema => ⟨fun hread => ?_, fun hfirst => ?_⟩⟩
        · obtain ⟨other, hother, hfirst⟩ := hfiled'.first_of_readWholly hread
          have hname : (other.id.schema, other.id.table) = (schema.id.schema, schema.id.table) := by
            rw [hother]
          rw [inj_on_of_nodup_map hdistinct (mem_of_find?_eq_some hfirst) hschema hname] at hfirst
          exact hfirst
        · obtain ⟨other, hother, hread⟩ := hbacked' watermark hwatermark' _ (hdone schema hschema)
          cases hfirst.symm.trans hother
          exact hread

/-! ## Two tables of one key -/

namespace SampleReading

def column : Column := { name := "id", position := 1, typeName := "int" }

def first : TableSchema := { id := ⟨"testdb", "a", "b.c"⟩, columns := [column] }

def second : TableSchema := { id := ⟨"testdb", "a.b", "c"⟩, columns := [column] }

def highest : Lsn := Position.ofNat 10

def started : SnapshotState := .start "testdb" highest 0

/-- The progress when the first table was read. -/
def halfway : SnapshotState := (started.addTable "a" "b.c").markComplete "a" "b.c" 1

theorem watermark_started : started.watermark = .ok highest := by decide +kernel

theorem watermark_halfway : halfway.watermark = .ok highest :=
  SnapshotState.watermark_markComplete.trans watermark_started

theorem isDone_halfway : halfway.IsDone (key first) :=
  (SnapshotState.isDone_markComplete SnapshotState.mem_addTable).mpr (.inl rfl)

theorem read_halfway : SnapshotState.read halfway.write = .ok halfway.refilled :=
  SnapshotState.read_write_eq_ok.mpr
    ⟨.markComplete (.addTable (SnapshotState.fits_start (by decide))) (by decide), rfl⟩

theorem same_halfway : halfway.Same halfway.refilled := SnapshotState.same_of_read read_halfway

theorem exists_readsLocked : ∃ replies, ReadsLocked first highest 1000 replies (.ok 1) := by
  have hrows : Delivers first highest (Cursor.rows { rows := [[some (.integer 1)]] })
      [.delivered (record first highest [some (.integer 1)]) (.ok ())] (.ok ()) := .acknowledged rfl .done
  exact ⟨_, .granted (.ok ()) (.drained hrows)⟩

/-- A file may be written. -/
theorem saves_written (path : String) (state : SnapshotState) (d : Dialogue) :
    Saves (some path) state d (.ok ())
      { replies := d.replies ++ [⟨.storage (.writeProgress path state.write), .ok ()⟩]
        files := Function.update d.files path (some state.write) } := ⟨rfl, .inl rfl⟩

/-- A file may fail to be written and stay as it is. -/
theorem saves_failed (path : String) (state : SnapshotState) (d : Dialogue) (e : CaptureError) :
    Saves (some path) state d (.error e)
      (d.note [⟨.storage (.writeProgress path state.write), .error e⟩]) := ⟨rfl, .inr ⟨rfl, e, rfl⟩⟩

/-- The first table is read and its progress is saved, and then the last save fails. -/
theorem exists_interrupted : ∃ state d,
    Executes 1000 (some "progress") [first, second] started {} (.error .json) state d ∧
      d.files "progress" = some halfway.write := by
  obtain ⟨replies, hread⟩ := exists_readsLocked
  have hfirst : ¬ started.isTableComplete first.id.schema first.id.table := fun h =>
    SnapshotState.not_isDone_start (SnapshotState.isTableComplete_iff.mp h)
  have hsecond : halfway.isTableComplete second.id.schema second.id.table :=
    SnapshotState.isTableComplete_iff.mpr isDone_halfway
  have hturns := Turns.cons (.read hfirst hread rfl (saves_written "progress" halfway (.note {} replies)))
    (.cons (.skipped hsecond) (.nil _ _))
  refine ⟨_, _, .finished 0 watermark_started hturns rfl (saves_failed "progress" _ _ .json), ?_⟩
  exact Function.update_self "progress" (some halfway.write) fun _ => none

/-- The next call finds both tables done. -/
theorem exists_resumed (d : Dialogue) : ∃ state' d',
    Executes 1000 (some "progress") [first, second] halfway.refilled d (.ok ()) state' d' := by
  have hwatermark := same_halfway.watermark.trans watermark_halfway
  have hdone : halfway.refilled.IsDone (key first) := same_halfway.isDone.mpr isDone_halfway
  have hturns : Turns 1000 (some "progress") highest [first, second] halfway.refilled d (.ok ()) _ _ :=
    .cons (.skipped (SnapshotState.isTableComplete_iff.mpr hdone))
      (.cons (.skipped (SnapshotState.isTableComplete_iff.mpr (SnapshotState.isDone_addTable.mpr hdone)))
        (.nil _ _))
  exact ⟨_, _, .finished 0 hwatermark hturns rfl (saves_written "progress" _ _)⟩

/-- A call was interrupted, and the next one ends well. -/
theorem exists_calls : ∃ d state' d', Calls (some "progress") [first, second] d ∧
    Begins (some "progress") d halfway.refilled ∧
    Ends answers (execute 1000 (some "progress") [first, second] halfway.refilled) d (.ok (), state')
      d' := by
  obtain ⟨state, d, hinterrupted, hfile⟩ := exists_interrupted
  obtain ⟨state', d', hresumed⟩ := exists_resumed d
  have hbegins : Begins (some "progress") {} started := ⟨"testdb", highest, 0, rfl⟩
  refine ⟨d, state', d', .call (.none rfl) hbegins (ends_execute.mpr hinterrupted), ?_,
    ends_execute.mpr hresumed⟩
  rw [Begins, Option.bind_some, hfile]
  exact read_halfway

end SampleReading

open SampleReading in
theorem readWholly_iff_first_of_key_of_sample : ∃ d state' d',
    Calls (some "progress") [first, second] d ∧ Begins (some "progress") d halfway.refilled ∧
    Ends answers (execute 1000 (some "progress") [first, second] halfway.refilled) d (.ok (), state') d' ∧
    ReadWholly first highest d.replies ∧ ¬ ReadWholly second highest d'.replies := by
  obtain ⟨d, state', d', hcalls, hbegins, hcall⟩ := exists_calls
  obtain ⟨hskipped, hread⟩ := readWholly_iff_first_of_key (by decide) hcalls hbegins hcall
  have hwatermark := same_halfway.watermark.trans watermark_halfway
  refine ⟨d, state', d', hcalls, hbegins, hcall, ?_, ?_⟩
  · obtain ⟨other, hother, hbefore⟩ := hskipped highest hwatermark first mem_cons_self
      (SnapshotState.isTableComplete_iff.mpr (same_halfway.isDone.mpr isDone_halfway))
    cases hother
    exact hbefore
  · obtain ⟨watermark, hother, hiff⟩ := hread rfl
    cases hwatermark.symm.trans hother
    rw [hiff second (mem_cons_of_mem _ mem_cons_self)]
    decide

open SampleReading in
/-- A table that no call has ever locked is taken for one that was read. -/
theorem exists_unread_of_same_key : ∃ d state' d',
    ([first, second].map fun schema => (schema.id.schema, schema.id.table)).Nodup ∧
    Calls (some "progress") [first, second] d ∧ Begins (some "progress") d halfway.refilled ∧
    Ends answers (execute 1000 (some "progress") [first, second] halfway.refilled) d (.ok (), state') d' ∧
    ∀ watermark, ¬ ReadWholly second watermark d'.replies := by
  obtain ⟨d, state', d', hcalls, hbegins, hcall⟩ := exists_calls
  refine ⟨d, state', d', by decide, hcalls, hbegins, hcall, fun watermark hread => ?_⟩
  obtain ⟨other, hother, hfirst⟩ := (Calls.call hcalls hbegins hcall).filed.first_of_readWholly hread
  rcases mem_pair.mp (mem_of_find?_eq_some hfirst) with rfl | rfl
  · exact absurd hother (by decide)
  · exact absurd hfirst (by decide)

end ChangeCapture.SnapshotReading
