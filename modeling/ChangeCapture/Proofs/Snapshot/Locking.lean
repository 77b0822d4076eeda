import ChangeCapture.Proofs.Snapshot.Completion

/-! # Locks of a first reading

A first reading holds the lock of one table at a time, hands over rows of that table only, and releases
the lock before it goes on or ends, whether the table could be read or not. -/

namespace ChangeCapture.SnapshotReading

open List
open Program (Ends)
open Dialogue (answers)

variable {path : Option String} {schemas : List TableSchema} {schema : TableSchema}
  {watermark : Lsn} {state between state' : SnapshotState} {d d' : Dialogue}
  {replies replies' : List Reply} {timeout : Nat} {result : Except CaptureError Unit}

/-! ## Events -/

/-- A lock is granted, a record is handed over, or the release of a lock is asked for. -/
inductive LockEvent where
  | locked (table : TableId)
  | handed (record : ChangeRecord .sqlserver)
  | released (table : TableId)

/-- A record and a release count whatever is answered to them. -/
def lockEvent? : Reply → Option LockEvent
  | ⟨.lockTable table _, LockAnswer.granted⟩ => some (.locked table)
  | ⟨.deliver record, _⟩ => some (.handed record)
  | ⟨.server (.unlockTable table), _⟩ => some (.released table)
  | _ => none

def events (replies : List Reply) : List LockEvent := replies.filterMap lockEvent?

/-- The tables whose locks are held behind an event. -/
def heldAfter (held : List TableId) : LockEvent → List TableId
  | .locked table => table :: held
  | .handed _ => held
  | .released table => held.erase table

/-- The tables whose locks are held behind some events. -/
def held (log : List LockEvent) : List TableId := log.foldl heldAfter []

/-! ## Visits -/

/-- What was done under the lock of a table. -/
structure Visit where
  schema : TableSchema
  /-- The records that were handed over. -/
  records : List (ChangeRecord .sqlserver)
  /-- How reading the table ended. -/
  body : Except CaptureError Nat
  /-- How releasing the lock ended. -/
  release : Except CaptureError Unit

namespace Visit

def events (v : Visit) : List LockEvent :=
  .locked v.schema.id :: (v.records.map .handed ++ [.released v.schema.id])

/-- Both reading the table and releasing its lock went well. -/
def Succeeds (v : Visit) : Prop := (∃ rows, v.body = .ok rows) ∧ v.release = .ok ()

/-- Replies hold the visit: a granted lock, a run of the reading of its table, and one release. -/
def IsPart (timeout : Nat) (watermark : Lsn) (replies : List Reply) (v : Visit) : Prop :=
  ∃ body, Ends answers (readTable v.schema watermark).run {} v.body (.note {} body) ∧
    (.locked v.schema.id timeout .granted :: (body ++ [.unlocked v.schema.id v.release])) <:+: replies ∧
    SnapshotReading.events body = v.records.map .handed ∧
    ∀ r ∈ v.records, ∃ row, r = record v.schema watermark row

theorem IsPart.mono {v : Visit} (h : v.IsPart timeout watermark replies) (hgrows : replies <:+: replies') :
    v.IsPart timeout watermark replies' := by
  obtain ⟨body, hreads, hpart, hrecords⟩ := h
  exact ⟨body, hreads, hpart.trans hgrows, hrecords⟩

end Visit

/-! ## Locks that are held -/

/-- Without a granted lock no more locks are held than before. -/
theorem length_foldl_heldAfter_le {log : List LockEvent} (h : ∀ table, .locked table ∉ log)
    (before : List TableId) : (log.foldl heldAfter before).length ≤ before.length := by
  induction log generalizing before with
  | nil => exact le_refl _
  | cons event log ih =>
      simp only [mem_cons, not_or] at h
      refine (ih (fun table => (h table).2) _).trans ?_
      cases event with
      | locked table => exact absurd rfl (h table).1
      | handed => exact le_refl _
      | released table => exact length_erase_le

theorem locked_not_mem_visit (v : Visit) (table : TableId) :
    .locked table ∉ v.records.map LockEvent.handed ++ [.released v.schema.id] := by
  simp

theorem foldl_heldAfter_handed (records : List (ChangeRecord .sqlserver)) (before : List TableId) :
    (records.map LockEvent.handed).foldl heldAfter before = before := by
  induction records with
  | nil => rfl
  | cons record records ih => exact ih

theorem foldl_heldAfter_visit (v : Visit) : v.events.foldl heldAfter [] = [] := by
  rw [Visit.events, foldl_cons, foldl_append, foldl_heldAfter_handed]
  simp [heldAfter]

theorem held_visits (visits : List Visit) : held (visits.flatMap Visit.events) = [] := by
  induction visits with
  | nil => rfl
  | cons v visits ih =>
      rw [held, flatMap_cons, foldl_append, foldl_heldAfter_visit]
      exact ih

/-- In the course of visits, one lock is held at most. -/
theorem length_held_le_one {visits : List Visit} {log : List LockEvent}
    (h : log <+: visits.flatMap Visit.events) : (held log).length ≤ 1 := by
  induction visits generalizing log with
  | nil =>
      rw [prefix_nil.mp h]
      exact Nat.zero_le 1
  | cons v visits ih =>
      rw [flatMap_cons] at h
      rcases prefix_or_prefix_of_prefix h (prefix_append _ _) with hvisit | ⟨rest, rfl⟩
      · rcases prefix_cons_iff.mp hvisit with rfl | ⟨rest, rfl, hrest⟩
        · exact Nat.zero_le 1
        · have hnone (table : TableId) : .locked table ∉ rest := fun hmem =>
            locked_not_mem_visit v table (hrest.subset hmem)
          exact length_foldl_heldAfter_le hnone [v.schema.id]
      · rw [held, foldl_append, foldl_heldAfter_visit]
        exact ih ((prefix_append_right_inj _).mp h)

/-! ## Replies of a visit -/

theorem events_append (replies replies' : List Reply) :
    events (replies ++ replies') = events replies ++ events replies' := filterMap_append

theorem Delivers.exists_records {rows : List Row} (h : Delivers schema watermark rows replies result) :
    ∃ records : List (ChangeRecord .sqlserver),
      events replies = records.map .handed ∧ ∀ r ∈ records, ∃ row, r = record schema watermark row := by
  induction h with
  | done | narrow => exact ⟨[], rfl, by simp⟩
  | @lost row => exact ⟨[record schema watermark row], rfl, by simp⟩
  | @acknowledged row rows replies _ _ _ ih =>
      obtain ⟨records, hevents, hrecords⟩ := ih
      refine ⟨record schema watermark row :: records, ?_, forall_mem_cons.mpr ⟨⟨row, rfl⟩, hrecords⟩⟩
      rw [map_cons, ← hevents]
      rfl

theorem Reads.exists_records {read : Except CaptureError Nat} (h : Reads schema watermark replies read) :
    ∃ records : List (ChangeRecord .sqlserver),
      events replies = records.map .handed ∧ ∀ r ∈ records, ∃ row, r = record schema watermark row := by
  cases h with
  | refused => exact ⟨[], rfl, by simp⟩
  | stopped hrows | drained hrows => exact hrows.exists_records

/-- A lock was asked for and not granted. -/
def IsRefusal (table : TableId) (reply : Reply) : Prop :=
  ∃ wait answer, reply = .locked table wait answer ∧ answer ≠ .granted

theorem Reads.not_isRefusal {read : Except CaptureError Nat} (h : Reads schema watermark replies read)
    {reply : Reply} (hreply : reply ∈ replies) (table : TableId) : ¬ IsRefusal table reply := by
  rintro ⟨wait, answer, rfl, _⟩
  rcases h.query_or_row hreply with hquery | ⟨row, hrow⟩
  · cases hquery
  · cases hrow

/-- Reading a table under its lock is a visit, or the lock was not granted. -/
theorem ReadsLocked.visit_or_refusal {read : Except CaptureError Nat}
    (h : ReadsLocked schema watermark timeout replies read) :
    (∃ v : Visit, v.schema = schema ∧ read = afterRelease v.body v.release ∧
      v.IsPart timeout watermark replies ∧ events replies = v.events ∧
      ∀ table, ∀ reply ∈ replies, ¬ IsRefusal table reply) ∨
    (∃ e, read = .error e) ∧ events replies = [] ∧
      ∀ table, ∀ reply ∈ replies, IsRefusal table reply → table = schema.id := by
  cases h with
  | expired | refused =>
      refine .inr ⟨⟨_, rfl⟩, rfl, fun table reply hreply ⟨wait, answer, heq, _⟩ => ?_⟩
      rw [mem_singleton.mp hreply] at heq
      exact (CaptureRequest.lockTable.inj (Sigma.mk.inj heq).1).1.symm
  | @granted body result release hbody =>
      obtain ⟨records, hevents, hrecords⟩ := hbody.exists_records
      refine .inl ⟨⟨schema, records, result, release⟩, rfl, rfl,
        ⟨body, ends_readTable.mpr ⟨body, hbody, rfl⟩, infix_rfl, hevents, hrecords⟩, ?_,
        fun table => forall_mem_cons.mpr ⟨?_, forall_mem_append.mpr ⟨?_, ?_⟩⟩⟩
      · rw [← singleton_append, events_append, events_append, hevents]
        rfl
      · rintro ⟨wait, answer, heq, hanswer⟩
        cases heq
        exact hanswer rfl
      · exact fun reply hreply => hbody.not_isRefusal hreply table
      · rintro reply hreply ⟨wait, answer, heq, _⟩
        rw [mem_singleton.mp hreply] at heq
        cases heq

/-! ## Progress -/

/-- The progress when a table has had its turn: the table is known, and is marked if its rows were read. -/
def afterTurn (state : SnapshotState) (turn : TableSchema × Option Nat) : SnapshotState :=
  let id := turn.1.id
  match turn.2 with
  | none => state.addTable id.schema id.table
  | some rows => (state.addTable id.schema id.table).markComplete id.schema id.table rows

theorem tables_foldl_afterTurn {other : SnapshotState} (h : other.tables = state.tables)
    (turns : List (TableSchema × Option Nat)) :
    (turns.foldl afterTurn other).tables = (turns.foldl afterTurn state).tables := by
  induction turns generalizing other state with
  | nil => exact h
  | cons turn turns ih =>
      apply ih
      obtain ⟨schema, rows⟩ := turn
      cases rows with
      | none => simp only [afterTurn, SnapshotState.addTable, h]
      | some rows =>
          simp only [afterTurn, SnapshotState.addTable, SnapshotState.markComplete, h]
          split <;> rfl

/-! ## Parts of a reading -/

/-- What a part of a reading asked for and did to the progress. -/
structure Brackets (timeout : Nat) (watermark : Lsn) (schemas : List TableSchema) (state : SnapshotState)
    (replies : List Reply) (visits : List Visit) (result : Except CaptureError Unit)
    (state' : SnapshotState) : Prop where
  events_eq : events replies = visits.flatMap Visit.events
  chosen : ∀ v ∈ visits, v.schema ∈ schemas ∧ v.IsPart timeout watermark replies
  fresh : ∀ v ∈ visits, ¬ state.IsDone (key v.schema)
  nodup : (visits.map fun v => key v.schema).Nodup
  /-- A visit that fails is the last thing that is done. -/
  failed : ∀ v ∈ visits, ∀ e, afterRelease v.body v.release = .error e → result = .error e
  refused : ∀ table, ∀ reply ∈ replies, IsRefusal table reply →
    (∃ e, result = .error e) ∧ ¬ state'.IsDone (SnapshotState.tableKey table.schema table.table) ∧
      ∀ v ∈ visits, v.schema.id ≠ table
  isDone_iff : ∀ name, state'.IsDone name ↔
    state.IsDone name ∨ ∃ v ∈ visits, v.Succeeds ∧ key v.schema = name
  /-- Tables had their turns, and only those whose visit succeeded were marked. -/
  marked : ∃ turns : List (TableSchema × Option Nat), turns.map Prod.fst <+ schemas ∧
    state'.tables = (turns.foldl afterTurn state).tables ∧
    ∀ schema rows, (schema, some rows) ∈ turns →
      ∃ v ∈ visits, v.schema = schema ∧ v.body = .ok rows ∧ v.release = .ok ()

namespace Brackets

variable {before after : List TableSchema} {visits visits' : List Visit}

theorem done_of_ok (h : Brackets timeout watermark schemas state replies visits (.ok ()) state')
    {v : Visit} (hv : v ∈ visits) : state'.IsDone (key v.schema) := by
  refine (h.isDone_iff _).mpr (.inr ⟨v, hv, ?_, rfl⟩)
  cases hread : afterRelease v.body v.release with
  | ok rows => exact ⟨⟨rows, (afterRelease_eq_ok hread).1⟩, (afterRelease_eq_ok hread).2⟩
  | error e => cases h.failed v hv e hread

theorem mono (h : Brackets timeout watermark before state replies visits result state')
    (hsub : before <+ after) : Brackets timeout watermark after state replies visits result state' where
  __ := h
  chosen v hv := ⟨hsub.subset (h.chosen v hv).1, (h.chosen v hv).2⟩
  marked := by
    obtain ⟨turns, hturns, hmarked⟩ := h.marked
    exact ⟨turns, hturns.trans hsub, hmarked⟩

/-- What asks for no lock and leaves the progress of the tables as it is. -/
theorem quiet (hevents : events replies = [])
    (hrefusal : ∀ table, ∀ reply ∈ replies, ¬ IsRefusal table reply) (htables : state'.tables = state.tables) :
    Brackets timeout watermark schemas state replies [] result state' where
  events_eq := hevents
  chosen := forall_mem_nil _
  fresh := forall_mem_nil _
  nodup := nodup_nil
  failed := forall_mem_nil _
  refused table reply hreply href := absurd href (hrefusal table reply hreply)
  isDone_iff name := by simp [SnapshotState.IsDone, htables]
  marked := ⟨[], nil_sublist _, htables, by simp⟩

/-- A table is skipped, or its lock is not granted. -/
theorem unvisited (hevents : events replies = [])
    (hrefused : ∀ table, ∀ reply ∈ replies, IsRefusal table reply →
      table = schema.id ∧ (∃ e, result = .error e) ∧ ¬ state.IsDone (key schema)) :
    Brackets timeout watermark [schema] state replies [] result
      (state.addTable schema.id.schema schema.id.table) where
  events_eq := hevents
  chosen := forall_mem_nil _
  fresh := forall_mem_nil _
  nodup := nodup_nil
  failed := forall_mem_nil _
  refused table reply hreply href := by
    obtain ⟨rfl, hresult, hdone⟩ := hrefused table reply hreply href
    rw [SnapshotState.isDone_addTable]
    exact ⟨hresult, hdone, forall_mem_nil _⟩
  isDone_iff name := by simp [SnapshotState.isDone_addTable]
  marked := ⟨[(schema, none)], .refl _, rfl, by simp⟩

/-- A table is visited. Whether it could be read shows in the result and in its progress. -/
theorem visited {v : Visit} {read : Except CaptureError Nat} (hdone : ¬ state.IsDone (key v.schema))
    (hread : read = afterRelease v.body v.release) (hpart : v.IsPart timeout watermark replies)
    (hevents : events replies = v.events)
    (hrefusal : ∀ table, ∀ reply ∈ replies, ¬ IsRefusal table reply) :
    Brackets timeout watermark [v.schema] state replies [v] (read.map fun _ => ())
      (afterTurn state (v.schema, read.toOption)) where
  events_eq := by rw [hevents, flatMap_singleton]
  chosen := forall_mem_singleton.mpr ⟨mem_singleton_self _, hpart⟩
  fresh := forall_mem_singleton.mpr hdone
  nodup := nodup_singleton _
  failed := by
    rw [forall_mem_singleton]
    intro e he
    rw [hread, he]
    rfl
  refused table reply hreply href := absurd href (hrefusal table reply hreply)
  isDone_iff name := by
    cases read with
    | ok rows =>
        obtain ⟨hbody, hrelease⟩ := afterRelease_eq_ok hread.symm
        have hsucceeds : v.Succeeds := ⟨⟨rows, hbody⟩, hrelease⟩
        refine (SnapshotState.isDone_markComplete SnapshotState.mem_addTable).trans ?_
        rw [SnapshotState.isDone_addTable, or_comm]
        simp [hsucceeds, key, eq_comm]
    | error e =>
        have hfails : ¬ v.Succeeds := by
          rintro ⟨⟨rows, hbody⟩, hrelease⟩
          rw [hbody, hrelease] at hread
          cases hread
        refine SnapshotState.isDone_addTable.trans ?_
        simp [hfails]
  marked := by
    refine ⟨[(v.schema, read.toOption)], .refl _, rfl, fun schema rows hmem => ?_⟩
    refine ⟨v, mem_singleton_self _, ?_⟩
    cases read with
    | ok n =>
        cases mem_singleton.mp hmem
        exact ⟨rfl, afterRelease_eq_ok hread.symm⟩
    | error e => cases mem_singleton.mp hmem

/-- One part of a reading goes well, and then comes another. -/
theorem append (h : Brackets timeout watermark before state replies visits (.ok ()) between)
    (h' : Brackets timeout watermark after between replies' visits' result state') :
    Brackets timeout watermark (before ++ after) state (replies ++ replies') (visits ++ visits') result
      state' where
  events_eq := by rw [events_append, h.events_eq, h'.events_eq, flatMap_append]
  chosen := by
    refine forall_mem_append.mpr ⟨fun v hv => ?_, fun v hv => ?_⟩
    · exact ⟨mem_append_left _ (h.chosen v hv).1, (h.chosen v hv).2.mono (prefix_append _ _).isInfix⟩
    · exact ⟨mem_append_right _ (h'.chosen v hv).1, (h'.chosen v hv).2.mono (suffix_append _ _).isInfix⟩
  fresh := by
    refine forall_mem_append.mpr ⟨h.fresh, fun v hv hdone => h'.fresh v hv ?_⟩
    exact (h.isDone_iff _).mpr (.inl hdone)
  nodup := by
    rw [map_append]
    refine h.nodup.append h'.nodup fun name hname hname' => ?_
    obtain ⟨v, hv, rfl⟩ := mem_map.mp hname
    obtain ⟨w, hw, hkey⟩ := mem_map.mp hname'
    exact h'.fresh w hw (hkey ▸ h.done_of_ok hv)
  failed := forall_mem_append.mpr ⟨fun v hv e he => (nomatch h.failed v hv e he), h'.failed⟩
  refused table := by
    refine forall_mem_append.mpr ⟨fun reply hreply href => ?_, fun reply hreply href => ?_⟩
    · obtain ⟨⟨e, he⟩, _⟩ := h.refused table reply hreply href
      cases he
    · obtain ⟨hresult, hdone, hother⟩ := h'.refused table reply hreply href
      -- the visits before went well, and a table that is done would have been skipped
      refine ⟨hresult, hdone, forall_mem_append.mpr ⟨fun v hv heq => hdone ?_, hother⟩⟩
      rw [← heq]
      exact (h'.isDone_iff _).mpr (.inl (h.done_of_ok hv))
  isDone_iff name := by
    rw [h'.isDone_iff, h.isDone_iff, or_assoc]
    simp only [mem_append, or_and_right, exists_or]
  marked := by
    obtain ⟨turns, hturns, htables, hmarked⟩ := h.marked
    obtain ⟨turns', hturns', htables', hmarked'⟩ := h'.marked
    refine ⟨turns ++ turns', ?_, ?_, fun schema rows hmem => ?_⟩
    · rw [map_append]
      exact hturns.append hturns'
    · rw [htables', foldl_append]
      exact tables_foldl_afterTurn htables turns'
    · rcases mem_append.mp hmem with hmem | hmem
      · obtain ⟨v, hv, hread⟩ := hmarked schema rows hmem
        exact ⟨v, mem_append_left _ hv, hread⟩
      · obtain ⟨v, hv, hread⟩ := hmarked' schema rows hmem
        exact ⟨v, mem_append_right _ hv, hread⟩

/-- Writing progress takes no lock. -/
theorem save (timeout : Nat) (watermark : Lsn) (hsave : Saves path state d result d') :
    ∃ replies, d'.replies = d.replies ++ replies ∧
      Brackets timeout watermark [] state replies [] result state := by
  cases path with
  | none =>
      obtain ⟨_, rfl⟩ := hsave
      exact ⟨[], (append_nil _).symm, quiet rfl (fun _ => forall_mem_nil _) rfl⟩
  | some path =>
      refine ⟨_, hsave.1, quiet rfl (fun table => forall_mem_singleton.mpr ?_) rfl⟩
      rintro ⟨wait, answer, heq, _⟩
      cases heq

theorem turn (hturn : Turn timeout path watermark schema state d result state' d') :
    ∃ replies visits, d'.replies = d.replies ++ replies ∧
      Brackets timeout watermark [schema] state replies visits result state' := by
  cases hturn with
  | skipped => exact ⟨[], [], (append_nil _).symm, unvisited rfl fun _ => forall_mem_nil _⟩
  | @failed replies e hcomplete hread =>
      have hdone : ¬ state.IsDone (key schema) := mt SnapshotState.isTableComplete_iff.mpr hcomplete
      rcases hread.visit_or_refusal with
        ⟨v, rfl, hbody, hpart, hevents, hrefusal⟩ | ⟨_, hevents, hrefusal⟩
      · exact ⟨replies, [v], rfl, visited hdone hbody hpart hevents hrefusal⟩
      · refine ⟨replies, [], rfl, unvisited hevents fun table reply hreply href => ?_⟩
        exact ⟨hrefusal table reply hreply href, ⟨e, rfl⟩, hdone⟩
  | @read replies rows _ _ _ hcomplete hread hafter hsave =>
      have hdone : ¬ state.IsDone (key schema) := mt SnapshotState.isTableComplete_iff.mpr hcomplete
      rcases hread.visit_or_refusal with ⟨v, rfl, hbody, hpart, hevents, hrefusal⟩ | ⟨⟨e, he⟩, _⟩
      · obtain ⟨replies', hreplies, hsaved⟩ := save timeout watermark hsave
        subst hafter
        have hvisited := visited hdone hbody hpart hevents hrefusal
        refine ⟨replies ++ replies', [v] ++ [], ?_, hvisited.append hsaved⟩
        rw [hreplies, Dialogue.note, append_assoc]
      · cases he

theorem turns (hturns : Turns timeout path watermark schemas state d result state' d') :
    ∃ replies visits, d'.replies = d.replies ++ replies ∧
      Brackets timeout watermark schemas state replies visits result state' := by
  induction hturns with
  | nil state d =>
      exact ⟨[], [], (append_nil _).symm, quiet rfl (fun _ => forall_mem_nil _) rfl⟩
  | @failed schema schemas state d e state' d' h =>
      obtain ⟨replies, visits, hreplies, hturn⟩ := turn h
      exact ⟨replies, visits, hreplies, hturn.mono (by simp)⟩
  | @cons schema schemas state d between v result state' d' h _ ih =>
      obtain ⟨replies, visits, hreplies, hturn⟩ := turn h
      obtain ⟨replies', visits', hreplies', hrest⟩ := ih
      refine ⟨replies ++ replies', visits ++ visits', ?_, hturn.append hrest⟩
      rw [hreplies', hreplies, append_assoc]

theorem execute (hexecute : Executes timeout path schemas state d result state' d') :
    (∃ e, state.watermark = .error e ∧ result = .error e ∧ state' = state ∧ d' = d) ∨
    ∃ watermark replies visits, state.watermark = .ok watermark ∧ d'.replies = d.replies ++ replies ∧
      Brackets timeout watermark schemas state replies visits result state' := by
  cases hexecute with
  | unreadable hwatermark => exact .inl ⟨_, hwatermark, rfl, rfl, rfl⟩
  | @failed watermark e _ _ hwatermark hturns =>
      obtain ⟨replies, visits, hreplies, h⟩ := turns hturns
      exact .inr ⟨watermark, replies, visits, hwatermark, hreplies, h⟩
  | @finished watermark between v _ _ _ time hwatermark hturns hafter hsave =>
      obtain ⟨replies, visits, hreplies, h⟩ := turns hturns
      obtain ⟨replies', hreplies', hsaved⟩ := save timeout watermark hsave
      have hclock : Brackets timeout watermark [] between [⟨.now, time⟩] [] (.ok ()) state' :=
        quiet rfl (fun table => forall_mem_singleton.mpr (nomatch ·)) (by rw [hafter])
      refine .inr ⟨watermark, replies ++ ([⟨.now, time⟩] ++ replies'), visits ++ ([] ++ []),
        hwatermark, ?_, ?_⟩
      · rw [hreplies', Dialogue.note, hreplies, append_assoc, append_assoc]
      · exact (h.append (hclock.append hsaved)).mono (by simp)

/-- A table that was visited is done if and only if its visit succeeded. -/
theorem isDone_key_iff (h : Brackets timeout watermark schemas state replies visits result state') {v : Visit}
    (hv : v ∈ visits) : state'.IsDone (key v.schema) ↔ v.Succeeds := by
  rw [h.isDone_iff]
  constructor
  · rintro (hdone | ⟨w, hw, hsucceeds, hkey⟩)
    · exact absurd hdone (h.fresh v hv)
    · cases inj_on_of_nodup_map h.nodup hw hv hkey
      exact hsucceeds
  · exact fun hsucceeds => .inr ⟨v, hv, hsucceeds, rfl⟩

/-- Records of a table are handed over in a visit of the table. -/
theorem exists_visit (h : Brackets timeout watermark schemas state replies visits result state')
    {record : ChangeRecord .sqlserver} {answer : Except CaptureError Unit}
    (hrecord : .delivered record answer ∈ replies) : ∃ v ∈ visits, v.schema.id = record.table := by
  have hevent : .handed record ∈ events replies := mem_filterMap.mpr ⟨_, hrecord, rfl⟩
  rw [h.events_eq, mem_flatMap] at hevent
  obtain ⟨v, hv, hmem⟩ := hevent
  simp only [Visit.events, mem_cons, mem_append, mem_map, LockEvent.handed.injEq, exists_eq_right,
    reduceCtorEq, not_mem_nil, or_false, false_or] at hmem
  obtain ⟨_, ⟨_, _, _, _, hrecords⟩⟩ := h.chosen v hv
  obtain ⟨row, rfl⟩ := hrecords record hmem
  exact ⟨v, hv, rfl⟩

end Brackets

/-- What is asked for in a first reading are visits of tables: a lock, records of its table, and a release.
So one lock is held at most and none in the end. A table is marked only if it was read and its lock released
without a failure, and the failure of reading one is that of the whole. -/
theorem reads_under_locks
    (hcall : Ends answers (SnapshotReading.execute timeout path schemas state) d (result, state') d') :
    ∃ (replies : List Reply) (visits : List Visit), d'.replies = d.replies ++ replies ∧
      events replies = visits.flatMap Visit.events ∧
      (∀ v ∈ visits, v.schema ∈ schemas ∧ ∃ watermark, state.watermark = .ok watermark ∧
        v.IsPart timeout watermark replies) ∧
      (∀ log, log <+: events replies → (held log).length ≤ 1) ∧ held (events replies) = [] ∧
      (∀ table, ∀ reply ∈ replies, IsRefusal table reply →
        ∀ record answer, .delivered record answer ∈ replies → record.table ≠ table) ∧
      (∀ v ∈ visits, state'.isTableComplete v.schema.id.schema v.schema.id.table ↔ v.Succeeds) ∧
      (∃ turns : List (TableSchema × Option Nat), turns.map Prod.fst <+ schemas ∧
        state'.tables = (turns.foldl afterTurn state).tables ∧
        ∀ schema rows, (schema, some rows) ∈ turns →
          ∃ v ∈ visits, v.schema = schema ∧ v.body = .ok rows ∧ v.release = .ok ()) ∧
      ∀ v ∈ visits, ∀ e, v.body = .error e → result = .error e := by
  rcases Brackets.execute (ends_execute.mp hcall) with
    ⟨e, _, rfl, rfl, rfl⟩ | ⟨watermark, replies, visits, hwatermark, hreplies, h⟩
  · refine ⟨[], [], (append_nil _).symm, rfl, forall_mem_nil _, fun log hlog => ?_, rfl,
      fun _ => forall_mem_nil _, forall_mem_nil _, ⟨[], nil_sublist _, rfl, by simp⟩, forall_mem_nil _⟩
    rw [prefix_nil.mp hlog]
    exact Nat.zero_le 1
  · refine ⟨replies, visits, hreplies, h.events_eq, fun v hv => ?_, fun log hlog => ?_, ?_, ?_,
      fun v hv => ?_, h.marked, fun v hv e he => h.failed v hv e ?_⟩
    · exact ⟨(h.chosen v hv).1, watermark, hwatermark, (h.chosen v hv).2⟩
    · exact length_held_le_one (h.events_eq ▸ hlog)
    · rw [h.events_eq]
      exact held_visits visits
    · intro table reply hreply href record answer hrecord heq
      obtain ⟨v, hv, htable⟩ := h.exists_visit hrecord
      exact (h.refused table reply hreply href).2.2 v hv (htable.trans heq)
    · rw [SnapshotState.isTableComplete_iff]
      exact h.isDone_key_iff hv
    · rw [he]
      rfl

namespace SampleReading

def orders : TableSchema := { id := ⟨"testdb", "a", "orders"⟩, columns := [column] }

/-- The first table is read. A row of the second is too narrow, and its lock cannot be released either. -/
theorem exists_broken : ∃ state' d',
    Executes 1000 none [first, orders] started {} (.error (wrongWidth orders [])) state' d' := by
  obtain ⟨replies, hread⟩ := exists_readsLocked
  have hfirst : ¬ started.isTableComplete first.id.schema first.id.table := fun h =>
    SnapshotState.not_isDone_start (SnapshotState.isTableComplete_iff.mp h)
  have horders : ¬ halfway.isTableComplete orders.id.schema orders.id.table := by
    rw [SnapshotState.isTableComplete_iff, halfway,
      SnapshotState.isDone_markComplete SnapshotState.mem_addTable, SnapshotState.isDone_addTable]
    rintro (hkey | hdone)
    · exact absurd hkey (by decide)
    · exact SnapshotState.not_isDone_start hdone
  have hrows : Delivers orders highest (Cursor.rows { rows := [[]] }) [] (.error (wrongWidth orders [])) :=
    .narrow (by decide)
  have hbroken : ReadsLocked orders highest 1000 _ (.error (wrongWidth orders [])) :=
    .granted (.error .json) (.stopped hrows)
  have hsave : Saves none halfway (.note {} replies) (.ok ()) (.note {} replies) := ⟨rfl, rfl⟩
  have hturns : Turns 1000 none highest [first, orders] started {} _ _ _ :=
    .cons (.read hfirst hread rfl hsave) (.failed (.failed horders hbroken))
  exact ⟨_, _, .failed watermark_started hturns⟩

end SampleReading

open SampleReading in
theorem reads_under_locks_of_sample : ∃ state' d' replies,
    Ends answers (SnapshotReading.execute 1000 none [first, orders] started) {}
      (.error (wrongWidth orders []), state') d' ∧ d'.replies = replies ∧
    (∀ log, log <+: events replies → (held log).length ≤ 1) ∧ held (events replies) = [] := by
  obtain ⟨state', d', hbroken⟩ := exists_broken
  have hcall := ends_execute.mpr hbroken
  obtain ⟨replies, visits, hreplies, _, _, hheld, hend, _⟩ := reads_under_locks hcall
  exact ⟨state', d', replies, hcall, hreplies, hheld, hend⟩

end ChangeCapture.SnapshotReading
