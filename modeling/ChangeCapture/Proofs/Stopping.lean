import ChangeCapture.Proofs.Exchange
import ChangeCapture.Proofs.Lives
import ChangeCapture.Proofs.TaskRuns

/-! # Tasks that are told to stop

While a task polls, it looks at its switch before each interval and before each change that it hands over.
Until it has found out where to start, it does not look at all. -/

namespace ChangeCapture

open List
open Program (ComesTo Ends Leads comesTo_andThen ends_andThen ends_ask leads_done)

/-! ## What is committed -/

/-- Of what is committed one by one the last is committed. -/
theorem OffsetTracker.committed_of_commitAll {tracker tracker' : OffsetTracker .sqlserver}
    {offsets : List (Offset .sqlserver)} (h : tracker.commitAll offsets = .ok tracker') :
    tracker'.committed = offsets.getLast?.or tracker.committed := by
  induction offsets generalizing tracker with
  | nil =>
      cases h
      rfl
  | cons o offsets ih =>
      rw [commitAll, foldlM_cons] at h
      cases hcommit : tracker.commit o with
      | error e =>
          rw [hcommit] at h
          cases h
      | ok next =>
          rw [hcommit] at h
          obtain ⟨_, rfl⟩ := commit_eq_ok hcommit
          rw [ih h, getLast?_cons]
          cases offsets.getLast? <;> rfl

namespace CaptureTask

variable {task task' : CaptureTask} {w w' : World} {millis : Nat}

/-- A step of a task that polls and goes on is a poll. -/
theorem ends_pollStep (h : Ends Rules.lawless.answers task.pollStep w (.pause millis task') w') :
    ∃ result v, w.Kept v ∧ task'.phase = task.phase ∧
      Ends Rules.lawless.answers (Streamer.runStep Streamer.pollOnce task.streamer) v
        (result, task'.streamer) w' := by
  obtain ⟨active, v, ⟨server, _, _, hv⟩, h⟩ := ends_ask.mp h
  cases (active : Bool) with
  | false => cases (leads_done.mp h).1
  | true =>
      obtain ⟨⟨result, s⟩, u, hpoll, h⟩ :=
        (ends_andThen (p := Streamer.runStep Streamer.pollOnce task.streamer)).mp h
      have hkept : w.Kept v := hv ▸ ⟨rfl, rfl⟩
      refine ⟨result, v, hkept, ?_⟩
      cases result with
      | ok stats =>
          obtain ⟨heq, rfl⟩ := leads_done.mp h
          cases heq
          exact ⟨rfl, hpoll⟩
      | error e =>
          obtain ⟨heq, rfl⟩ := leads_done.mp h
          have hgoes : (TaskOutcome.pause millis task').Goes fun task' =>
              task'.phase = task.phase ∧ task'.streamer = s :=
            Program.done.inj heq ▸ goes_afterFailure (fun _ => ⟨rfl, rfl⟩) e
          obtain ⟨hphase, hs⟩ := hgoes
          exact ⟨hphase, hs ▸ hpoll⟩

/-- A task that rests between two polls and has committed what was acknowledged since some time. -/
structure Rests (tracker : OffsetTracker .sqlserver) (w₀ : World) (task : CaptureTask) (w : World) :
    Prop where
  phase : task.phase = .polling
  plain : ∀ ci ∈ task.streamer.registry.toList, ci.IsPlain
  commits : Commits tracker w₀ task.streamer.tracker w

variable {tracker : OffsetTracker .sqlserver} {w₀ : World}

theorem Rests.step (h : Rests tracker w₀ task w)
    (hstep : Ends Rules.lawless.answers task.step w (.pause millis task') w') :
    Rests tracker w₀ task' w' := by
  rw [CaptureTask.step, h.phase] at hstep
  obtain ⟨result, v, hkept, hphase, hpoll⟩ := ends_pollStep hstep
  have hpolled := Streamer.polled_of_ends h.plain hpoll
  exact ⟨hphase.trans h.phase, hpolled.isPlain h.plain, (h.commits.of_kept hkept).trans hpolled.commits⟩

/-- Whenever a task that polls rests, it has committed what was acknowledged. -/
theorem Rests.run (h : Rests tracker w₀ task w) {p : CaptureProgram TaskOutcome} {v : World}
    {events : List TaskEvent} (hp : Leads Rules.lawless.answers task.step w p v)
    (hrun : Runs p v events (.done (.pause millis task')) w') : Rests tracker w₀ task' w' := by
  generalize hq : Program.done (TaskOutcome.pause millis task') = q at hrun
  induction hrun generalizing task w with
  | nil => exact h.step (hq ▸ hp)
  | asked ha _ ih => exact ih h (hp.trans (.ask ha (.refl _ _))) hq
  | begun _ ih => exact ih (h.step hp) (.refl _ _) hq

end CaptureTask

/-- The offset of a record that was acknowledged. -/
def TaskEvent.acknowledged? : TaskEvent → Option (Offset .sqlserver)
  | .asked (.deliver record) (.ok _) => some record.offset
  | _ => none

theorem acknowledgedOffsets_of_answers {w w' : World} {r : CaptureRequest} {answer : r.Answer}
    (h : Rules.lawless.answers w r answer w') :
    acknowledgedOffsets w'.history =
      acknowledgedOffsets w.history ++ (TaskEvent.asked r answer).acknowledged?.toList := by
  obtain ⟨server, _, _, h⟩ := h
  have hquiet (hr : r.Quiet) (hnone : (TaskEvent.asked r answer).acknowledged? = none) :
      acknowledgedOffsets w'.history =
        acknowledgedOffsets w.history ++ (TaskEvent.asked r answer).acknowledged?.toList := by
    rw [(h.kept hr).history, hnone, Option.toList_none, append_nil]
  have hnote {event : Event} (hw' : w'.history = w.history ++ [event])
      (hevent : (TaskEvent.asked r answer).acknowledged? = event.acknowledged?) :
      acknowledgedOffsets w'.history =
        acknowledgedOffsets w.history ++ (TaskEvent.asked r answer).acknowledged?.toList := by
    rw [hw', acknowledgedOffsets_append, hevent]
    cases hacknowledged : event.acknowledged? <;> simp [acknowledgedOffsets, hacknowledged]
  cases r with
  | deliver record =>
      cases answer with
      | ok u => exact hnote (congrArg World.history h) rfl
      | error e => exact h ▸ (append_nil _).symm
  | isActive =>
      cases (answer : Bool) with
      | true => exact h ▸ (append_nil _).symm
      | false => exact hnote (congrArg World.history h) rfl
  | storage request =>
      cases request with
      | saveOffset key offset =>
          rcases h with h | ⟨h, _⟩
          · exact hnote (congrArg World.history h) rfl
          · exact h ▸ (append_nil _).symm
      | loadOffset | readProgress | writeProgress => exact hquiet trivial rfl
  | server | lockTable | now => exact hquiet trivial rfl

namespace CaptureTask

theorem Runs.acknowledgedOffsets_eq {p q : CaptureProgram TaskOutcome} {w w' : World}
    {events : List TaskEvent} (h : Runs p w events q w') :
    acknowledgedOffsets w'.history =
      acknowledgedOffsets w.history ++ events.filterMap TaskEvent.acknowledged? := by
  induction h with
  | nil => simp
  | @asked r _ answer _ _ _ _ _ ha _ ih =>
      rw [ih, acknowledgedOffsets_of_answers ha, append_assoc]
      cases hacknowledged : (TaskEvent.asked r answer).acknowledged? <;> simp [hacknowledged]
  | begun _ ih => exact ih

/-- At rest the last change that was acknowledged is committed, or what was committed before the polls. -/
theorem committed_of_runs {task task' : CaptureTask} {millis millis' : Nat} {w w' : World}
    {polled : List TaskEvent} (hphase : task.phase = .polling) (hfresh : task.Fresh)
    (h : Runs (.done (.pause millis task)) w polled (.done (.pause millis' task')) w') :
    task'.streamer.tracker.committed =
      (polled.filterMap TaskEvent.acknowledged?).getLast?.or task.streamer.tracker.committed := by
  have hrests : Rests task.streamer.tracker w task w :=
    ⟨hphase, Streamer.isPlain_of_empty hfresh, .refl _ _⟩
  have hacknowledged := h.acknowledgedOffsets_eq
  have hcommits : Commits task.streamer.tracker w task'.streamer.tracker w' := by
    cases h with
    | nil => exact hrests.commits
    | begun h => exact (hrests.run (.refl _ _) h).commits
  obtain ⟨events, hhistory, hcommit⟩ := hcommits
  rw [hhistory, acknowledgedOffsets_append] at hacknowledged
  rw [← append_cancel_left hacknowledged]
  exact OffsetTracker.committed_of_commitAll hcommit

end CaptureTask

/-! ## After the stop -/

/-- The event is the handing over of a record. -/
def TaskEvent.hands : TaskEvent → Bool
  | .asked (.deliver _) _ => true
  | _ => false

/-- What a task does once it polls and does not find the switch on any more. Only the record in flight may
still be handed over, for which the switch was found on just before. Nothing begins but a last look at
the switch. -/
structure Halts (before after : List TaskEvent) : Prop where
  inFlight : ∀ e ∈ after, e.hands → before.getLast? = some (.asked .isActive true) ∧ after.head? = some e
  atMostOne : after.countP TaskEvent.hands ≤ 1
  begins : ∀ {first phase rest}, after = first ++ .begun phase :: rest →
    phase = .polling ∧ (rest = [] ∨ rest = [.asked .isActive false])

section Chain

variable {opening polled before after : List TaskEvent} {e : TaskEvent}

/-- A list that is cut before or behind one of its members. -/
theorem append_cons_cases (h : before ++ after = opening ++ e :: polled) :
    (∃ rest, opening = before ++ rest ∧ after = rest ++ e :: polled) ∨
      ∃ first, before = opening ++ e :: first ∧ polled = first ++ after := by
  rcases append_eq_append_iff.mp h with ⟨rest, hopening, hafter⟩ | ⟨rest, hbefore, hpolled⟩
  · exact .inl ⟨rest, hopening, hafter⟩
  · rcases cons_eq_append_iff.mp hpolled with ⟨rfl, hafter⟩ | ⟨first, rfl, hpolled⟩
    · exact .inl ⟨[], by simpa using hbefore.symm, hafter⟩
    · exact .inr ⟨first, hbefore, (cons.inj hpolled).2⟩

theorem TaskEvent.Follows.of_hands {e' : TaskEvent} (h : e.Follows e') (hhands : e'.hands) :
    e = .asked .isActive true := by
  cases e' with
  | begun => cases hhands
  | asked r answer =>
      cases r with
      | deliver => exact h
      | server | storage | lockTable | isActive | now => cases hhands

/-- Each event of a polling task follows the one before it. -/
theorem exists_follows_of_isChain
    (h : (.begun .polling :: (before ++ e :: after)).IsChain TaskEvent.Follows)
    (first : List TaskEvent) :
    ∃ last, (first ++ .begun .polling :: before).getLast? = some last ∧ last.Follows e := by
  refine ⟨before.getLast?.getD (.begun .polling), ?_, ?_⟩
  · rw [getLast?_append_cons, getLast?_cons]
  · exact (isChain_append.mp (cons_append ▸ h)).2.2 _ getLast?_cons _ rfl

/-- Behind a polling task that does not find the switch on nothing is handed over. -/
theorem not_hands_of_isChain (h : (e :: after).IsChain TaskEvent.Follows)
    (hcleared : .asked .isActive true ∉ e :: after) : ∀ e' ∈ after, ¬ e'.hands := by
  induction after generalizing e with
  | nil => simp
  | cons e' after ih =>
      obtain ⟨hfollows, hrest⟩ := isChain_cons_cons.mp h
      refine forall_mem_cons.mpr ⟨fun hhands => ?_, ih hrest (mt (mem_cons_of_mem e) hcleared)⟩
      exact hcleared (hfollows.of_hands hhands ▸ mem_cons_self)

theorem eq_polling_of_isChain (h : (e :: after).IsChain TaskEvent.Follows) {phase : TaskPhase}
    (hphase : .begun phase ∈ after) : phase = .polling := by
  induction after generalizing e with
  | nil => cases hphase
  | cons e' after ih =>
      obtain ⟨hfollows, hrest⟩ := isChain_cons_cons.mp h
      rcases mem_cons.mp hphase with rfl | hphase
      · exact hfollows
      · exact ih hrest hphase

theorem Halts.of_isChain (h : after.IsChain TaskEvent.Follows)
    (hhead : ∀ e ∈ after.head?, e.hands → before.getLast? = some (.asked .isActive true))
    (hcleared : .asked .isActive true ∉ after)
    (hbegins : ∀ {first phase rest}, after = first ++ .begun phase :: rest →
      phase = .polling ∧ (rest = [] ∨ rest = [.asked .isActive false])) : Halts before after := by
  cases after with
  | nil => exact ⟨by simp, by simp, hbegins⟩
  | cons e after =>
      have hrest := not_hands_of_isChain h hcleared
      refine ⟨forall_mem_cons.mpr ⟨fun he => ⟨hhead e rfl he, rfl⟩, fun e' he' hhands => ?_⟩, ?_, hbegins⟩
      · exact absurd hhands (hrest e' he')
      · rw [countP_cons, countP_eq_zero.mpr hrest]
        split <;> omega

end Chain

namespace CaptureTask

section Stop

variable {p q : CaptureProgram TaskOutcome} {w w' : World} {before after : List TaskEvent}

/-- An attempt to start may go on behind the stop, polls do not. -/
theorem Runs.exists_halts (h : Runs p w (before ++ after) q w')
    (hphases : Phases p w q w' (before ++ after)) (hcleared : .asked .isActive true ∉ after) :
    ∃ opening polled, after = opening ++ polled ∧ (∀ e ∈ opening, e.Opens) ∧
      (.begun .polling ∈ before → opening = []) ∧ Halts (before ++ opening) polled := by
  have hlast {first rest : List TaskEvent} (hafter : after = first ++ .begun .polling :: rest) :
      rest = [] ∨ rest = [.asked .isActive false] := by
    subst hafter
    rw [← append_assoc] at h
    obtain ⟨task, v, hphase, hrest⟩ := h.of_begun
    exact hrest.of_polling hphase fun hmem => hcleared (by simp [hmem])
  generalize hevents : before ++ after = events at hphases
  cases hphases with
  | opening hopening =>
      subst hevents
      refine ⟨after, [], by simp, fun e he => hopening e (by simp [he]), fun hpolls => ?_,
        ⟨by simp, by simp, by simp⟩⟩
      exact absurd (hopening _ (mem_append_left _ hpolls)) TaskEvent.not_opens_begun_polling
  | @polling opening polled _ _ _ hopening hstart hphase _ hrest =>
      have hchain := hrest.isChain (keepsPolling_step hphase (.begun .polling))
      have hbegins {phase : TaskPhase} (hmem : .begun phase ∈ .begun .polling :: polled) :
          phase = .polling := by
        have hself : TaskEvent.Follows (.begun .polling) (.begun .polling) := rfl
        exact eq_polling_of_isChain (.cons_cons hself hchain) hmem
      rcases append_cons_cases hevents with ⟨rest, rfl, rfl⟩ | ⟨first, rfl, rfl⟩
      · -- The task is stopped before it polls.
        refine ⟨rest, _, rfl, fun e he => hopening e (by simp [he]), fun hpolls => ?_, ?_⟩
        · exact absurd (hopening _ (mem_append_left _ hpolls)) TaskEvent.not_opens_begun_polling
        · refine .of_isChain hchain (fun e he hhands => ?_) (fun hmem => hcleared (by simp [hmem]))
            fun {first phase rest'} hcut => ?_
          · cases he
            cases hhands
          · obtain rfl : phase = .polling := hbegins (by simp [hcut])
            exact ⟨rfl, hlast (by rw [hcut, append_assoc])⟩
      · -- The task is stopped while it polls.
        refine ⟨[], after, rfl, by simp, fun _ => rfl, ?_⟩
        rw [append_nil]
        have hafter : after.IsChain TaskEvent.Follows := IsChain.right_of_append (cons_append ▸ hchain)
        refine .of_isChain hafter (fun e he hhands => ?_) hcleared fun {first' phase rest'} hcut => ?_
        · obtain ⟨after', rfl⟩ := head?_eq_some_iff.mp he
          obtain ⟨last, hlast, hfollows⟩ := exists_follows_of_isChain hchain opening
          rw [hlast, hfollows.of_hands hhands]
        · obtain rfl : phase = .polling := hbegins (by simp [hcut])
          exact ⟨rfl, hlast hcut⟩

/-- Only the offset of a record that was acknowledged just before is saved. -/
theorem Runs.acknowledged_of_saved {first rest : List TaskEvent} {key : String}
    {o : Offset .sqlserver} {answer : Except CaptureError Unit}
    (hphases : Phases p w q w' (first ++ .asked (.storage (.saveOffset key o)) answer :: rest)) :
    ∃ record, first.getLast? = some (.asked (.deliver record) (.ok ())) ∧ record.offset = o := by
  generalize hevents : first ++ .asked (.storage (.saveOffset key o)) answer :: rest = events at hphases
  cases hphases with
  | opening hopening =>
      subst hevents
      exact (hopening _ (mem_append_right _ mem_cons_self)).elim
  | @polling opening polled _ _ _ hopening hstart hphase _ hrest =>
      have hchain := hrest.isChain (keepsPolling_step hphase (.begun .polling))
      rcases append_cons_cases hevents with ⟨opening', rfl, hcut⟩ | ⟨before, rfl, rfl⟩
      · cases opening' with
        | nil => cases hcut
        | cons e opening' =>
            obtain ⟨rfl, _⟩ := cons.inj hcut
            exact (hopening _ (mem_append_right _ mem_cons_self)).elim
      · obtain ⟨last, hlast, record, rfl, ho⟩ := exists_follows_of_isChain hchain opening
        exact ⟨record, hlast, ho⟩

end Stop

/-- Once a task polls, it ends at the first look at its switch behind the stop: at most the record in
flight is still handed over, no interval begins, and at rest the last change that was acknowledged is
committed. What is saved was acknowledged just before. An attempt to start is not stopped: as long as the
task has not begun to poll, it goes on to hand over rows of tables, but saves no offset. -/
theorem halts_once_polling {config : Configuration} {database : String} {hasStore : Bool}
    {w₀ w : World} {before after : List TaskEvent} {p : CaptureProgram TaskOutcome}
    (h : Runs (.done (.pause 0 (.ofConfiguration config database hasStore))) w₀ (before ++ after) p w)
    (hcleared : .asked .isActive true ∉ after) :
    (∃ opening polled, after = opening ++ polled ∧ (∀ e ∈ opening, e.Opens) ∧
      (.begun .polling ∈ before → opening = []) ∧ Halts (before ++ opening) polled) ∧
    (∀ {first rest key o answer},
      before ++ after = first ++ .asked (.storage (.saveOffset key o)) answer :: rest →
      ∃ record, first.getLast? = some (.asked (.deliver record) (.ok ())) ∧ record.offset = o) ∧
    ∀ {millis task}, p = .done (.pause millis task) → task.phase = .polling →
      ∃ opening polled millis' task' v, before ++ after = opening ++ polled ∧
        Runs (.done (.pause 0 (.ofConfiguration config database hasStore))) w₀ opening
          (.done (.pause millis' task')) v ∧
        (∀ e ∈ opening, e.Opens) ∧ task'.phase = .polling ∧
        task.streamer.tracker.committed =
          (polled.filterMap TaskEvent.acknowledged?).getLast?.or task'.streamer.tracker.committed := by
  have hfresh : (CaptureTask.ofConfiguration config database hasStore).Fresh := rfl
  have hphases := h.phases (e := .begun .starting) hfresh
  refine ⟨h.exists_halts hphases hcleared, fun hsaves => ?_, fun hp hphase => ?_⟩
  · exact Runs.acknowledged_of_saved (hsaves ▸ hphases)
  · subst hp
    generalize before ++ after = events at hphases h
    cases hphases with
    | opening hopening => exact ⟨_, [], _, _, _, (append_nil _).symm, h, hopening, hphase, rfl⟩
    | @polling _ polled millis' task' v hopening hstart hpolling hfresh hrest =>
        have hpolls : Runs (.done (.pause millis' task')) v (.begun task'.phase :: polled)
            (.done (.pause _ _)) w := .begun hrest
        rw [hpolling] at hpolls
        exact ⟨_, _, _, _, _, rfl, hstart, hopening, hpolling, committed_of_runs hpolling hfresh hpolls⟩

end CaptureTask

/-! ## Samples -/

namespace Sample

open CaptureTask Streamer

theorem not_found_on {r r' : CaptureRequest} {answer : r.Answer} {answer' : r'.Answer}
    (hr : r ≠ .isActive) (hr' : r' ≠ .isActive) :
    .asked .isActive true ∉ [TaskEvent.asked r answer, .asked r' answer'] := by
  intro hmem
  rcases mem_pair.mp hmem with h | h
  · exact hr (TaskEvent.asked.inj h).1.symm
  · exact hr' (TaskEvent.asked.inj h).1.symm

theorem answers_deliver (record : ChangeRecord .sqlserver) (w : World) :
    ∃ v, Rules.lawless.answers w (.deliver record) (Except.ok () : Except CaptureError Unit) v :=
  ⟨_, w.server, trivial, trivial, rfl⟩

theorem answers_saveOffset (key : String) (o : Offset .sqlserver) (w : World) :
    ∃ v, Rules.lawless.answers w (.storage (.saveOffset key o))
      (Except.ok () : Except CaptureError Unit) v :=
  ⟨_, w.server, trivial, trivial, .inl rfl⟩

/-- A task that has started where it is configured to. -/
def startedTask : CaptureTask :=
  { config := configurationAt, streamer := started, backoff := configurationAt.backoff.reset
    phase := .polling }

theorem ends_startStep :
    Ends Rules.lawless.answers (CaptureTask.ofConfiguration configurationAt "shop" true).step
      (world .null []) (.pause 0 startedTask) (world .null []) :=
  ends_andThen.mpr ⟨_, _, (ends_establishStart .null []).mono Rules.lawless_answers, .refl _ _⟩

/-- The second row is handed over by a task, and its offset is saved. -/
theorem runs_handed : ∃ before p w,
    Runs (.done (.pause 0 (.ofConfiguration configurationAt "shop" true))) (world .null [])
      (before ++ [.asked (.deliver (record "orders" 15)) (.ok ()),
        .asked (.storage (.saveOffset configuration.offsetKey (record "orders" 15).offset)) (.ok ())])
      p w ∧ .begun .polling ∈ before := by
  have hactive : Rules.lawless.answers (world .null []) .isActive true (world .null []) :=
    ⟨_, trivial, trivial, rfl⟩
  have hpoll : ComesTo Rules.lawless.answers (.deliver (record "orders" 15)) (.ok ())
      (.storage (.saveOffset configuration.offsetKey (record "orders" 15).offset)) startedTask.step
      (world .null []) :=
    comesTo_andThen (Leads.ask hactive (.refl _ _))
      ((handsOver_pollOnce.mono fun h => Rules.lawless_answers h.2).andThen _)
  obtain ⟨starting, hstart⟩ := Runs.of_leads ends_startStep
  obtain ⟨polled, p, w, hpolled⟩ := Runs.of_comesTo hpoll (answers_deliver _)
    (answers_saveOffset _ _)
  refine ⟨.begun .starting :: (starting ++ .begun .polling :: polled), p, w, ?_, by simp⟩
  rw [cons_append, append_assoc, cons_append]
  exact .begun (hstart.trans (.begun hpolled))

end Sample

open Sample in
/-- The record that is in flight at the stop is handed over, and its offset is saved. -/
theorem CaptureTask.halts_once_polling_of_sample : ∃ before p w,
    Runs (.done (.pause 0 (.ofConfiguration configurationAt "shop" true))) (world .null [])
      (before ++ [.asked (.deliver (record "orders" 15)) (.ok ()),
        .asked (.storage (.saveOffset configuration.offsetKey (record "orders" 15).offset)) (.ok ())])
      p w ∧ before.getLast? = some (.asked .isActive true) := by
  obtain ⟨before, p, w, hruns, hpolls⟩ := runs_handed
  refine ⟨before, p, w, hruns, ?_⟩
  obtain ⟨⟨opening, polled, hafter, _, hopening, hhalts⟩, _⟩ :=
    halts_once_polling hruns (not_found_on nofun nofun)
  obtain rfl := hopening hpolls
  rw [append_nil] at hhalts
  exact (hhalts.inFlight _ (hafter ▸ mem_cons_self) rfl).1

namespace Sample

open CaptureTask Streamer SnapshotReading

/-- Nothing was read before. -/
def firstState : SnapshotState := .start "shop" (.ofNat 20) 0

/-- A row of the table. -/
def firstRecord : ChangeRecord .sqlserver := SnapshotReading.record schema (.ofNat 20) [none]

/-- The program hands over two rows, one after the other. -/
abbrev HandsTwo {α : Type} (p : CaptureProgram α) (w : World) : Prop :=
  ComesTo Rules.lawless.answers (.deliver firstRecord) (.ok ()) (.deliver firstRecord) p w

theorem handsTwo_locked (w : World) :
    HandsTwo (CaptureStep.locked schema.id 10000 (readTable schema (.ofNat 20))).run w := by
  have hlock : Rules.lawless.answers w (.lockTable schema.id 10000) LockAnswer.granted w :=
    ⟨w.server, trivial, trivial, rfl⟩
  have hrows : Rules.lawless.answers w (.server (.snapshotRows schema.id schema.columnNames))
      (Except.ok { rows := [[none], [none]] } : Except CaptureError (Cursor Row)) w :=
    ⟨w.server, trivial, trivial, rfl⟩
  exact ⟨_, _, w, .ask hlock (.ask hrows (.refl _ _)), rfl⟩

theorem handsTwo_snapshotTable (w : World) :
    HandsTwo ((snapshotTable 10000 none (.ofNat 20) schema).run.run firstState) w := by
  have hnew : ¬ (firstState.addTable schema.id.schema schema.id.table).isTableComplete
      schema.id.schema schema.id.table := by decide +kernel
  unfold snapshotTable
  refine comesTo_andThen (.refl _ _) (comesTo_andThen (.refl _ _) ?_)
  dsimp only [ExceptT.bindCont]
  rw [if_neg hnew]
  exact ComesTo.andThen (ComesTo.andThen (handsTwo_locked w) _) _

theorem handsTwo_execute (w : World) : HandsTwo (execute 10000 none [schema] firstState) w := by
  have hwatermark : firstState.watermark = .ok (.ofNat 20) := by decide +kernel
  unfold execute snapshot
  refine comesTo_andThen (.refl _ _) ?_
  rw [hwatermark]
  exact ComesTo.andThen (ComesTo.andThen (handsTwo_snapshotTable w) _) _

theorem handsTwo_readTables (w : World) :
    HandsTwo (readTables (Streamer.ofConfiguration {} "shop" false) {} (.ofNat 20)).run w := by
  have hnow : Rules.lawless.answers w .now (0 : Int) w := ⟨w.server, trivial, trivial, rfl⟩
  have hlisting : Rules.lawless.answers w (.server .listInstances)
      (Except.ok server.listing : Except CaptureError (List ListedInstance)) w :=
    ⟨w.server, trivial, trivial, rfl⟩
  have hload : Ends Rules.lawless.answers (loadProgress "shop" none (.ofNat 20)).run w
      (.ok firstState) w := .ask hnow (.refl _ _)
  have hwatermark : firstState.watermark = .ok (.ofNat 20) := by decide +kernel
  have hsources : Ends Rules.lawless.answers
      (Registry.listSources "shop" ({} : Configuration).tableFilter).run w
      (.ok [source "orders"]) w := .ask hlisting (.refl _ _)
  have hschemas : Ends Rules.lawless.answers
      ((newestInstances [source "orders"]).mapM Registry.resolveSchema).run w (.ok [schema]) w := by
    have hschema : Ends Rules.lawless.answers (Registry.resolveSchema (source "orders")).run w
        (.ok schema) w := ends_resolveSchema ⟨fun _ => trivial, fun _ => trivial⟩
    have hnewest : newestInstances [source "orders"] = [source "orders"] := mergeSort_singleton _
    rw [hnewest]
    exact CaptureStep.ends_bind_ok.mpr ⟨schema, w, hschema, .refl _ _⟩
  unfold readTables
  refine CaptureStep.comesTo_bind hload ?_
  refine CaptureStep.comesTo_bind (CaptureStep.ends_ofExcept.mpr ⟨hwatermark.symm, rfl⟩) ?_
  refine CaptureStep.comesTo_bind hsources (CaptureStep.comesTo_bind hschemas ?_)
  exact ComesTo.andThen (ComesTo.andThen (handsTwo_execute w) _) _

/-- The configuration does not say where to start. -/
theorem startPosition_default : ({} : Configuration).startPosition = .ok none := by decide +kernel

theorem not_hasStore : ¬ (Streamer.ofConfiguration {} "shop" false).hasStore := nofun

/-- A task whose configuration says nothing reads the table first. -/
theorem handsTwo_step (w : World) :
    HandsTwo (CaptureTask.ofConfiguration {} "shop" false).step w := by
  have hmax : Ends Rules.lawless.answers Server.maxLsn.run w (.ok (.ofNat 20))
      { w with server := w.server.report (.ofNat 20) } :=
    CaptureStep.ends_request.mpr ⟨w.server, trivial, trivial, rfl⟩
  change HandsTwo ((runStep (establishStart {}) (Streamer.ofConfiguration {} "shop" false)).andThen _) w
  refine ComesTo.andThen ?_ _
  unfold establishStart
  refine comesTo_bind (.refl _ _) ?_
  rw [if_neg not_hasStore]
  refine comesTo_bind (.refl _ _) (comesTo_bind (ends_ofExcept startPosition_default) ?_)
  refine comesTo_bind (ends_liftStep hmax) (comesTo_bind_left ?_ _)
  exact ComesTo.andThen (handsTwo_readTables _) _

/-- An attempt to start fails, and another one is to follow. -/
theorem ends_step_failing (w : World) : ∃ millis task, task.phase = .starting ∧
    Ends Rules.lawless.answers (CaptureTask.ofConfiguration {} "shop" false).step w
      (.pause millis task) w := by
  have hmax : Ends Rules.lawless.answers Server.maxLsn.run w (.error .connectionClosed) w :=
    CaptureStep.ends_request.mpr ⟨w.server, trivial, trivial, rfl⟩
  have hfails : Ends Rules.lawless.answers
      (runStep (establishStart {}) (Streamer.ofConfiguration {} "shop" false)) w
      (.error .connectionClosed, Streamer.ofConfiguration {} "shop" false) w := by
    unfold establishStart
    refine ends_bind (.refl _ _) ?_
    rw [if_neg not_hasStore]
    refine ends_bind (.refl _ _) (ends_bind (ends_ofExcept startPosition_default) ?_)
    exact ends_andThen.mpr ⟨_, w, ends_liftStep hmax, .refl _ _⟩
  exact ⟨_, _, rfl, ends_andThen.mpr ⟨_, w, hfails, .refl _ _⟩⟩

end Sample

open Sample in
/-- While a task finds out where to start, a stop neither keeps it from handing over row after row nor from
another attempt. -/
theorem CaptureTask.starting_behind_stop :
    (¬ ∀ (config : Configuration) (database : String) (hasStore : Bool) (w₀ w : World)
      (before after : List TaskEvent) (p : CaptureProgram TaskOutcome),
      Runs (.done (.pause 0 (.ofConfiguration config database hasStore))) w₀ (before ++ after) p w →
      .asked .isActive true ∉ after → after.countP TaskEvent.hands ≤ 1) ∧
    ¬ ∀ (config : Configuration) (database : String) (hasStore : Bool) (w₀ w : World)
      (before after : List TaskEvent) (p : CaptureProgram TaskOutcome),
      Runs (.done (.pause 0 (.ofConfiguration config database hasStore))) w₀ (before ++ after) p w →
      .asked .isActive true ∉ after → .begun .starting ∉ after := by
  refine ⟨fun h => ?_, fun h => ?_⟩
  · obtain ⟨events, p, w, hruns⟩ :=
      Runs.of_comesTo (handsTwo_step { server }) (answers_deliver _) (answers_deliver _)
    have hle : 2 ≤ 1 := h {} "shop" false { server } w (.begun .starting :: events) _ p
      (.begun hruns) (not_found_on nofun nofun)
    exact absurd hle (by decide)
  · obtain ⟨millis, task, hphase, hends⟩ := ends_step_failing { server }
    obtain ⟨events, hruns⟩ := Runs.of_leads hends
    have hagain := hruns.trans (.begun (.nil _ _))
    rw [hphase] at hagain
    exact h {} "shop" false { server } _ (.begun .starting :: events) _ _ (.begun hagain)
      (by simp) (by simp)

end ChangeCapture
