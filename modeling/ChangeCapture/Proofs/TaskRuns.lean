import ChangeCapture.Proofs.Bookkeeping
import ChangeCapture.Proofs.Starting
import ChangeCapture.Streaming.Task
import Mathlib.Data.List.Chain

/-! # Runs of a task

A task attempts to start, as often as it takes, and then polls. What is seen of it keeps to an order: while
it polls, it looks at its switch before it hands over a record, and saves an offset behind that. -/

namespace ChangeCapture

open List
open Program (Asks ComesTo Leads asks_andThen)

/-! ## What is seen of a task -/

/-- An attempt to start or an interval begins, or a request is answered. -/
inductive TaskEvent where
  | begun (phase : TaskPhase)
  | asked (r : CaptureRequest) (answer : r.Answer)

/-- What a task may do from one point on, up to another, and what is seen of it. -/
inductive CaptureTask.Runs :
    CaptureProgram TaskOutcome → World → List TaskEvent → CaptureProgram TaskOutcome → World → Prop where
  | nil (p w) : Runs p w [] p w
  | asked {r next answer w v events q w'} (h : Rules.lawless.answers w r answer v)
      (hrest : Runs (next answer) v events q w') :
      Runs (.ask r next) w (.asked r answer :: events) q w'
  | begun {millis task w events q w'} (hrest : Runs task.step w events q w') :
      Runs (.done (.pause millis task)) w (.begun task.phase :: events) q w'

/-- A task that goes on has a property. -/
def TaskOutcome.Goes (P : CaptureTask → Prop) : TaskOutcome → Prop
  | .pause _ task => P task
  | .finished _ => True

theorem CaptureTask.goes_afterFailure {P : CaptureTask → Prop} {task : CaptureTask}
    (h : ∀ backoff, P { task with backoff }) (e : CaptureError) : (task.afterFailure e).Goes P := by
  unfold afterFailure
  split
  · split
    · exact h _
    · trivial
  · trivial

/-! ## Programs that keep to an order -/

/-- Each request may follow what was seen before it, and the value has a property. -/
def Obeys {α : Type} (may : TaskEvent → CaptureRequest → Prop) (post : α → Prop) :
    TaskEvent → CaptureProgram α → Prop
  | _, .done a => post a
  | e, .ask r next => may e r ∧ ∀ answer, Obeys may post (.asked r answer) (next answer)

namespace Obeys

variable {α β : Type} {may : TaskEvent → CaptureRequest → Prop} {e : TaskEvent}

theorem andThen {post : β → Prop} {p : CaptureProgram α} {f : α → CaptureProgram β}
    (h : Obeys may (fun a => ∀ e, Obeys may post e (f a)) e p) : Obeys may post e (p.andThen f) := by
  induction p generalizing e with
  | done a => exact h e
  | ask r next ih => exact ⟨h.1, fun answer => ih answer (h.2 answer)⟩

theorem mono {post post' : α → Prop} {p : CaptureProgram α} (h : Obeys may post e p)
    (hpost : ∀ a, post a → post' a) : Obeys may post' e p := by
  induction p generalizing e with
  | done a => exact hpost a h
  | ask r next ih => exact ⟨h.1, fun answer => ih answer (h.2 answer)⟩

/-- Requests that may follow anything keep to the order. -/
theorem of_asks {kind : CaptureRequest → Prop} (hkind : ∀ e r, kind r → may e r) {post : α → Prop}
    {p : CaptureProgram α} (hp : Asks (I := CaptureRequest.interface) kind p) (hpost : ∀ a, post a) :
    Obeys may post e p := by
  induction p generalizing e with
  | done a => exact hpost a
  | ask r next ih => exact ⟨hkind e r hp.1, fun answer => ih answer (hp.2 answer)⟩

end Obeys

namespace Streamer

variable {α β : Type} {may : TaskEvent → CaptureRequest → Prop} {e : TaskEvent} {s : Streamer}

theorem obeys_bind {x : StreamStep α} {f : α → StreamStep β}
    {post : Except CaptureError β × Streamer → Prop}
    (h : Obeys may (fun out => ∀ e', match out with
      | (.ok a, s') => Obeys may post e' (runStep (f a) s')
      | (.error failure, s') => post (.error failure, s')) e (runStep x s)) :
    Obeys may post e (runStep (x >>= f) s) := by
  refine Obeys.andThen (h.mono fun out hout e' => ?_)
  obtain ⟨result, s'⟩ := out
  cases result with
  | ok a => exact hout e'
  | error failure => exact hout e'

theorem obeys_liftStep {kind : CaptureRequest → Prop} (hkind : ∀ e r, kind r → may e r)
    {step : CaptureStep α} (hstep : Asks (I := CaptureRequest.interface) kind step.run)
    {post : Except CaptureError α × Streamer → Prop} (hpost : ∀ result, post (result, s)) :
    Obeys may post e (runStep (liftStep step) s) :=
  .andThen (.of_asks hkind hstep fun result _ => hpost result)

end Streamer

/-! ## Attempts to start -/

/-- Of the records only rows of tables are handed over, the switch is not looked at, and no offset is
saved. -/
def CaptureRequest.Opening : CaptureRequest → Prop
  | .deliver record => record.kind = .snapshot
  | .isActive | .storage (.saveOffset ..) => False
  | _ => True

theorem CaptureRequest.Quiet.opening {r : CaptureRequest} (h : r.Quiet) : r.Opening := by
  cases r with
  | storage request =>
      cases request with
      | saveOffset => exact h.elim
      | loadOffset | readProgress | writeProgress => trivial
  | deliver | isActive => exact h.elim
  | server | lockTable | now => trivial

/-- The program asks for nothing but what an attempt to start needs. -/
abbrev CaptureProgram.Opens {α : Type} (p : CaptureProgram α) : Prop :=
  Asks (I := CaptureRequest.interface) CaptureRequest.Opening p

theorem CaptureStep.IsQuiet.opens {α : Type} {step : CaptureStep α} (h : step.IsQuiet) :
    CaptureProgram.Opens step.run := h.mono fun _ => CaptureRequest.Quiet.opening

namespace SnapshotReading

variable {α β : Type}

theorem opens_deliverRows (schema : TableSchema) (watermark : Lsn) (rows : List Row) :
    CaptureProgram.Opens (deliverRows schema watermark rows).run := by
  induction rows with
  | nil => trivial
  | cons row rows ih =>
      unfold deliverRows
      split
      · trivial
      · exact CaptureStep.asks_bind (x := Server.deliver (record schema watermark row))
          ⟨rfl, fun _ => trivial⟩ fun _ => ih

theorem opens_readTable (schema : TableSchema) (watermark : Lsn) :
    CaptureProgram.Opens (readTable schema watermark).run := by
  refine CaptureStep.asks_bind (x := Server.snapshotRows schema.id schema.columnNames)
    ⟨trivial, fun _ => trivial⟩ fun cursor => ?_
  refine CaptureStep.asks_bind (opens_deliverRows schema watermark cursor.rows) fun _ => ?_
  cases cursor.failure <;> trivial

theorem opens_locked {table : TableId} {timeout : Nat} {body : CaptureStep α}
    (h : CaptureProgram.Opens body.run) : CaptureProgram.Opens (body.locked table timeout).run := by
  refine asks_andThen (p := Server.lockTable table timeout) ⟨trivial, fun _ => trivial⟩ fun answer => ?_
  cases answer with
  | granted => exact asks_andThen h fun _ => ⟨trivial, fun _ => trivial⟩
  | refused | expired => trivial

/-- The step asks for nothing but what an attempt to start needs. -/
def Opens (step : SnapshotStep α) : Prop := ∀ state, CaptureProgram.Opens (step.run.run state)

theorem opens_bind {x : SnapshotStep α} {f : α → SnapshotStep β} (hx : Opens x)
    (hf : ∀ a, Opens (f a)) : Opens (x >>= f) := by
  intro state
  refine asks_andThen (hx state) fun out => ?_
  obtain ⟨result, state'⟩ := out
  cases result with
  | ok a => exact hf a state'
  | error e => trivial

theorem opens_liftStep {step : CaptureStep α} (h : CaptureProgram.Opens step.run) :
    Opens (liftStep step) := fun _ => asks_andThen h fun _ => trivial

theorem opens_saveProgress (path : Option String) : Opens (saveProgress path) := by
  cases path with
  | none => exact fun _ => trivial
  | some path =>
      refine opens_bind (fun _ => trivial) fun state => ?_
      have hwrite : CaptureProgram.Opens (Server.writeProgress path state.write).run :=
        ⟨trivial, fun _ => trivial⟩
      exact opens_liftStep hwrite

theorem opens_snapshotTable (timeout : Nat) (path : Option String) (watermark : Lsn)
    (schema : TableSchema) : Opens (snapshotTable timeout path watermark schema) := by
  refine opens_bind (fun _ => trivial) fun _ => opens_bind (fun _ => trivial) fun state => ?_
  split
  · exact fun _ => trivial
  · refine opens_bind (opens_liftStep (opens_locked (opens_readTable schema watermark))) fun rows => ?_
    exact opens_bind (fun _ => trivial) fun _ => opens_saveProgress path

theorem opens_snapshotTables (timeout : Nat) (path : Option String) (watermark : Lsn)
    (schemas : List TableSchema) : Opens (snapshotTables timeout path watermark schemas) := by
  induction schemas with
  | nil => exact fun _ => trivial
  | cons schema schemas ih =>
      exact opens_bind (opens_snapshotTable timeout path watermark schema) fun _ => ih

theorem opens_snapshot (timeout : Nat) (path : Option String) (schemas : List TableSchema) :
    Opens (snapshot timeout path schemas) := by
  have hnow : CaptureProgram.Opens (ExceptT.lift Server.now : CaptureStep Int).run :=
    ⟨trivial, fun _ => trivial⟩
  unfold snapshot
  refine opens_bind (fun _ => trivial) fun watermark => ?_
  refine opens_bind (opens_snapshotTables timeout path watermark schemas) fun _ => ?_
  refine opens_bind (opens_liftStep hnow) fun time => ?_
  exact opens_bind (fun _ => trivial) fun _ => opens_saveProgress path

theorem opens_execute (timeout : Nat) (path : Option String) (schemas : List TableSchema)
    (state : SnapshotState) : CaptureProgram.Opens (execute timeout path schemas state) :=
  opens_snapshot timeout path schemas state

end SnapshotReading

namespace Streamer

open CaptureStep (asks_bind quiet_bind quiet_mapM quiet_ofExcept quiet_pure)

theorem quiet_loadProgress (database : String) (path : Option String) (highest : Lsn) :
    (loadProgress database path highest).IsQuiet := by
  unfold loadProgress
  cases path
  case' none => refine quiet_bind (quiet_pure none) fun kept => ?_
  case' some path =>
    refine quiet_bind (x := Server.readProgress path) ⟨trivial, fun _ => trivial⟩ fun kept => ?_
  all_goals
    cases kept with
    | none => exact quiet_bind (x := ExceptT.lift Server.now) ⟨trivial, fun _ => trivial⟩ fun _ => trivial
    | some text => exact quiet_ofExcept _

theorem opens_readTables (s : Streamer) (config : Configuration) (highest : Lsn) :
    CaptureProgram.Opens (readTables s config highest).run := by
  refine asks_bind (quiet_loadProgress _ _ _).opens fun state => ?_
  refine asks_bind (x := ExceptT.mk (pure state.watermark)) trivial fun watermark => ?_
  refine asks_bind Registry.quiet_listSources.opens fun sources => ?_
  refine asks_bind (quiet_mapM quiet_resolveSchema _).opens fun schemas => ?_
  refine asks_bind (asks_andThen (SnapshotReading.opens_execute _ _ schemas state) fun _ => trivial)
    fun out => ?_
  obtain ⟨result, _⟩ := out
  cases result <;> trivial

/-- The step asks for nothing but what an attempt to start needs, and leaves what is known of the capture
instances. -/
def Opens {α : Type} (step : StreamStep α) (s : Streamer) : Prop :=
  ∀ e, Obeys (fun _ => CaptureRequest.Opening) (fun out => out.2.registry = s.registry) e (runStep step s)

section Opens

variable {α β : Type} {s : Streamer}

theorem opens_bind {x : StreamStep α} {f : α → StreamStep β}
    (h : ∀ e, Obeys (fun _ => CaptureRequest.Opening) (fun out => out.2 = s) e (runStep x s))
    (hf : ∀ a, Opens (f a) s) : Opens (x >>= f) s := by
  refine fun e => obeys_bind ((h e).mono ?_)
  rintro ⟨result, s'⟩ rfl e'
  cases result with
  | ok a => exact hf a e'
  | error failure => exact rfl

theorem opens_get {f : Streamer → StreamStep β} (h : Opens (f s) s) : Opens (get >>= f) s := h

theorem opens_ofExcept {result : Except CaptureError α} {f : α → StreamStep β}
    (hf : ∀ a, Opens (f a) s) : Opens (ExceptT.mk (pure result) >>= f) s := by
  cases result with
  | ok a => exact hf a
  | error e => exact fun _ => rfl

theorem opens_liftStep {step : CaptureStep α} (h : CaptureProgram.Opens step.run)
    {f : α → StreamStep β} (hf : ∀ a, Opens (f a) s) : Opens (liftStep step >>= f) s :=
  opens_bind (fun _ => obeys_liftStep (fun _ _ => id) h fun _ => rfl) hf

theorem opens_establishStart (config : Configuration) (s : Streamer) :
    Opens (establishStart config) s := by
  have hbehind (watermark : Lsn) : Opens (do
      let first ← liftStep (startAfter watermark)
      set (s.startAt first)) s :=
    opens_liftStep (quiet_startAfter watermark).opens fun _ _ => rfl
  have hload {f : Option (Offset .sqlserver) → StreamStep Unit} (hf : ∀ stored, Opens (f stored) s) :
      Opens (if s.hasStore then liftStep (Server.loadOffset s.offsetKey) >>= f else pure none >>= f) s := by
    split
    · exact opens_liftStep (quiet_loadOffset _).opens hf
    · exact hf none
  unfold establishStart
  refine opens_get (hload fun stored => ?_)
  cases stored with
  | some offset => exact fun _ => rfl
  | none =>
      generalize config.startPosition = start
      refine opens_ofExcept fun start => ?_
      rcases start with _ | offset | first
      · refine opens_liftStep quiet_maxLsn.opens fun highest => ?_
        dsimp only
        cases config.snapshotMode with
        | initial => exact opens_liftStep (opens_readTables s config highest) hbehind
        | never => exact hbehind highest
      · exact fun _ => rfl
      · exact fun _ => rfl

end Opens

end Streamer

/-! ## Polls -/

/-- A record is handed over when the switch was just found on, and an offset is saved when its record was
just acknowledged. -/
def CaptureRequest.Follows (e : TaskEvent) : CaptureRequest → Prop
  | .deliver _ => e = .asked .isActive true
  | .storage (.saveOffset _ o) => ∃ record, e = .asked (.deliver record) (.ok ()) ∧ record.offset = o
  | _ => True

theorem CaptureRequest.Quiet.follows (e : TaskEvent) {r : CaptureRequest} (h : r.Quiet) :
    r.Follows e := by
  cases r with
  | storage request =>
      cases request with
      | saveOffset => exact h.elim
      | loadOffset | readProgress | writeProgress => trivial
  | deliver | isActive => exact h.elim
  | server | lockTable | now => trivial

namespace Streamer

variable {α β : Type}

/-- The step looks at the switch before each record, whatever was seen before it. -/
def Heeds (step : StreamStep α) : Prop :=
  ∀ e s, Obeys CaptureRequest.Follows (fun _ => True) e (runStep step s)

theorem heeds_bind {x : StreamStep α} {f : α → StreamStep β} (hx : Heeds x) (hf : ∀ a, Heeds (f a)) :
    Heeds (x >>= f) := by
  refine fun e s => obeys_bind ((hx e s).mono fun out _ e' => ?_)
  obtain ⟨result, s'⟩ := out
  cases result with
  | ok a => exact hf a e' s'
  | error failure => trivial

theorem compositional_heeds : Compositional Heeds where
  pure _ _ _ := trivial
  throw _ _ _ := trivial
  get _ _ := trivial
  modify _ _ _ := trivial
  quiet hstep _ _ := obeys_liftStep (fun e _ => CaptureRequest.Quiet.follows e) hstep fun _ => trivial
  bind := heeds_bind

/-- Behind a look at the switch a record may be handed over. -/
theorem obeys_commitRecord (record : ChangeRecord .sqlserver) (s : Streamer) :
    Obeys CaptureRequest.Follows (fun _ => True) (.asked .isActive true)
      (runStep (commitRecord record) s) := by
  refine ⟨rfl, fun answer => ?_⟩
  cases answer with
  | error failure => trivial
  | ok u =>
      change Obeys _ _ _ (runStep (do
        let tracker ← ExceptT.mk (pure (s.tracker.commit record.offset))
        set ({ s with tracker } : Streamer)
        if s.hasStore then liftStep (Server.saveOffset s.offsetKey record.offset)) s)
      cases s.tracker.commit record.offset with
      | error failure => trivial
      | ok tracker =>
          cases s.hasStore with
          | true => exact ⟨⟨record, rfl, rfl⟩, fun _ => trivial⟩
          | false => trivial

theorem heeds_deliverRecords (progress : DeliveryProgress) (records : List (ChangeRecord .sqlserver)) :
    Heeds (deliverRecords progress records) := by
  induction records generalizing progress with
  | nil => exact fun _ _ => trivial
  | cons record records ih =>
      unfold deliverRecords
      dsimp only
      split
      · exact ih _
      · refine fun e s => ⟨trivial, fun active => ?_⟩
        cases active with
        | false => trivial
        | true =>
            refine obeys_bind ((obeys_commitRecord record s).mono fun out _ e' => ?_)
            obtain ⟨result, s'⟩ := out
            cases result with
            | ok u => exact ih _ e' s'
            | error failure => trivial

theorem heeds_pollOnce : Heeds pollOnce := compositional_heeds.pollOnce heeds_deliverRecords

end Streamer

/-! ## Steps of a task -/

namespace CaptureTask

/-- Nothing is known of the capture instances yet. -/
def Fresh (task : CaptureTask) : Prop := task.streamer.registry = {}

/-- The program is part of an attempt to start. -/
abbrev Attempts (e : TaskEvent) (p : CaptureProgram TaskOutcome) : Prop :=
  Obeys (fun _ => CaptureRequest.Opening) (TaskOutcome.Goes Fresh) e p

/-- The program is part of a poll, and a task that goes on polls again. -/
abbrev KeepsPolling (e : TaskEvent) (p : CaptureProgram TaskOutcome) : Prop :=
  Obeys CaptureRequest.Follows (TaskOutcome.Goes fun task => task.phase = .polling) e p

theorem attempts_startStep {task : CaptureTask} (h : task.Fresh) (e : TaskEvent) :
    Attempts e task.startStep := by
  refine Obeys.andThen ((Streamer.opens_establishStart task.config task.streamer e).mono ?_)
  rintro ⟨result, s⟩ hs e'
  have hs' : s.registry = {} := Eq.trans hs h
  cases result with
  | ok u => exact hs'
  | error failure => exact goes_afterFailure (fun _ => hs') failure

theorem keepsPolling_pollStep {task : CaptureTask} (h : task.phase = .polling) (e : TaskEvent) :
    KeepsPolling e task.pollStep := by
  refine ⟨trivial, fun active => ?_⟩
  cases active with
  | false => trivial
  | true =>
      refine Obeys.andThen (p := Streamer.runStep Streamer.pollOnce task.streamer)
        ((Streamer.heeds_pollOnce _ task.streamer).mono ?_)
      rintro ⟨result, s⟩ - e'
      cases result with
      | ok stats => exact h
      | error failure => exact goes_afterFailure (fun _ => h) failure

theorem keepsPolling_step {task : CaptureTask} (h : task.phase = .polling) (e : TaskEvent) :
    KeepsPolling e task.step := by
  rw [step, h]
  exact keepsPolling_pollStep h e

theorem attempts_step {task : CaptureTask} (hphase : task.phase = .starting) (h : task.Fresh)
    (e : TaskEvent) : Attempts e task.step := by
  rw [step, hphase]
  exact attempts_startStep h e

end CaptureTask

/-! ## Runs of a task -/

/-- The event is part of an attempt to start. -/
def TaskEvent.Opens : TaskEvent → Prop
  | .begun phase => phase = .starting
  | .asked r _ => r.Opening

theorem TaskEvent.not_opens_begun_polling : ¬ (TaskEvent.begun .polling).Opens := nofun

/-- The event may come right after another while the task polls. -/
def TaskEvent.Follows (e : TaskEvent) : TaskEvent → Prop
  | .begun phase => phase = .polling
  | .asked r _ => r.Follows e

namespace CaptureTask.Runs

variable {p q r : CaptureProgram TaskOutcome} {w v w' : World}
  {events events' before after : List TaskEvent} {e : TaskEvent}

theorem trans (h : Runs p w events q v) (h' : Runs q v events' r w') :
    Runs p w (events ++ events') r w' := by
  induction h with
  | nil => exact h'
  | asked ha _ ih => exact .asked ha (ih h')
  | begun _ ih => exact .begun (ih h')

theorem of_leads (h : Leads Rules.lawless.answers p w q w') : ∃ events, Runs p w events q w' := by
  induction h with
  | refl p w => exact ⟨[], .nil p w⟩
  | ask ha _ ih =>
      obtain ⟨events, h⟩ := ih
      exact ⟨_, .asked ha h⟩

/-- Two requests that a program may come to are answered one after the other. -/
theorem of_comesTo {r r' : CaptureRequest} {answer : r.Answer} {answer' : r'.Answer}
    (h : ComesTo Rules.lawless.answers r answer r' p w)
    (hanswer : ∀ w, ∃ v, Rules.lawless.answers w r answer v)
    (hanswer' : ∀ w, ∃ v, Rules.lawless.answers w r' answer' v) :
    ∃ events q v, Runs p w (events ++ [.asked r answer, .asked r' answer']) q v := by
  obtain ⟨next, next', v, hleads, hnext⟩ := h
  obtain ⟨events, hruns⟩ := of_leads hleads
  obtain ⟨u, hu⟩ := hanswer v
  obtain ⟨u', hu'⟩ := hanswer' u
  have hlast : Runs (next answer) u [.asked r' answer'] (next' answer') u' :=
    hnext ▸ .asked hu' (.nil _ u')
  exact ⟨events, _, u', hruns.trans (.asked hu hlast)⟩

theorem split (h : Runs p w (before ++ after) q w') :
    ∃ r v, Runs p w before r v ∧ Runs r v after q w' := by
  induction before generalizing p w with
  | nil => exact ⟨p, w, .nil p w, h⟩
  | cons e before ih =>
      cases h with
      | asked ha hrest =>
          obtain ⟨r, v, hbefore, hafter⟩ := ih hrest
          exact ⟨r, v, .asked ha hbefore, hafter⟩
      | begun hrest =>
          obtain ⟨r, v, hbefore, hafter⟩ := ih hrest
          exact ⟨r, v, .begun hbefore, hafter⟩

theorem of_begun {phase : TaskPhase} (h : Runs p w (before ++ .begun phase :: after) q w') :
    ∃ (task : CaptureTask) (v : World), task.phase = phase ∧ Runs task.step v after q w' := by
  obtain ⟨r, v, _, h⟩ := h.split
  cases h with
  | begun hrest => exact ⟨_, v, rfl, hrest⟩

/-- A poll that finds the switch off at once is the last. -/
theorem of_polling {task : CaptureTask} (hphase : task.phase = .polling)
    (h : Runs task.step w events q w') (hcleared : .asked .isActive true ∉ events) :
    events = [] ∨ events = [.asked .isActive false] := by
  rw [step, hphase] at h
  cases h with
  | nil => exact .inl rfl
  | @asked _ _ answer _ _ events _ _ _ hrest =>
      cases (answer : Bool) with
      | true => simp at hcleared
      | false =>
          cases hrest with
          | nil => exact .inr rfl

/-- While a task polls, its events follow one another. -/
theorem isChain (h : Runs p w events q w') (hp : KeepsPolling e p) :
    (e :: events).IsChain TaskEvent.Follows := by
  induction h generalizing e with
  | nil => exact .singleton _
  | asked _ _ ih => exact .cons_cons hp.1 (ih (hp.2 _))
  | begun _ ih => exact .cons_cons hp (ih (keepsPolling_step hp _))

/-- A run of a task: it has only tried to start, or it has begun to poll at some time. -/
inductive Phases (p : CaptureProgram TaskOutcome) (w : World) (q : CaptureProgram TaskOutcome)
    (w' : World) : List TaskEvent → Prop where
  | opening {events : List TaskEvent} (h : ∀ e ∈ events, e.Opens) : Phases p w q w' events
  | polling {opening polled millis task v} (hopening : ∀ e ∈ opening, e.Opens)
      (hstart : Runs p w opening (.done (.pause millis task)) v) (hphase : task.phase = .polling)
      (hfresh : task.Fresh) (hrest : Runs task.step v polled q w') :
      Phases p w q w' (opening ++ .begun .polling :: polled)

theorem phases (h : Runs p w events q w') (hp : Attempts e p) : Phases p w q w' events := by
  induction h generalizing e with
  | nil => exact .opening (by simp)
  | @asked r _ answer _ _ _ _ _ ha _ ih =>
      have hr : (TaskEvent.asked r answer).Opens := hp.1
      cases ih (hp.2 answer) with
      | opening h => exact .opening (forall_mem_cons.mpr ⟨hr, h⟩)
      | polling hopening hstart hphase hfresh hrest =>
          exact .polling (forall_mem_cons.mpr ⟨hr, hopening⟩) (.asked ha hstart)
            hphase hfresh hrest
  | @begun millis task w _ _ _ hrest ih =>
      cases hphase : task.phase with
      | polling => exact .polling (by simp) (.nil _ w) hphase hp hrest
      | starting =>
          have he : (TaskEvent.begun .starting).Opens := rfl
          have hbegun {events q w'} (h : Runs task.step w events q w') :
              Runs (.done (.pause millis task)) w (.begun .starting :: events) q w' :=
            hphase ▸ .begun h
          cases ih (attempts_step hphase hp (.begun .starting)) with
          | opening h => exact .opening (forall_mem_cons.mpr ⟨he, h⟩)
          | polling hopening hstart hpolling hfresh hpolled =>
              exact .polling (forall_mem_cons.mpr ⟨he, hopening⟩) (hbegun hstart)
                hpolling hfresh hpolled

end CaptureTask.Runs

end ChangeCapture
