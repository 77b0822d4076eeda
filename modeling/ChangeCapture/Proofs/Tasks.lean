import ChangeCapture.Streaming.Source
import Mathlib.Data.List.Chain

/-! # Capture tasks that share a switch

The tasks of a source run beside each other and beside the calls of its owner. What is told about them
holds for every order in which they take turns. -/

namespace ChangeCapture

open List

/-! ## Starting -/

theorem CaptureSource.start_eq_ok {source source' : CaptureSource} {task : CaptureTask} :
    source.start = .ok (task, source') ↔
      source.control.active = false ∧
        task = .ofConfiguration source.config source.database source.hasStore ∧
        source' =
          { source with
            control := { active := true, task := some (source.started, none) }
            started := source.started + 1 } := by
  unfold CaptureSource.start CaptureControl.start
  cases source.control.active with
  | true => simp [bind, Except.bind]
  | false => simp [bind, Except.bind, pure, Except.pure, eq_comm]

/-! ## Steps -/

/-- A step of a task that does not end the task. -/
def CaptureTask.goesOn : CaptureProgram TaskOutcome → Bool
  | .done (.finished _) => false
  | _ => true

/-- A source with what is left to do of each of its running tasks, by the number of the task. -/
structure Running where
  source : CaptureSource
  tasks : List (Nat × CaptureProgram TaskOutcome) := []

namespace Running

/-- No task was started yet. -/
def ofConfiguration (config : Configuration) (database : String) (hasStore : Bool) : Running :=
  { source := .ofConfiguration config database hasStore }

/-- How many tasks have not come to their end. -/
def live (s : Running) : Nat := s.tasks.countP fun task => CaptureTask.goesOn task.2

/-- The task that was started last is running. -/
def LastRuns (s : Running) : Prop := ∃ task ∈ s.tasks, task.1 + 1 = s.source.started

/-- One step of the owner or of a task. Requests other than for the switch may get any answer, and
whoever is at the other end of the channel may do anything with it. -/
inductive Step : Running → Running → Prop where
  | started {s task source} (h : s.source.start = .ok (task, source)) :
      Step s { source, tasks := s.tasks ++ [(s.source.started, .done (.pause 0 task))] }
  | refused {s e} (h : s.source.start = .error e) : Step s s
  | stopped (s) : Step s { s with source := s.source.stop }
  | detached (s) : Step s { s with source := { s.source with control := s.source.control.detach } }
  | used (s channel hasReceiver) :
      Step s { s with source := { s.source with channel, hasReceiver } }
  | tested {source before after number next} :
      Step { source, tasks := before ++ (number, .ask .isActive next) :: after }
        { source, tasks := before ++ (number, next source.control.active) :: after }
  | answered {source before after number r answer next} (h : r ≠ .isActive) :
      Step { source, tasks := before ++ (number, .ask r next) :: after }
        { source, tasks := before ++ (number, next answer) :: after }
  | paused {source before after number millis task} :
      Step { source, tasks := before ++ (number, .done (.pause millis task)) :: after }
        { source, tasks := before ++ (number, task.step) :: after }
  | exited {source before after number result} :
      Step { source, tasks := before ++ (number, .done (.finished result)) :: after }
        { source := source.finish number result, tasks := before ++ after }

variable {s s' : Running} {states : List Running} {config : Configuration} {database : String}
  {hasStore : Bool}

/-! ## The last task -/

/-- A task whose end was not noticed is the last one that was started, and it is running. -/
def Sound (s : Running) : Prop :=
  ∀ number, s.source.control.task = some (number, none) →
    number + 1 = s.source.started ∧ number ∈ s.tasks.map Prod.fst

theorem sound_ofConfiguration : (ofConfiguration config database hasStore).Sound :=
  fun _ h => nomatch h

theorem Sound.step (hs : s.Sound) (h : Step s s') : s'.Sound := by
  intro last hlast
  cases h with
  | started h =>
      obtain ⟨_, _, rfl⟩ := CaptureSource.start_eq_ok.mp h
      obtain ⟨rfl, _⟩ := Prod.mk.inj (Option.some.inj hlast)
      exact ⟨rfl, by simp⟩
  | refused | stopped | used => exact hs last hlast
  | detached => cases hlast
  | tested | answered | paused =>
      obtain ⟨hnumber, hmem⟩ := hs last hlast
      exact ⟨hnumber, by simpa using hmem⟩
  | @exited source before after number result =>
      obtain ⟨⟨last', result'⟩, htask, heq⟩ := Option.map_eq_some_iff.mp hlast
      -- The end of the last task itself would have been noticed.
      split at heq
      · cases heq
      · rename_i hne
        cases heq
        obtain ⟨hnumber, hmem⟩ := hs last htask
        simp only [map_append, map_cons, mem_append, mem_cons] at hmem
        refine ⟨hnumber, ?_⟩
        rcases hmem with hmem | rfl | hmem
        · simp [hmem]
        · exact absurd rfl hne
        · simp [hmem]

/-- While the source is healthy, its last task is running. -/
theorem Sound.lastRuns (hs : s.Sound) (h : s.source.isHealthy) : s.LastRuns := by
  obtain ⟨_, htask⟩ := Bool.and_eq_true_iff.mp h
  obtain ⟨⟨number, result⟩, hlast, hnone⟩ := (Option.any_eq_true _ _).mp htask
  obtain rfl := Option.isNone_iff_eq_none.mp hnone
  obtain ⟨hnumber, hmem⟩ := hs number hlast
  obtain ⟨task, htask, rfl⟩ := mem_map.mp hmem
  exact ⟨task, htask, hnumber⟩

/-! ## How many tasks there are -/

/-- While a task goes on, nothing that becomes of it adds to their number. -/
theorem live_le_of_goesOn {source source' : CaptureSource} {number : Nat}
    {before after : List (Nat × CaptureProgram TaskOutcome)} {p q : CaptureProgram TaskOutcome}
    (hp : CaptureTask.goesOn p) :
    live { source := source', tasks := before ++ (number, q) :: after } ≤
      live { source, tasks := before ++ (number, p) :: after } := by
  cases hq : CaptureTask.goesOn q <;> simp [live, hp, hq]

/-- Only a start adds a task, and then the switch is on. -/
theorem Step.live_le (h : Step s s') :
    s'.source.started = s.source.started ∧ s'.live ≤ s.live ∨
      s'.source.started = s.source.started + 1 ∧ s'.live = s.live + 1 ∧ s'.source.control.active := by
  cases h with
  | started h =>
      obtain ⟨_, _, rfl⟩ := CaptureSource.start_eq_ok.mp h
      exact .inr ⟨rfl, by simp [live, CaptureTask.goesOn], rfl⟩
  | refused | stopped | detached | used => exact .inl ⟨rfl, le_rfl⟩
  | tested | answered | paused => exact .inl ⟨rfl, live_le_of_goesOn rfl⟩
  | exited => exact .inl ⟨rfl, by simp [live, CaptureTask.goesOn]⟩

/-- A step that starts a task only when no other one goes on. -/
structure CarefulStep (s s' : Running) : Prop where
  step : Step s s'
  alone : s.source.started < s'.source.started → s.live = 0

theorem CarefulStep.live_le_one (h : CarefulStep s s') (hs : s.live ≤ 1) : s'.live ≤ 1 := by
  rcases h.step.live_le with ⟨_, hle⟩ | ⟨hstarted, hlive, _⟩
  · exact hle.trans hs
  · have hnone := h.alone (hstarted ▸ Nat.lt_succ_self _)
    omega

/-- A start beside a task that goes on makes two tasks that find the switch on. -/
theorem Step.careful (h : Step s s') (hs : s'.source.control.active → s'.live ≤ 1) :
    CarefulStep s s' := by
  refine ⟨h, fun hlt => ?_⟩
  rcases h.live_le with ⟨hstarted, _⟩ | ⟨_, hlive, hactive⟩
  · omega
  · have hle := hs hactive
    omega

/-- Whatever turns the tasks of a source and its owner take, the source is healthy only while the task
that was started last is running. At most one task at a time goes on with the switch on exactly if no
task is started while another one goes on, which the source itself does not see to: it can be started
again as soon as it was told to stop. -/
theorem single_flight_iff (h : (ofConfiguration config database hasStore :: states).IsChain Step) :
    (∀ s ∈ ofConfiguration config database hasStore :: states, s.source.isHealthy → s.LastRuns) ∧
      ((∀ s ∈ ofConfiguration config database hasStore :: states,
          s.source.control.active → s.live ≤ 1) ↔
        (ofConfiguration config database hasStore :: states).IsChain CarefulStep) := by
  refine ⟨fun s hs hhealthy => ?_, fun hone => ?_, fun hcareful s hs _ => ?_⟩
  · exact (h.induction Sound _ (fun _ _ hstep hsound => hsound.step hstep)
      (fun _ => sound_ofConfiguration) s hs).lastRuns hhealthy
  · exact h.imp_of_mem_imp fun s s' _ hs' hstep => hstep.careful (hone s' hs')
  · exact hcareful.induction (fun s => s.live ≤ 1) _ (fun _ _ hstep hle => hstep.live_le_one hle)
      (fun _ => Nat.zero_le 1) s hs

namespace SampleTasks

/-- A source that was started, with its task. -/
def once : Running :=
  { source := { (ofConfiguration {} "shop" true).source with
      control := { active := true, task := some (0, none) }, started := 1 }
    tasks := [(0, .done (.pause 0 (.ofConfiguration {} "shop" true)))] }

/-- It was told to stop and started again. -/
def twice : Running :=
  { source := { once.source with
      control := { active := true, task := some (1, none) }, started := 2 }
    tasks := once.tasks ++ [(1, .done (.pause 0 (.ofConfiguration {} "shop" true)))] }

theorem step_once : Step (ofConfiguration {} "shop" true) once := .started rfl

end SampleTasks

open SampleTasks in
/-- A source that was started has one task. -/
theorem single_flight_iff_of_sample :
    once.LastRuns ∧ ∀ s ∈ [ofConfiguration {} "shop" true, once],
      s.source.control.active → s.live ≤ 1 := by
  obtain ⟨hhealthy, hone⟩ := single_flight_iff (isChain_pair.mpr step_once)
  exact ⟨hhealthy once (by simp) rfl, hone.mpr (isChain_pair.mpr ⟨step_once, fun _ => rfl⟩)⟩

open SampleTasks in
/-- A source that is stopped and started again at once has two tasks that find the switch on. -/
theorem two_in_flight :
    ¬ ∀ (config : Configuration) (database : String) (hasStore : Bool) (states : List Running),
      (ofConfiguration config database hasStore :: states).IsChain Step →
      ∀ s ∈ ofConfiguration config database hasStore :: states,
        s.source.control.active → s.live ≤ 1 := by
  intro h
  have hagain : Step { once with source := once.source.stop } twice := .started rfl
  have hle : twice.live ≤ 1 :=
    h {} "shop" true [once, { once with source := once.source.stop }, twice]
      (.cons_cons step_once (.cons_cons (.stopped once) (isChain_pair.mpr hagain))) twice (by simp) rfl
  exact absurd hle (by decide)

end Running

end ChangeCapture
