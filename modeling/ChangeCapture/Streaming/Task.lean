import ChangeCapture.Streaming.Streamer

/-! # The task that keeps capturing -/

namespace ChangeCapture

/-- What a capture task does next. -/
inductive TaskPhase where
  /-- It finds out where to start. -/
  | starting
  /-- It reads the next interval. -/
  | polling
  deriving DecidableEq, Repr

/-- A task that captures changes until it is stopped or fails. -/
structure CaptureTask where
  config : Configuration
  streamer : Streamer
  backoff : Backoff
  phase : TaskPhase := .starting

/-- What a step of a task leads to. -/
inductive TaskOutcome where
  /-- The task goes on after a pause in milliseconds. -/
  | pause (millis : Nat) (task : CaptureTask)
  | finished (result : Except CaptureError Unit)

namespace CaptureTask

def ofConfiguration (config : Configuration) (database : String) (hasStore : Bool) : CaptureTask :=
  { config, streamer := .ofConfiguration config database hasStore, backoff := config.backoff }

/-- What follows a failure: another attempt after a pause, if it may pass and attempts are left. -/
def afterFailure (task : CaptureTask) (e : CaptureError) : TaskOutcome :=
  if e.isRetriable then
    match task.backoff.next with
    | (some delay, backoff) => .pause delay { task with backoff }
    | (none, _) => .finished (.error e)
  else .finished (.error e)

/-- Tries to find out where to start. -/
def startStep (task : CaptureTask) : CaptureProgram TaskOutcome := do
  let (result, streamer) ← Streamer.runStep (Streamer.establishStart task.config) task.streamer
  let task := { task with streamer }
  match result with
  | .ok _ => return .pause 0 { task with backoff := task.backoff.reset, phase := .polling }
  | .error e => return task.afterFailure e

/-- The pause after an interval. There is none while more is known to come. -/
def pauseAfter (config : Configuration) : Option IntervalStats → Nat
  | some stats => if stats.caughtUp then config.pollInterval else 0
  | none => config.pollInterval

/-- Reads an interval, unless the capture was stopped. -/
def pollStep (task : CaptureTask) : CaptureProgram TaskOutcome := do
  if ← Server.isActive then
    let (result, streamer) ← Streamer.runStep Streamer.pollOnce task.streamer
    let task := { task with streamer }
    match result with
    | .ok stats => return .pause (pauseAfter task.config stats) { task with backoff := task.backoff.reset }
    | .error e => return task.afterFailure e
  else return .finished (.ok ())

/-- The next attempt to start or the next interval. -/
def step (task : CaptureTask) : CaptureProgram TaskOutcome :=
  match task.phase with
  | .starting => task.startStep
  | .polling => task.pollStep

end CaptureTask

/-! ## Control -/

/-- The switch that tells capture tasks to go on, and how far the last task that was started has come. -/
structure CaptureControl where
  active : Bool := false
  /-- The last task that was started and whose end was not waited for: its number and, once it has
  ended, its result. -/
  task : Option (Nat × Option (Except CaptureError Unit)) := none

namespace CaptureControl

/-- Switches the capture on for a new task. -/
def start (control : CaptureControl) (task : Nat) : Except CaptureError CaptureControl :=
  if control.active then .error (.config "CDC source already started")
  else .ok { active := true, task := some (task, none) }

/-- Switches the capture off; tasks end when they notice. -/
def stop (control : CaptureControl) : CaptureControl := { control with active := false }

/-- A task has ended and switched the capture off. -/
def finish (control : CaptureControl) (task : Nat) (result : Except CaptureError Unit) :
    CaptureControl :=
  { active := false
    task := control.task.map fun t => if t.1 = task then (t.1, some result) else t }

/-- The capture is on and its last task is running. -/
def isHealthy (control : CaptureControl) : Bool :=
  control.active && control.task.any fun t => t.2.isNone

/-- Gives up the last task. -/
def detach (control : CaptureControl) : CaptureControl := { control with task := none }

end CaptureControl

end ChangeCapture
