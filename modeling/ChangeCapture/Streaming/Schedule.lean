import ChangeCapture.Memory.Server
import ChangeCapture.Memory.Storage
import ChangeCapture.Streaming.Source

/-! # Running capture tasks in turns -/

namespace ChangeCapture

/-! ## Tasks and time -/

/-- What a running task waits for. -/
inductive TaskWait where
  /-- Its turn. -/
  | turn (program : CaptureProgram TaskOutcome)
  /-- A time, to take its next step. -/
  | time (wake : Nat) (task : CaptureTask)
  /-- A time at which a table is locked, or at which the time to wait for that is over. -/
  | lock (wake : Nat) (expired : Bool) (table : TableId)
      (next : LockAnswer → CaptureProgram TaskOutcome)
  /-- The outcome of a delivery. -/
  | outcome (ticket : Nat) (next : Except CaptureError Unit → CaptureProgram TaskOutcome)

/-- The time at which a task is woken, if it waits for a time. -/
def TaskWait.wakeTime? : TaskWait → Option Nat
  | .time wake _ | .lock wake .. => some wake
  | .turn _ | .outcome .. => none

/-- A source with its running tasks, a server and a clock in milliseconds. Tasks run one at a time, each
until it waits, and the clock moves on only when all of them wait. -/
structure Schedule where
  source : CaptureSource
  server : MemoryServer
  storage : MemoryStorage := {}
  clock : Nat := 0
  /-- The running tasks by number, in the order in which they began to wait. -/
  tasks : List (Nat × TaskWait) := []
  /-- The tasks that may go on, in the order in which they were woken. -/
  ready : List Nat := []
  /-- How many waits have ended since tasks last went on. -/
  hasty : Nat := 0

abbrev ScheduleM := StateM Schedule

namespace Schedule

def ofSource (source : CaptureSource) (server : MemoryServer) : Schedule := { source, server }

/-! ## Access -/

def onServer {α : Type} (action : StateM MemoryServer α) : ScheduleM α :=
  modifyGet fun s =>
    let (a, server) := action.run s.server
    (a, { s with server })

def onStorage {α : Type} (action : StateM MemoryStorage α) : ScheduleM α :=
  modifyGet fun s =>
    let (a, storage) := action.run s.storage
    (a, { s with storage })

def withChannel (s : Schedule) (channel : DeliveryChannel .sqlserver) : Schedule :=
  { s with source := { s.source with channel } }

/-- A task begins to wait. -/
def setWait (number : Nat) (wait : TaskWait) : ScheduleM Unit :=
  modify fun s => { s with tasks := (s.tasks.filter fun t => t.1 != number) ++ [(number, wait)] }

def finish (number : Nat) (result : Except CaptureError Unit) : ScheduleM Unit :=
  modify fun s =>
    { s with
      tasks := s.tasks.filter fun t => t.1 != number
      source := s.source.finish number result }

def wake (numbers : List Nat) : ScheduleM Unit :=
  modify fun s => { s with ready := s.ready ++ numbers }

/-! ## Turns -/

/-- Runs a program of a task until the task waits or ends. The answer is the task if it goes on at
once. -/
def runProgram (number : Nat) : CaptureProgram TaskOutcome → ScheduleM (Option CaptureTask)
  | .done (.finished result) => do
      finish number result
      return none
  | .done (.pause 0 task) => return some task
  | .done (.pause millis task) => do
      setWait number (.time ((← get).clock + millis) task)
      return none
  | .ask (.server request) next => do
      let a ← onServer (MemoryServer.answer request)
      runProgram number (next a)
  | .ask (.storage request) next => do
      let a ← onStorage (MemoryStorage.answer request)
      runProgram number (next a)
  | .ask (.lockTable table timeout) next => do
      let s ← get
      let delay := s.server.lockDelay
      if delay = 0 then
        let a ← onServer (MemoryServer.lock table)
        runProgram number (next a)
      else
        setWait number (.lock (s.clock + min delay timeout) (timeout < delay) table next)
        return none
  | .ask (.deliver record) next => do
      let s ← get
      let (ticket, channel) := s.source.channel.send record
      set (s.withChannel channel)
      match channel.outcome? ticket with
      | some result => runProgram number (next result)
      | none => do
          setWait number (.outcome ticket next)
          return none
  | .ask .isActive next => do
      let active := (← get).source.control.active
      runProgram number (next active)
  | .ask .now next => do
      let seconds : Int := (← get).clock / 1000
      runProgram number (next seconds)

/-- Runs a task until it waits or ends. After `bound` more steps without a pause it is woken for another
turn. -/
def advance (bound number : Nat) (program : CaptureProgram TaskOutcome) : ScheduleM Unit := do
  match ← runProgram number program with
  | none => return
  | some task =>
      match bound with
      | 0 => do
          setWait number (.turn task.step)
          wake [number]
      | bound + 1 => advance bound number task.step

/-- The pauses of no length that a task may skip in one turn. -/
def turnLength : Nat := 128

/-- Lets a task go on that was woken. A task whose delivery was admitted hands it over and waits on. -/
def resume (number : Nat) : ScheduleM Unit := do
  let s ← get
  match s.tasks.lookup number with
  | none => return
  | some (.turn program) => advance turnLength number program
  | some (.time _ task) => advance turnLength number task.step
  | some (.lock _ expired table next) => do
      let a ← if expired then pure .expired else onServer (MemoryServer.lock table)
      advance turnLength number (next a)
  | some (.outcome ticket next) =>
      match s.source.channel.outcome? ticket with
      | none => set (s.withChannel (s.source.channel.enter ticket))
      | some result => advance turnLength number (next result)

/-- Lets woken tasks go on in their order, and again those that were woken meanwhile, for at most some
rounds. -/
def settleIn : Nat → ScheduleM Unit
  | 0 => return
  | rounds + 1 => do
      let woken := (← get).ready
      if woken.isEmpty then return
      modify fun s => { s with ready := [] }
      woken.forM resume
      settleIn rounds

/-- Lets tasks go on until all of them wait. One that never pauses is left after some turns. -/
def settle : ScheduleM Unit := do
  modify fun s => { s with hasty := 0 }
  settleIn 200

/-! ## Time -/

/-- The times at which tasks are woken, with the tasks. -/
def timers (s : Schedule) : List (Nat × Nat) :=
  s.tasks.filterMap fun t => t.2.wakeTime?.map fun time => (time, t.1)

/-- Moves the clock on and wakes the tasks whose time has come, the earliest first, and of those with one
time the one that began to wait first. -/
def moveClock (time : Nat) : ScheduleM Unit :=
  modify fun s =>
    let due := (s.timers.filter fun t => t.1 ≤ time).mergeSort fun t u => t.1 ≤ u.1
    { s with clock := time, ready := s.ready ++ due.map Prod.snd }

/-- Waits for a value at most until a deadline. What becomes of a task at the deadline itself comes too
late, and no time passes while a task never pauses. -/
def waitUntil {α : Type} (check : ScheduleM (Option α)) (deadline : Nat) : Nat → ScheduleM (Option α)
  | 0 => return none
  | fuel + 1 => do
      settle
      match ← check with
      | some a => return some a
      | none => do
          let s ← get
          if !s.ready.isEmpty then return none
          let time := (s.timers.map Prod.fst).foldl min deadline
          moveClock time
          if time < deadline then waitUntil check deadline fuel else return none

/-- The waits that may end in a row before tasks go on. -/
def patience : Nat := 128

/-- Waits for a value at most some milliseconds. A value that is there at once is taken before any task
goes on, unless too many waits have ended like that. -/
def wait {α : Type} (check : ScheduleM (Option α)) (millis : Nat) : ScheduleM (Option α) := do
  if patience ≤ (← get).hasty then settle
  let found ← check
  let value ←
    if found.isSome || millis = 0 then pure found
    else waitUntil check ((← get).clock + millis) millis
  modify fun s => { s with hasty := s.hasty + 1 }
  return value

/-! ## Use of the source -/

/-- Starts a task. -/
def start : ScheduleM (Except CaptureError Unit) := do
  let s ← get
  match s.source.start with
  | .error e => return .error e
  | .ok (task, source) => do
      let number := s.source.started
      set { s with source, tasks := s.tasks ++ [(number, TaskWait.turn task.step)] }
      wake [number]
      return .ok ()

/-- The tasks that wait for the outcome of deliveries. -/
def sendersOf (s : Schedule) (deliveries : List (Delivery .sqlserver)) : List Nat :=
  deliveries.filterMap fun delivery =>
    (s.tasks.find? fun t =>
      match t.2 with
      | .outcome ticket _ => ticket = delivery.ticket
      | _ => false).map Prod.fst

/-- Takes a delivery that is there, and wakes the sender of the one that is admitted for it. -/
def take? : ScheduleM (Option (Delivery .sqlserver)) := do
  let s ← get
  match s.source.channel.receive? with
  | none => return none
  | some (delivery, channel) => do
      set (s.withChannel channel)
      wake (s.sendersOf (s.source.channel.waiting.take 1))
      return some delivery

/-- Receives a record within some milliseconds and acknowledges or drops it. -/
def receive (millis : Nat) (acknowledged : Bool) : ScheduleM (Option (ChangeRecord .sqlserver)) := do
  match ← wait take? millis with
  | none => return none
  | some delivery => do
      let s ← get
      let channel := s.source.channel
      set (s.withChannel
        (if acknowledged then channel.acknowledge delivery else channel.discard delivery))
      wake (s.sendersOf [delivery])
      return some delivery.record

/-- The receiver goes away. -/
def dropReceiver : ScheduleM Unit := do
  let s ← get
  let channel := s.source.channel
  set (s.withChannel channel.close)
  wake (s.sendersOf (channel.waiting ++ channel.buffered))

/-- The result of the last task, if it has ended. Without a task there is nothing to wait for. -/
def lastResult : ScheduleM (Option (Except CaptureError Unit)) :=
  return (← get).source.control.task.elim (some (.ok ())) Prod.snd

/-- Waits for the end of the last task for some milliseconds and gives the task up. The answer is its
result, or nothing if the task goes on. -/
def join (millis : Nat) : ScheduleM (Option (Except CaptureError Unit)) := do
  let result ← wait lastResult millis
  modify fun s => { s with source := { s.source with control := s.source.control.detach } }
  return result

/-- Lets time pass. -/
def sleep (millis : Nat) : ScheduleM Unit := do
  let _ ← wait (α := Unit) (pure none) millis

end Schedule

end ChangeCapture
