import ChangeCapture.Delivery
import ChangeCapture.Memory.Server
import ChangeCapture.Memory.Storage

/-! # Surroundings in memory -/

namespace ChangeCapture

/-- What a receiver does that takes each delivery at once and acknowledges it. Deliveries are counted
from zero. -/
structure ReceiverPlan where
  /-- The delivery at which the capture is told to stop. -/
  stopAt : Option Nat := none
  /-- The delivery that is dropped instead. -/
  dropAt : Option Nat := none
  /-- The number of deliveries after which the receiver goes away. -/
  closeAt : Option Nat := none

/-- All that a capture program needs, with a receiver that is always there to take a delivery. -/
structure MemorySurroundings where
  server : MemoryServer
  storage : MemoryStorage := {}
  channel : DeliveryChannel .sqlserver
  /-- The capture is to go on. -/
  active : Bool := true
  plan : ReceiverPlan := {}
  /-- How many deliveries were taken under the plan. -/
  taken : Nat := 0
  /-- The acknowledged records, the last first. -/
  accepted : List (ChangeRecord .sqlserver) := []

namespace MemorySurroundings

/-- Closes the channel when the plan says so. -/
def closeWhenPlanned (s : MemorySurroundings) : MemorySurroundings :=
  if s.plan.closeAt = some s.taken then { s with channel := s.channel.close } else s

/-- Begins with a plan. -/
def follow (s : MemorySurroundings) (plan : ReceiverPlan) : MemorySurroundings :=
  closeWhenPlanned { s with plan, taken := 0 }

/-- The receiver has taken a delivery. -/
def accept (s : MemorySurroundings) (delivery : Delivery .sqlserver) : MemorySurroundings :=
  let active := s.active && s.plan.stopAt ≠ some s.taken
  let next :=
    if s.plan.dropAt = some s.taken then { s with channel := s.channel.discard delivery }
    else
      { s with
        channel := s.channel.acknowledge delivery
        accepted := delivery.record :: s.accepted }
  closeWhenPlanned { next with active, taken := s.taken + 1 }

/-- Delivers a record. -/
def deliver (record : ChangeRecord .sqlserver) :
    StateM MemorySurroundings (Except CaptureError Unit) :=
  modifyGet fun s =>
    let (ticket, channel) := s.channel.send record
    let s :=
      match channel.receive? with
      | none => { s with channel }
      | some (delivery, channel) => accept { s with channel } delivery
    ((s.channel.outcome? ticket).getD (.error DeliveryChannel.refused), s)

def onServer {α : Type} (action : StateM MemoryServer α) : StateM MemorySurroundings α :=
  modifyGet fun s =>
    let (a, server) := action.run s.server
    (a, { s with server })

def onStorage {α : Type} (action : StateM MemoryStorage α) : StateM MemorySurroundings α :=
  modifyGet fun s =>
    let (a, storage) := action.run s.storage
    (a, { s with storage })

/-- Answers a request. A lock that takes longer than is waited for is not asked for. -/
def answer : (request : CaptureRequest) → StateM MemorySurroundings request.Answer
  | .server request => onServer (MemoryServer.answer request)
  | .storage request => onStorage (MemoryStorage.answer request)
  | .lockTable table timeout => do
      if timeout < (← get).server.lockDelay then return .expired
      else onServer (MemoryServer.lock table)
  | .deliver record => deliver record
  | .isActive => return (← get).active
  | .now => return (0 : Int)

end MemorySurroundings

end ChangeCapture
