import ChangeCapture.Record.Basic

/-! # Delivery of records -/

namespace ChangeCapture

variable {b : Backend}

/-! ## Channels -/

/-- A record on its way to the receiver. Its sender waits for the outcome of the ticket. -/
structure Delivery (b : Backend) where
  ticket : Nat
  record : ChangeRecord b
  deriving DecidableEq

/-- Records between their senders and a receiver. A record waits for room, is admitted, waits for the
receiver, and then for its acknowledgement. -/
structure DeliveryChannel (b : Backend) where
  /-- How many records may wait for the receiver. -/
  capacity : Nat
  /-- The receiver is there. -/
  isOpen : Bool := true
  nextTicket : Nat := 0
  /-- Deliveries that wait for room, in the order of their senders. -/
  waiting : List (Delivery b) := []
  /-- Deliveries that room is kept for until their senders go on. -/
  admitted : List (Delivery b) := []
  /-- Deliveries that wait for the receiver. -/
  buffered : List (Delivery b) := []
  /-- Deliveries that the receiver has taken and neither acknowledged nor dropped. -/
  held : List (Delivery b) := []
  /-- The outcomes that are known. -/
  outcomes : List (Nat × Except CaptureError Unit) := []

namespace DeliveryChannel

/-- A channel for a number of records; there is always room for one. -/
def ofCapacity (capacity : Nat) : DeliveryChannel b := { capacity := max capacity 1 }

/-! ## Outcomes -/

/-- The failure of a record that never got room because the receiver is gone. -/
def refused : CaptureError := .sinkClosed "delivery receiver dropped"

/-- The failure of a record that was lost after it got room. -/
def unacknowledged (delivery : Delivery b) : CaptureError :=
  .sinkClosed s!"record at {delivery.record.offset} dropped without acknowledgement"

/-- What became of a ticket, if it is known. -/
def outcome? (channel : DeliveryChannel b) (ticket : Nat) : Option (Except CaptureError Unit) :=
  channel.outcomes.lookup ticket

/-! ## Senders -/

/-- Hands over a record; the answer is its ticket. -/
def send (channel : DeliveryChannel b) (record : ChangeRecord b) : Nat × DeliveryChannel b :=
  let ticket := channel.nextTicket
  let delivery := { ticket, record : Delivery b }
  let sent := { channel with nextTicket := ticket + 1 }
  let sent :=
    if !channel.isOpen then { sent with outcomes := (ticket, .error refused) :: channel.outcomes }
    else if channel.admitted.length + channel.buffered.length < channel.capacity then
      { sent with buffered := channel.buffered ++ [delivery] }
    else { sent with waiting := channel.waiting ++ [delivery] }
  (ticket, sent)

/-- The sender of a ticket goes on. If its delivery was admitted, it takes the room that was kept. -/
def enter (channel : DeliveryChannel b) (ticket : Nat) : DeliveryChannel b :=
  let (entering, admitted) := channel.admitted.partition fun d => d.ticket = ticket
  { channel with admitted, buffered := channel.buffered ++ entering }

/-! ## The receiver -/

/-- Takes the first delivery. The room it leaves is kept for the first one that waits. -/
def receive? (channel : DeliveryChannel b) : Option (Delivery b × DeliveryChannel b) :=
  match channel.buffered with
  | [] => none
  | delivery :: rest =>
      some (delivery,
        { channel with
          buffered := rest
          admitted := channel.admitted ++ channel.waiting.take 1
          waiting := channel.waiting.drop 1
          held := channel.held ++ [delivery] })

/-- Settles a delivery that the receiver holds. -/
def settle (channel : DeliveryChannel b) (delivery : Delivery b) (result : Except CaptureError Unit) :
    DeliveryChannel b :=
  if channel.held.contains delivery then
    { channel with
      held := channel.held.erase delivery
      outcomes := (delivery.ticket, result) :: channel.outcomes }
  else channel

/-- The receiver confirms a delivery. -/
def acknowledge (channel : DeliveryChannel b) (delivery : Delivery b) : DeliveryChannel b :=
  channel.settle delivery (.ok ())

/-- The receiver gives up a delivery. -/
def discard (channel : DeliveryChannel b) (delivery : Delivery b) : DeliveryChannel b :=
  channel.settle delivery (.error (unacknowledged delivery))

/-- The receiver goes away. What it has taken may still be acknowledged; what waits for it is lost, and
what is not there yet is turned away. -/
def close (channel : DeliveryChannel b) : DeliveryChannel b :=
  let lost := channel.buffered.map fun d => (d.ticket, Except.error (unacknowledged d))
  let turnedAway := (channel.admitted ++ channel.waiting).map fun d => (d.ticket, Except.error refused)
  { channel with
    isOpen := false, waiting := [], admitted := [], buffered := []
    outcomes := lost ++ turnedAway ++ channel.outcomes }

end DeliveryChannel

end ChangeCapture
