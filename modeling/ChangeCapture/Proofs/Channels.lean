import ChangeCapture.Delivery
import Mathlib.Data.List.Perm.Basic

/-! # Channels

A delivery that was sent stays in its channel until its receiver settles it or goes away. -/

namespace ChangeCapture

open List

namespace DeliveryChannel

variable {b : Backend} {channel channel' : DeliveryChannel b} {delivery : Delivery b}
  {record : ChangeRecord b}

/-- The deliveries whose outcome is not known yet. -/
def pending (channel : DeliveryChannel b) : List (Delivery b) :=
  channel.waiting ++ channel.admitted ++ channel.buffered ++ channel.held

/-- What was sent while the receiver is there is pending. -/
theorem pending_send (h : channel.isOpen) (record : ChangeRecord b) :
    (channel.send record).2.pending ~ ⟨channel.nextTicket, record⟩ :: channel.pending := by
  unfold send
  simp only [h, Bool.not_true, Bool.false_eq_true, if_false]
  refine perm_iff_count.mpr fun d => ?_
  split <;>
  · simp only [pending, count_append, count_cons, count_nil]
    omega

theorem pending_enter (channel : DeliveryChannel b) (ticket : Nat) :
    (channel.enter ticket).pending ~ channel.pending := by
  have hadmitted := filter_append_perm (fun d => decide (d.ticket = ticket)) channel.admitted
  refine perm_iff_count.mpr fun d => ?_
  have hcount := perm_iff_count.mp hadmitted d
  simp only [enter, pending, partition_eq_filter_filter, count_append] at hcount ⊢
  simp only [Function.comp_def] at hcount ⊢
  omega

theorem pending_receive? (h : channel.receive? = some (delivery, channel')) :
    channel'.pending ~ channel.pending := by
  unfold receive? at h
  split at h
  · cases h
  · rename_i rest hbuffered
    cases h
    refine perm_iff_count.mpr fun d => ?_
    have hwaiting := congrArg (count d) (take_append_drop 1 channel.waiting)
    simp only [pending, hbuffered, count_append, count_cons, count_nil] at hwaiting ⊢
    omega

/-- What the receiver settles is not pending any more. -/
theorem pending_settle (h : delivery ∈ channel.held) (result : Except CaptureError Unit) :
    delivery :: (channel.settle delivery result).pending ~ channel.pending := by
  have hheld := perm_cons_erase h
  refine perm_iff_count.mpr fun d => ?_
  have hcount := perm_iff_count.mp hheld d
  simp only [settle, contains_iff_mem, h, if_true, pending, count_append, count_cons] at hcount ⊢
  omega

@[simp] theorem send_ticket (channel : DeliveryChannel b) (record : ChangeRecord b) :
    (channel.send record).1 = channel.nextTicket := rfl

@[simp] theorem nextTicket_send (channel : DeliveryChannel b) (record : ChangeRecord b) :
    (channel.send record).2.nextTicket = channel.nextTicket + 1 := by
  unfold send
  dsimp only
  repeat' split
  all_goals rfl

@[simp] theorem held_send (channel : DeliveryChannel b) (record : ChangeRecord b) :
    (channel.send record).2.held = channel.held := by
  unfold send
  dsimp only
  repeat' split
  all_goals rfl

theorem outcomes_send (channel : DeliveryChannel b) (record : ChangeRecord b) :
    (channel.send record).2.outcomes =
      if channel.isOpen then channel.outcomes
      else (channel.nextTicket, .error refused) :: channel.outcomes := by
  unfold send
  cases channel.isOpen with
  | false => rfl
  | true =>
      simp only [Bool.not_true, Bool.false_eq_true, if_false, if_true]
      split <;> rfl

theorem pending_send_of_not_open (h : channel.isOpen = false) (record : ChangeRecord b) :
    (channel.send record).2.pending = channel.pending := by
  simp [send, h, pending]

theorem eq_of_receive? (h : channel.receive? = some (delivery, channel')) :
    channel'.held = channel.held ++ [delivery] ∧ channel'.outcomes = channel.outcomes ∧
      channel'.nextTicket = channel.nextTicket := by
  unfold receive? at h
  split at h
  · cases h
  · cases h
    exact ⟨rfl, rfl, rfl⟩

theorem settle_eq (h : delivery ∈ channel.held) (result : Except CaptureError Unit) :
    channel.settle delivery result =
      { channel with
        held := channel.held.erase delivery
        outcomes := (delivery.ticket, result) :: channel.outcomes } := by
  simp [settle, h]

end DeliveryChannel

end ChangeCapture
