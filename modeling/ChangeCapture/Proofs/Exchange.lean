import ChangeCapture.Proofs.Bookkeeping
import ChangeCapture.Proofs.Channels
import ChangeCapture.Proofs.Progress
import Mathlib.Logic.Relation

/-! # Records on their way to a receiver

A capture hands over records through a channel and waits for each until its receiver has done something
with it. Whatever turns both take, the capture learns what became of the record. -/

namespace ChangeCapture

open List
open Program (ComesTo Ends Leads)

/-! ## The engine, the channel and the receiver -/

/-- What became of a record: it was acknowledged, it was dropped by the receiver or with it, or there was
no receiver. -/
inductive Fate where
  | acknowledged
  | dropped
  | refused
  deriving DecidableEq

/-- How the call that delivers the record ends. -/
def Fate.result (fate : Fate) (delivery : Delivery .sqlserver) : Except CaptureError Unit :=
  match fate with
  | .acknowledged => .ok ()
  | .dropped => .error (DeliveryChannel.unacknowledged delivery)
  | .refused => .error DeliveryChannel.refused

/-- What is left of a poll. -/
abbrev Poll := CaptureProgram (Except CaptureError (Option IntervalStats) × Streamer)

/-- Nothing can be had. -/
def CaptureRequest.unavailable : (r : CaptureRequest) → r.Answer
  | .server (.listInstances) | .server (.listNewInstances ..) | .server (.tableColumns _)
  | .server (.keyColumns _) | .server (.minLsn _) | .server .maxLsn | .server .maxTransactionLsn
  | .server (.nthTransactionLsn ..) | .server (.incrementLsn _) | .server (.changes _)
  | .server (.snapshotRows ..) | .server (.unlockTable _) | .storage (.loadOffset _)
  | .storage (.readProgress _) | .storage (.saveOffset ..) | .storage (.writeProgress ..)
  | .deliver _ => Except.error .connectionClosed
  | .lockTable .. => LockAnswer.expired
  | .isActive => false
  | .now => (0 : Int)

/-- The streamer that a poll leaves if nothing more can be had. -/
def Poll.left (poll : Poll) : Streamer := (Program.run (m := Id) CaptureRequest.unavailable poll).2

/-- What is committed at a point of a poll is what the streamer has committed that is left there. -/
theorem Accounts.tracker_left {tracker : OffsetTracker .sqlserver} {poll : Poll}
    (h : Accounts Streamer.Knowing tracker poll) : poll.left.tracker = tracker := by
  induction h with
  | done h => exact h
  | asks _ _ ih => exact ih _
  | delivers _ _ _ ihlost => exact ihlost _
  | saves _ _ ih => exact ih _

/-- What delivers records: a streamer that rests between two polls, that polls, or that waits for the
outcome of a delivery. -/
inductive Engine where
  | resting (streamer : Streamer)
  | polling (poll : Poll)
  | waiting (delivery : Delivery .sqlserver) (next : Except CaptureError Unit → Poll)

namespace Engine

/-- The streamer as it is, if nothing more can be had. -/
def streamer : Engine → Streamer
  | .resting streamer => streamer
  | .polling poll => poll.left
  | .waiting _ next => (next (.error .connectionClosed)).left

/-- What is committed at a point of a poll has a property, and the poll goes on from it as it should. -/
inductive Keeps (P : OffsetTracker .sqlserver → Prop) : Engine → Prop where
  | resting {s : Streamer} (h : P s.tracker) : Keeps P (.resting s)
  | polling {tracker poll} (h : P tracker) (hpoll : Accounts Streamer.Knowing tracker poll) :
      Keeps P (.polling poll)
  | waiting {tracker tracker' d next} (h : P tracker)
      (hlost : ∀ e, Accounts Streamer.Knowing tracker (next (.error e)))
      (hcommit : tracker' = tracker ∨ tracker.commit d.record.offset = .ok tracker')
      (hacknowledged : Accounts Streamer.Knowing tracker' (next (.ok ()))) :
      Keeps P (.waiting d next)

theorem Keeps.mono {P Q : OffsetTracker .sqlserver → Prop} {engine : Engine}
    (h : engine.Keeps P) (hPQ : ∀ tracker, P tracker → Q tracker) : engine.Keeps Q := by
  cases h with
  | resting h => exact .resting (hPQ _ h)
  | polling h hpoll => exact .polling (hPQ _ h) hpoll
  | waiting h hlost hcommit hacknowledged => exact .waiting (hPQ _ h) hlost hcommit hacknowledged

theorem Keeps.streamer {P : OffsetTracker .sqlserver → Prop} {engine : Engine} (h : engine.Keeps P) :
    P engine.streamer.tracker := by
  cases h with
  | resting h => exact h
  | polling h hpoll => exact hpoll.tracker_left ▸ h
  | waiting h hlost => exact (hlost _).tracker_left ▸ h

end Engine

/-- An engine and a receiver with the channel between them, and the store of the engine. -/
structure Exchange where
  engine : Engine
  channel : DeliveryChannel .sqlserver
  /-- The offset that is stored. -/
  saved : Option (Offset .sqlserver)
  /-- The deliveries in the hands of the receiver. -/
  deliveries : List (Delivery .sqlserver) := []
  /-- What the receiver has split off deliveries to acknowledge them later. -/
  acknowledgers : List (Delivery .sqlserver) := []
  /-- What became of records, the last one first. -/
  fates : List (Delivery .sqlserver × Fate) := []
  /-- The calls that have ended with their results, the last one first. -/
  calls : List (Delivery .sqlserver × Except CaptureError Unit) := []

namespace Exchange

/-- A streamer that has resumed, before its first poll. -/
def ofStreamer (streamer : Streamer) (saved : Option (Offset .sqlserver)) (capacity : Nat) : Exchange :=
  { engine := .resting streamer, channel := .ofCapacity capacity, saved }

/-- What becomes of records when the receiver goes away. -/
def abandoned (x : Exchange) : List (Delivery .sqlserver × Fate) :=
  x.channel.buffered.map (·, .dropped) ++ (x.channel.admitted ++ x.channel.waiting).map (·, .refused)

/-- One step of the engine or of the receiver. All requests but those for the receiver and the store may
get any answer, and a store that fails to save may have taken the offset or not. -/
inductive Step : Exchange → Exchange → Prop where
  | begins {x s} (h : x.engine = .resting s) :
      Step x { x with engine := .polling (Streamer.runStep Streamer.pollOnce s) }
  | answered {x r next} (h : x.engine = .polling (.ask r next)) (hr : r.Passive) (answer : r.Answer) :
      Step x { x with engine := .polling (next answer) }
  | sent {x record next} (h : x.engine = .polling (.ask (.deliver record) next)) :
      Step x
        { x with
          engine := .waiting ⟨x.channel.nextTicket, record⟩ next
          channel := (x.channel.send record).2
          fates :=
            if x.channel.isOpen then x.fates
            else (⟨x.channel.nextTicket, record⟩, .refused) :: x.fates }
  | entered {x d next} (h : x.engine = .waiting d next) :
      Step x { x with channel := x.channel.enter d.ticket }
  | resumed {x d next result} (h : x.engine = .waiting d next)
      (hresult : x.channel.outcome? d.ticket = some result) :
      Step x { x with engine := .polling (next result), calls := (d, result) :: x.calls }
  | saved {x key offset next} (h : x.engine = .polling (.ask (.storage (.saveOffset key offset)) next))
      (answer : Except CaptureError Unit) :
      Step x { x with engine := .polling (next answer), saved := some offset }
  | notSaved {x key offset next} (h : x.engine = .polling (.ask (.storage (.saveOffset key offset)) next))
      (e : CaptureError) : Step x { x with engine := .polling (next (.error e)) }
  | rests {x result s} (h : x.engine = .polling (.done (result, s))) :
      Step x { x with engine := .resting s }
  | received {x d channel} (h : x.channel.receive? = some (d, channel)) :
      Step x { x with channel, deliveries := x.deliveries ++ [d] }
  | acknowledged {x d} (h : d ∈ x.deliveries) :
      Step x
        { x with
          channel := x.channel.acknowledge d, deliveries := x.deliveries.erase d
          fates := (d, .acknowledged) :: x.fates }
  | dropped {x d} (h : d ∈ x.deliveries) :
      Step x
        { x with
          channel := x.channel.discard d, deliveries := x.deliveries.erase d
          fates := (d, .dropped) :: x.fates }
  | split {x d} (h : d ∈ x.deliveries) :
      Step x
        { x with deliveries := x.deliveries.erase d, acknowledgers := x.acknowledgers ++ [d] }
  | acknowledgedLater {x d} (h : d ∈ x.acknowledgers) :
      Step x
        { x with
          channel := x.channel.acknowledge d, acknowledgers := x.acknowledgers.erase d
          fates := (d, .acknowledged) :: x.fates }
  | acknowledgerDropped {x d} (h : d ∈ x.acknowledgers) :
      Step x
        { x with
          channel := x.channel.discard d, acknowledgers := x.acknowledgers.erase d
          fates := (d, .dropped) :: x.fates }
  | closed (x) :
      Step x
        { x with
          channel := x.channel.close, fates := x.abandoned ++ x.fates }

variable {x x' : Exchange} {d : Delivery .sqlserver}

/-! ## Deliveries -/

/-- What is pending is what the engine waits for. -/
inductive Owes (x : Exchange) : Prop where
  | nothing (hpending : x.channel.pending = []) (h : ∀ d next, x.engine ≠ .waiting d next)
  | settled {d next fate} (hpending : x.channel.pending = []) (h : x.engine = .waiting d next)
      (hfate : (d, fate) ∈ x.fates)
  | outstanding {d next} (hpending : x.channel.pending = [d]) (h : x.engine = .waiting d next)
      (hticket : d.ticket < x.channel.nextTicket) (hnew : ∀ f ∈ x.fates, f.1.ticket ≠ d.ticket)

/-- The channel knows what became of each record, and each call has ended, or can end, accordingly. -/
structure Traced (x : Exchange) : Prop where
  outcomes_eq : x.channel.outcomes = x.fates.map fun f => (f.1.ticket, f.2.result f.1)
  held_perm : x.channel.held ~ x.deliveries ++ x.acknowledgers
  ticket_lt : ∀ f ∈ x.fates, f.1.ticket < x.channel.nextTicket
  distinct : (x.fates.map fun f => f.1.ticket).Nodup
  called : ∀ c ∈ x.calls, ∃ fate, (c.1, fate) ∈ x.fates ∧ c.2 = fate.result c.1
  returned : ∀ f ∈ x.fates, (f.1, f.2.result f.1) ∈ x.calls ∨ ∃ next, x.engine = .waiting f.1 next
  owes : x.Owes

theorem traced_ofStreamer (streamer : Streamer) (saved : Option (Offset .sqlserver)) (capacity : Nat) :
    (ofStreamer streamer saved capacity).Traced where
  outcomes_eq := rfl
  held_perm := .refl _
  ticket_lt := by simp [ofStreamer]
  distinct := nodup_nil
  called := by simp [ofStreamer]
  returned := by simp [ofStreamer]
  owes := .nothing rfl fun _ _ h => by cases h

namespace Traced

theorem eq_of_ticket (h : x.Traced) {f g : Delivery .sqlserver × Fate} (hf : f ∈ x.fates)
    (hg : g ∈ x.fates) (hticket : f.1.ticket = g.1.ticket) : f = g :=
  inj_on_of_nodup_map h.distinct hf hg hticket

/-- An outcome that is known is that of a record whose fate is known. -/
theorem exists_fate (h : x.Traced) {ticket : Nat} {result : Except CaptureError Unit}
    (hresult : x.channel.outcome? ticket = some result) :
    ∃ f ∈ x.fates, f.1.ticket = ticket ∧ f.2.result f.1 = result := by
  obtain ⟨before, after, houtcomes, _⟩ := lookup_eq_some_iff.mp hresult
  have hmem : (ticket, result) ∈ x.channel.outcomes := by simp [houtcomes]
  rw [h.outcomes_eq] at hmem
  obtain ⟨f, hf, heq⟩ := mem_map.mp hmem
  obtain ⟨hticket, hfate⟩ := Prod.mk.inj heq
  exact ⟨f, hf, hticket, hfate⟩

theorem outcome?_eq (h : x.Traced) {fate : Fate} (hfate : (d, fate) ∈ x.fates) :
    x.channel.outcome? d.ticket = some (fate.result d) := by
  cases houtcome : x.channel.outcome? d.ticket with
  | none =>
      have hmem : (d.ticket, fate.result d) ∈ x.channel.outcomes := by
        rw [h.outcomes_eq]
        exact mem_map_of_mem (f := fun f : Delivery .sqlserver × Fate => (f.1.ticket, f.2.result f.1)) hfate
      have hne := lookup_eq_none_iff.mp houtcome _ hmem
      simp at hne
  | some result =>
      obtain ⟨f, hf, hticket, rfl⟩ := h.exists_fate houtcome
      rw [h.eq_of_ticket hf hfate hticket]

theorem abandoned_eq_nil (h : x.channel.pending = []) : x.abandoned = [] ∧ x.channel.held = [] := by
  simp only [DeliveryChannel.pending, append_eq_nil_iff] at h
  obtain ⟨⟨⟨hwaiting, hadmitted⟩, hbuffered⟩, hheld⟩ := h
  simp [abandoned, hwaiting, hadmitted, hbuffered, hheld]

theorem abandoned_of_pending (h : x.channel.pending = [d]) :
    x.abandoned = [] ∧ x.channel.held = [d] ∨
      x.channel.held = [] ∧ ∃ fate, x.abandoned = [(d, fate)] := by
  simp only [DeliveryChannel.pending, append_eq_singleton_iff, append_eq_nil_iff] at h
  rcases h with ⟨⟨⟨hwaiting, hadmitted⟩, hbuffered⟩, hheld⟩ |
    ⟨⟨⟨hwaiting, hadmitted⟩, hbuffered⟩ | ⟨⟨hwaiting, hadmitted⟩ | ⟨hwaiting, hadmitted⟩, hbuffered⟩,
      hheld⟩ <;>
    simp [abandoned, hwaiting, hadmitted, hbuffered, hheld]

/-- How a call ends tells the fate of its record. -/
theorem result_eq_ok_iff (h : x.Traced) {fate : Fate} (hfate : (d, fate) ∈ x.fates) :
    (fate.result d = .ok () ↔ (d, .acknowledged) ∈ x.fates) ∧
      ((∃ message, fate.result d = .error (.sinkClosed message)) ↔
        (d, .dropped) ∈ x.fates ∨ (d, .refused) ∈ x.fates) ∧
      (fate.result d = .ok () ∨ ∃ message, fate.result d = .error (.sinkClosed message)) := by
  have hunique {fate'} (hfate' : (d, fate') ∈ x.fates) : fate' = fate :=
    congrArg Prod.snd (h.eq_of_ticket hfate' hfate rfl)
  cases fate with
  | acknowledged =>
      refine ⟨⟨fun _ => hfate, fun _ => rfl⟩, ⟨fun ⟨_, hresult⟩ => ?_, ?_⟩, .inl rfl⟩
      · cases hresult
      · rintro (hdropped | hrefused)
        · cases hunique hdropped
        · cases hunique hrefused
  | dropped =>
      refine ⟨⟨fun hresult => ?_, fun hacknowledged => ?_⟩,
        ⟨fun _ => .inl hfate, fun _ => ⟨_, rfl⟩⟩, .inr ⟨_, rfl⟩⟩
      · cases hresult
      · cases hunique hacknowledged
  | refused =>
      refine ⟨⟨fun hresult => ?_, fun hacknowledged => ?_⟩,
        ⟨fun _ => .inr hfate, fun _ => ⟨_, rfl⟩⟩, .inr ⟨_, rfl⟩⟩
      · cases hresult
      · cases hunique hacknowledged

/-- What is outstanding is settled, and the channel knows it. -/
theorem determine (h : x.Traced) {next : Except CaptureError Unit → Poll} {fate : Fate}
    (hwaits : x.engine = .waiting d next) (hticket : d.ticket < x.channel.nextTicket)
    (hnew : ∀ f ∈ x.fates, f.1.ticket ≠ d.ticket) {channel : DeliveryChannel .sqlserver}
    {deliveries acknowledgers : List (Delivery .sqlserver)} (hpending : channel.pending = [])
    (houtcomes : channel.outcomes = (d.ticket, fate.result d) :: x.channel.outcomes)
    (hnextTicket : channel.nextTicket = x.channel.nextTicket)
    (hperm : channel.held ~ deliveries ++ acknowledgers) :
    Traced { x with channel, deliveries, acknowledgers, fates := (d, fate) :: x.fates } where
  outcomes_eq := by rw [houtcomes, map_cons, ← h.outcomes_eq]
  held_perm := hperm
  ticket_lt := by
    rw [hnextTicket]
    exact forall_mem_cons.mpr ⟨hticket, h.ticket_lt⟩
  distinct := by
    rw [map_cons, nodup_cons]
    refine ⟨fun hin => ?_, h.distinct⟩
    obtain ⟨f, hf, heq⟩ := mem_map.mp hin
    exact hnew f hf heq
  called c hc := by
    obtain ⟨fate', hfate, hresult⟩ := h.called c hc
    exact ⟨fate', mem_cons_of_mem _ hfate, hresult⟩
  returned := forall_mem_cons.mpr ⟨.inr ⟨_, hwaits⟩, h.returned⟩
  owes := .settled hpending hwaits mem_cons_self

/-- The receiver settles what it holds, which is what the engine waits for. -/
theorem settle (h : x.Traced) (hd : d ∈ x.channel.held) (fate : Fate)
    {deliveries acknowledgers : List (Delivery .sqlserver)}
    (hperm : x.channel.held.erase d ~ deliveries ++ acknowledgers) :
    Traced { x with
      channel := x.channel.settle d (fate.result d), deliveries, acknowledgers
      fates := (d, fate) :: x.fates } := by
  have hpending := DeliveryChannel.pending_settle hd (fate.result d)
  have hmem : d ∈ x.channel.pending := mem_append_right _ hd
  obtain hnone | ⟨hnone, _, _⟩ | ⟨hone, hwaits, hticket, hnew⟩ := h.owes
  · simp [hnone] at hmem
  · simp [hnone] at hmem
  · rw [hone, mem_singleton] at hmem
    subst hmem
    rw [hone] at hpending
    have hpending : (x.channel.settle d (fate.result d)).pending = [] := by
      simpa using perm_singleton.mp hpending
    rw [DeliveryChannel.settle_eq hd] at hpending ⊢
    exact h.determine hwaits hticket hnew hpending rfl rfl hperm

theorem settle_whole (h : x.Traced) (hd : d ∈ x.deliveries) (fate : Fate) :
    Traced { x with
      channel := x.channel.settle d (fate.result d), deliveries := x.deliveries.erase d
      fates := (d, fate) :: x.fates } := by
  refine h.settle (h.held_perm.mem_iff.mpr (mem_append_left _ hd)) fate ?_
  rw [← erase_append_left _ hd]
  exact h.held_perm.erase d

theorem settle_split (h : x.Traced) (hd : d ∈ x.acknowledgers) (fate : Fate) :
    Traced { x with
      channel := x.channel.settle d (fate.result d), acknowledgers := x.acknowledgers.erase d
      fates := (d, fate) :: x.fates } := by
  refine h.settle (h.held_perm.mem_iff.mpr (mem_append_right _ hd)) fate ?_
  have hrest : d :: (x.deliveries ++ x.acknowledgers).erase d ~
      d :: (x.deliveries ++ x.acknowledgers.erase d) :=
    calc d :: (x.deliveries ++ x.acknowledgers).erase d
        ~ x.deliveries ++ x.acknowledgers := (perm_cons_erase (mem_append_right _ hd)).symm
      _ ~ x.deliveries ++ d :: x.acknowledgers.erase d := (perm_cons_erase hd).append_left _
      _ ~ d :: (x.deliveries ++ x.acknowledgers.erase d) := perm_middle
  exact (h.held_perm.erase d).trans hrest.cons_inv

/-- While the engine does not wait, nothing is pending. -/
theorem pending_eq_nil (h : x.Traced) (hengine : ∀ d next, x.engine ≠ .waiting d next) :
    x.channel.pending = [] := by
  obtain hnone | ⟨_, hwaits, _⟩ | ⟨_, hwaits, _⟩ := h.owes
  · exact hnone
  · exact absurd hwaits (hengine _ _)
  · exact absurd hwaits (hengine _ _)

/-- What the engine does by itself between two deliveries. -/
theorem proceed (h : x.Traced) (hengine : ∀ d next, x.engine ≠ .waiting d next) {engine : Engine}
    (hnext : ∀ d next, engine ≠ .waiting d next) (saved : Option (Offset .sqlserver)) :
    Traced { x with engine, saved } where
  outcomes_eq := h.outcomes_eq
  held_perm := h.held_perm
  ticket_lt := h.ticket_lt
  distinct := h.distinct
  called := h.called
  returned f hf := .inl ((h.returned f hf).resolve_right fun ⟨next, hwaits⟩ => hengine _ next hwaits)
  owes := .nothing (h.pending_eq_nil hengine) hnext

theorem send (h : x.Traced) (hengine : ∀ d next, x.engine ≠ .waiting d next)
    (record : ChangeRecord .sqlserver) (next : Except CaptureError Unit → Poll) :
    Traced { x with
      engine := .waiting ⟨x.channel.nextTicket, record⟩ next
      channel := (x.channel.send record).2
      fates :=
        if x.channel.isOpen then x.fates
        else (⟨x.channel.nextTicket, record⟩, .refused) :: x.fates } := by
  have hnone := h.pending_eq_nil hengine
  have hcalled (f) (hf : f ∈ x.fates) : (f.1, f.2.result f.1) ∈ x.calls :=
    (h.returned f hf).resolve_right fun ⟨next, hwaits⟩ => hengine _ next hwaits
  have hlater (f) (hf : f ∈ x.fates) : f.1.ticket < x.channel.nextTicket + 1 :=
    Nat.lt_succ_of_lt (h.ticket_lt f hf)
  cases hopen : x.channel.isOpen with
  | true =>
      have hpending := DeliveryChannel.pending_send hopen record
      rw [hnone] at hpending
      exact {
        outcomes_eq := by simp [DeliveryChannel.outcomes_send, hopen, h.outcomes_eq]
        held_perm := by simpa using h.held_perm
        ticket_lt := by simpa using hlater
        distinct := by simpa using h.distinct
        called := by simpa using h.called
        returned := by simpa using fun f fate hf => .inl (hcalled (f, fate) hf)
        owes := .outstanding (perm_singleton.mp hpending) rfl (by simp)
          (by simpa using fun f fate hf => (h.ticket_lt (f, fate) hf).ne) }
  | false =>
      have hpending := DeliveryChannel.pending_send_of_not_open hopen record
      exact {
        outcomes_eq := by simp [DeliveryChannel.outcomes_send, hopen, h.outcomes_eq, Fate.result]
        held_perm := by simpa using h.held_perm
        ticket_lt := by simpa using hlater
        distinct := by
          have hnew : ∀ f ∈ x.fates, f.1.ticket ≠ x.channel.nextTicket := fun f hf =>
            (h.ticket_lt f hf).ne
          simpa [h.distinct] using fun f fate hf => hnew (f, fate) hf
        called := fun c hc => by
          obtain ⟨fate, hfate, hresult⟩ := h.called c hc
          exact ⟨fate, by simp [hfate], hresult⟩
        returned := by
          simp only [Bool.false_eq_true, if_false, forall_mem_cons]
          exact ⟨.inr ⟨_, rfl⟩, fun f hf => .inl (hcalled f hf)⟩
        owes := @Owes.settled _ _ next .refused (hpending.trans hnone) rfl (by simp) }

/-- The channel passes on what is pending. -/
theorem pass (h : x.Traced) {channel : DeliveryChannel .sqlserver}
    {deliveries acknowledgers : List (Delivery .sqlserver)}
    (hpending : channel.pending ~ x.channel.pending)
    (houtcomes : channel.outcomes = x.channel.outcomes)
    (hticket : channel.nextTicket = x.channel.nextTicket)
    (hheld : channel.held ~ deliveries ++ acknowledgers) :
    Traced { x with channel, deliveries, acknowledgers } where
  outcomes_eq := houtcomes.trans h.outcomes_eq
  held_perm := hheld
  ticket_lt f hf := hticket ▸ h.ticket_lt f hf
  distinct := h.distinct
  called := h.called
  returned := h.returned
  owes := by
    obtain hnone | ⟨hnone, hwaits, hfate⟩ | ⟨hone, hwaits, hlt, hnew⟩ := h.owes
    · rw [hnone] at hpending
      exact .nothing hpending.eq_nil ‹_›
    · rw [hnone] at hpending
      exact .settled hpending.eq_nil hwaits hfate
    · rw [hone] at hpending
      exact .outstanding (perm_singleton.mp hpending) hwaits (hticket ▸ hlt) hnew

/-- A call ends with what became of its record. -/
theorem resume (h : x.Traced) {next : Except CaptureError Unit → Poll}
    {result : Except CaptureError Unit} (hwaits : x.engine = .waiting d next)
    (hresult : x.channel.outcome? d.ticket = some result) :
    (∃ fate, (d, fate) ∈ x.fates ∧ result = fate.result d) ∧
      Traced { x with engine := .polling (next result), calls := (d, result) :: x.calls } := by
  obtain ⟨f, hf, hticket, rfl⟩ := h.exists_fate hresult
  have hself {d' next'} (hwaits' : x.engine = .waiting d' next') : d' = d := by
    rw [hwaits] at hwaits'
    cases hwaits'
    rfl
  obtain ⟨_, hengine⟩ | ⟨hnone, hwaits', hfate⟩ | ⟨_, hwaits', _, hnew⟩ := h.owes
  · exact absurd hwaits (hengine d next)
  · cases hself hwaits'
    cases h.eq_of_ticket hf hfate hticket
    refine ⟨⟨_, hf, rfl⟩, ?_⟩
    exact {
      outcomes_eq := h.outcomes_eq
      held_perm := h.held_perm
      ticket_lt := h.ticket_lt
      distinct := h.distinct
      called := forall_mem_cons.mpr ⟨⟨_, hf, rfl⟩, h.called⟩
      returned := fun g hg => by
        obtain hcalled | ⟨_, hwaits''⟩ := h.returned g hg
        · exact .inl (mem_cons_of_mem _ hcalled)
        · rw [h.eq_of_ticket hg hf (by rw [hself hwaits''])]
          exact .inl mem_cons_self
      owes := .nothing hnone fun _ _ h => by cases h }
  · rw [hself hwaits'] at hnew
    exact absurd hticket (hnew f hf)

/-- When the receiver goes away, it keeps what it has taken, and what it has not taken is lost. -/
theorem close (h : x.Traced) :
    Traced { x with channel := x.channel.close, fates := x.abandoned ++ x.fates } := by
  have houtcomes : x.channel.close.outcomes =
      x.abandoned.map (fun f => (f.1.ticket, f.2.result f.1)) ++ x.channel.outcomes := by
    rw [abandoned, map_append, map_map, map_map]
    rfl
  have hkept (hnone : x.abandoned = []) (hpending : x.channel.held ~ x.channel.pending) :
      Traced { x with channel := x.channel.close, fates := x.abandoned ++ x.fates } := by
    rw [hnone] at houtcomes ⊢
    exact h.pass hpending houtcomes rfl h.held_perm
  obtain ⟨hnone, _⟩ | ⟨hnone, _, _⟩ | ⟨hone, hwaits, hlt, hnew⟩ := h.owes
  · exact hkept (abandoned_eq_nil hnone).1 (by rw [hnone, (abandoned_eq_nil hnone).2])
  · exact hkept (abandoned_eq_nil hnone).1 (by rw [hnone, (abandoned_eq_nil hnone).2])
  · rcases abandoned_of_pending hone with ⟨hnone, hheld⟩ | ⟨hheld, fate, hlost⟩
    · exact hkept hnone (by rw [hone, hheld])
    · rw [hlost] at houtcomes ⊢
      exact h.determine hwaits hlt hnew hheld houtcomes rfl h.held_perm

end Traced

theorem Traced.step (h : x.Traced) (hstep : Step x x') : x'.Traced := by
  cases hstep with
  | begins hengine => exact h.proceed (by simp [hengine]) (by simp) x.saved
  | answered hengine => exact h.proceed (by simp [hengine]) (by simp) x.saved
  | sent hengine => exact h.send (by simp [hengine]) _ _
  | entered => exact h.pass (DeliveryChannel.pending_enter _ _) rfl rfl h.held_perm
  | resumed hwaits hresult => exact (h.resume hwaits hresult).2
  | saved hengine => exact h.proceed (by simp [hengine]) (by simp) _
  | notSaved hengine => exact h.proceed (by simp [hengine]) (by simp) x.saved
  | rests hengine => exact h.proceed (by simp [hengine]) (by simp) x.saved
  | received hreceive =>
      obtain ⟨hheld, houtcomes, hticket⟩ := DeliveryChannel.eq_of_receive? hreceive
      refine h.pass (DeliveryChannel.pending_receive? hreceive) houtcomes hticket ?_
      rw [hheld]
      refine perm_iff_count.mpr fun e => ?_
      have hcount := perm_iff_count.mp h.held_perm e
      simp only [count_append] at hcount ⊢
      omega
  | acknowledged hd => exact h.settle_whole hd .acknowledged
  | dropped hd => exact h.settle_whole hd .dropped
  | @split d hd =>
      refine h.pass (.refl _) rfl rfl (perm_iff_count.mpr fun e => ?_)
      have hcount := perm_iff_count.mp h.held_perm e
      have hrest := perm_iff_count.mp (perm_cons_erase hd) e
      simp only [count_append, count_cons, count_nil] at hcount hrest ⊢
      omega
  | acknowledgedLater hd => exact h.settle_split hd .acknowledged
  | acknowledgerDropped hd => exact h.settle_split hd .dropped
  | closed => exact h.close

/-! ## Offsets -/

/-- An offset is that after which the engine has resumed, or that of a record that was acknowledged. -/
def Backed (resumed : Option (Offset .sqlserver)) (fates : List (Delivery .sqlserver × Fate))
    (o : Offset .sqlserver) : Prop :=
  resumed = some o ∨ ∃ d, (d, Fate.acknowledged) ∈ fates ∧ d.record.offset = o

/-- What is committed and saved is backed, and what is saved is not ahead of what is committed. -/
structure Justifies (resumed : Option (Offset .sqlserver))
    (fates : List (Delivery .sqlserver × Fate)) (saved : Option (Offset .sqlserver))
    (tracker : OffsetTracker .sqlserver) : Prop where
  committed : ∀ o, tracker.committed = some o → Backed resumed fates o
  saved : ∀ o, saved = some o →
    Backed resumed fates o ∧ ∃ c, tracker.committed = some c ∧ (compare o c).isLE

section Justifies

variable {resumed saved : Option (Offset .sqlserver)}
  {fates fates' : List (Delivery .sqlserver × Fate)} {tracker tracker' : OffsetTracker .sqlserver}
  {o : Offset .sqlserver}

theorem Backed.mono (h : Backed resumed fates o) (hfates : fates ⊆ fates') :
    Backed resumed fates' o := h.imp_right fun ⟨d, hd, ho⟩ => ⟨d, hfates hd, ho⟩

theorem Justifies.mono (h : Justifies resumed fates saved tracker) (hfates : fates ⊆ fates') :
    Justifies resumed fates' saved tracker where
  committed o ho := (h.committed o ho).mono hfates
  saved o ho := (h.saved o ho).imp_left fun hbacked => hbacked.mono hfates

/-- What is saved is committed. -/
theorem Justifies.save (h : Justifies resumed fates saved tracker)
    (ho : tracker.committed = some o) : Justifies resumed fates (some o) tracker where
  committed := h.committed
  saved o' ho' := by
    cases ho'
    exact ⟨h.committed o ho, o, ho, Std.ReflCmp.isLE_rfl⟩

/-- What is committed after an acknowledgement lies behind what was committed. -/
theorem Justifies.commit (h : Justifies resumed fates saved tracker)
    (hd : (d, .acknowledged) ∈ fates) (hcommit : tracker.commit d.record.offset = .ok tracker') :
    Justifies resumed fates saved tracker' := by
  obtain ⟨hnew, rfl⟩ := OffsetTracker.commit_eq_ok hcommit
  refine ⟨fun o ho => ?_, fun o ho => ?_⟩
  · cases ho
    exact .inr ⟨d, hd, rfl⟩
  · obtain ⟨hbacked, c, hc, hle⟩ := h.saved o ho
    refine ⟨hbacked, _, rfl, Std.TransCmp.isLE_trans hle ?_⟩
    rw [Offset.compare_lt_of_not_covers fun hcovers => hnew ⟨c, hc, hcovers⟩]
    rfl

end Justifies

/-- The engine keeps account of what is acknowledged. -/
def Justified (resumed : Option (Offset .sqlserver)) (x : Exchange) : Prop :=
  x.engine.Keeps (Justifies resumed x.fates x.saved)

theorem Justified.settle {resumed : Option (Offset .sqlserver)} (h : x.Justified resumed)
    {fates : List (Delivery .sqlserver × Fate)} (hfates : x.fates ⊆ fates) :
    x.engine.Keeps (Justifies resumed fates x.saved) :=
  Engine.Keeps.mono h fun _ hjustifies => hjustifies.mono hfates

theorem Justified.step {resumed : Option (Offset .sqlserver)} (h : x.Justified resumed)
    (htraced : x.Traced) (hstep : Step x x') : x'.Justified resumed := by
  unfold Justified at h ⊢
  cases hstep with
  | begins hengine =>
      rw [hengine] at h
      cases h with
      | resting h => exact .polling h (Streamer.keepsAccount_pollOnce _)
  | answered hengine hr answer =>
      rw [hengine] at h
      cases h with
      | polling h hpoll =>
          cases hpoll with
          | asks _ hnext => exact .polling h (hnext answer)
          | delivers | saves => exact hr.elim
  | sent hengine =>
      rw [hengine] at h
      cases h with
      | polling h hpoll =>
          cases hpoll with
          | asks hr => exact hr.elim
          | delivers hlost hcommit hacknowledged =>
              refine Engine.Keeps.mono (.waiting h hlost hcommit hacknowledged) fun _ h => h.mono ?_
              dsimp only
              split
              · exact Subset.refl _
              · exact subset_cons_self _ _
  | entered => exact h
  | resumed hwaits hresult =>
      obtain ⟨⟨fate, hfate, rfl⟩, _⟩ := htraced.resume hwaits hresult
      rw [hwaits] at h
      cases h with
      | waiting h hlost hcommit hacknowledged =>
          cases fate with
          | acknowledged =>
              rcases hcommit with rfl | hcommit
              · exact .polling h hacknowledged
              · exact .polling (h.commit hfate hcommit) hacknowledged
          | dropped | refused => exact .polling h (hlost _)
  | saved hengine answer =>
      rw [hengine] at h
      cases h with
      | polling h hpoll =>
          cases hpoll with
          | asks hr => exact hr.elim
          | saves hcommitted hnext => exact .polling (h.save hcommitted) (hnext answer)
  | notSaved hengine e =>
      rw [hengine] at h
      cases h with
      | polling h hpoll =>
          cases hpoll with
          | asks hr => exact hr.elim
          | saves _ hnext => exact .polling h (hnext _)
  | rests hengine =>
      rw [hengine] at h
      cases h with
      | polling h hpoll =>
          cases hpoll with
          | done hknowing => exact .resting (hknowing ▸ h)
  | received | split => exact h
  | acknowledged | dropped | acknowledgedLater | acknowledgerDropped =>
      exact Justified.settle h (subset_cons_self _ _)
  | closed => exact Justified.settle h (subset_append_right _ _)

/-- The offset that is committed. -/
def committed (x : Exchange) : Option (Offset .sqlserver) := x.engine.streamer.tracker.committed

theorem sound_of_reached {s : Streamer} {saved : Option (Offset .sqlserver)} {capacity : Nat}
    (hsaved : saved = none ∨ saved = s.tracker.committed)
    (h : Relation.ReflTransGen Step (ofStreamer s saved capacity) x) :
    x.Traced ∧ x.Justified s.tracker.committed := by
  induction h with
  | refl =>
      refine ⟨traced_ofStreamer s saved capacity, .resting ⟨fun o ho => .inl ho, fun o ho => ?_⟩⟩
      rcases hsaved with hnone | hresumed
      · cases hnone.symm.trans ho
      · exact ⟨.inl (hresumed.symm.trans ho), o, hresumed.symm.trans ho, Std.ReflCmp.isLE_rfl⟩
  | tail _ hstep ih => exact ⟨ih.1.step hstep, ih.2.step ih.1 hstep⟩

/-- Whatever turns the engine and the receiver take, and whenever the receiver goes away: a call that
delivers a record ends well exactly if the record was acknowledged, and with a closed sink exactly if it
was dropped or refused, and each call can end once this is settled. At most one record is outstanding, the
one that the engine waits for, and the record of a call that has not ended is outstanding or settled. Only
offsets of acknowledged records are committed and saved, apart from the one after which the engine has
resumed, and what is saved is not ahead of what is committed. -/
theorem ok_iff_acknowledged {s : Streamer} {saved : Option (Offset .sqlserver)} {capacity : Nat}
    (hsaved : saved = none ∨ saved = s.tracker.committed)
    (h : Relation.ReflTransGen Step (ofStreamer s saved capacity) x) :
    (∀ d result, (d, result) ∈ x.calls →
      (result = .ok () ↔ (d, .acknowledged) ∈ x.fates) ∧
      ((∃ message, result = .error (.sinkClosed message)) ↔
        (d, .dropped) ∈ x.fates ∨ (d, .refused) ∈ x.fates) ∧
      (result = .ok () ∨ ∃ message, result = .error (.sinkClosed message))) ∧
    (∀ d fate, (d, fate) ∈ x.fates → (d, fate.result d) ∈ x.calls ∨
      ∃ next, x.engine = .waiting d next ∧ x.channel.outcome? d.ticket = some (fate.result d)) ∧
    (x.channel.pending = [] ∨ ∃ d next, x.channel.pending = [d] ∧ x.engine = .waiting d next) ∧
    (∀ d next, x.engine = .waiting d next → x.channel.pending = [d] ∨ ∃ fate, (d, fate) ∈ x.fates) ∧
    (∀ o, x.committed = some o → Backed s.tracker.committed x.fates o) ∧
    ∀ o, x.saved = some o →
      Backed s.tracker.committed x.fates o ∧ ∃ c, x.committed = some c ∧ (compare o c).isLE := by
  obtain ⟨htraced, hjustified⟩ := sound_of_reached hsaved h
  have hjustifies : Justifies s.tracker.committed x.fates x.saved x.engine.streamer.tracker :=
    hjustified.streamer
  refine ⟨fun d result hcall => ?_, fun d fate hfate => ?_, ?_, fun d next hwaits => ?_,
    hjustifies.committed, hjustifies.saved⟩
  · obtain ⟨fate, hfate, hresult⟩ := htraced.called _ hcall
    dsimp only at hfate hresult
    rw [hresult]
    exact htraced.result_eq_ok_iff hfate
  · refine (htraced.returned _ hfate).imp_right ?_
    rintro ⟨next, hwaits⟩
    exact ⟨next, hwaits, htraced.outcome?_eq hfate⟩
  · obtain ⟨hnone, _⟩ | ⟨hnone, _⟩ | ⟨hone, hwaits, _⟩ := htraced.owes
    · exact .inl hnone
    · exact .inl hnone
    · exact .inr ⟨_, _, hone, hwaits⟩
  · obtain ⟨_, hengine⟩ | ⟨_, hwaits', hfate⟩ | ⟨hone, hwaits', _⟩ := htraced.owes
    · exact absurd hwaits (hengine d next)
    · cases hwaits.symm.trans hwaits'
      exact .inr ⟨_, hfate⟩
    · cases hwaits.symm.trans hwaits'
      exact .inl hone

end Exchange

/-! ## A sample -/

namespace Sample

open CaptureStep (ends_request)
open Exchange Streamer

/-- The answers of a documented server to requests that hand nothing over. -/
def passive : Program.Answers CaptureRequest.interface World :=
  fun w r answer w' => r.Passive ∧ Rules.documented.answers w r answer w'

/-- What a poll asks passively can be answered. -/
theorem reaches_of_leads {p q : Poll} {w w' : World} (h : Leads passive p w q w') (x : Exchange) :
    Relation.ReflTransGen Step { x with engine := .polling p } { x with engine := .polling q } := by
  induction h with
  | refl => exact .refl
  | ask ha _ ih => exact .head (.answered rfl ha.1 _) ih

/-- The program comes to the second row, and saves its offset when it is acknowledged. -/
abbrev HandsOver {α : Type} (p : CaptureProgram α) (w : World) : Prop :=
  ComesTo passive (.deliver (record "orders" 15)) (.ok ())
    (.storage (.saveOffset configuration.offsetKey (record "orders" 15).offset)) p w

theorem ends_quiet {α : Type} {step : CaptureStep α} {result : Except CaptureError α} {s : Streamer}
    {w v : World} (hstep : step.IsQuiet) (h : Ends Rules.documented.answers step.run w result v) :
    Ends passive (runStep (liftStep step) s) w (result, s) v :=
  ends_liftStep ((hstep.mono fun _ => CaptureRequest.Quiet.passive).leads h)

/-- In the stream of the interval there is only the second row. -/
theorem handsOver_deliverStream (w : World) :
    HandsOver (runStep (deliverStream (.ofNat 11) (.ofNat 20) (.ofNat 20)
      (started.registry.reconcile [source "orders"]) 1 (stream 11 20 15 ["orders"]))
      { started with registryStale := true }) w := by
  have hrecords : (stream 11 20 15 ["orders"]).drain.1 = [record "orders" 15] := by decide +kernel
  have hactive : passive w .isActive true w := ⟨trivial, w.server, .refl _, trivial, rfl⟩
  unfold deliverStream
  generalize (stream 11 20 15 ["orders"]).drain = drained at hrecords
  obtain ⟨records, failure, rest⟩ := drained
  cases hrecords
  refine comesTo_bind (.refl _ _) (comesTo_bind_left ?_ _)
  exact comesTo_bind (ends_liftStep (.ask hactive (.refl _ _)))
    (comesTo_bind_left ⟨_, _, w, .refl _ _, rfl⟩ _)

/-- A poll comes to the record that it finds. -/
theorem handsOver_pollOnce : HandsOver (runStep pollOnce started) (world .null []) := by
  have hmax : Ends Rules.documented.answers Server.maxLsn.run (world .null [])
      (.ok (.ofNat 20)) (world (.ofNat 20) []) := ends_request.mpr ⟨_, .refl _, trivial, rfl⟩
  have hlast : Ends Rules.documented.answers Server.maxTransactionLsn.run (world (.ofNat 20) [])
      (.ok (.ofNat 20)) (world (.ofNat 20) []) := ends_request.mpr ⟨_, .refl _, trivial, rfl⟩
  have hlisting : Rules.documented.answers (world (.ofNat 20) []) (.server .listInstances)
      (Except.ok server.listing : Except CaptureError (List ListedInstance)) (world (.ofNat 20) []) :=
    answers_of_documented lenient_documented
      ⟨fun _ hok => (Except.ok.inj hok).symm, trivial⟩ rfl
  have h : Around 11 20 := .inl ⟨rfl, rfl⟩
  refine comesTo_bind (.refl _ _) (comesTo_bind (ends_quiet quiet_maxLsn hmax) ?_)
  refine comesTo_bind (ends_quiet quiet_maxTransactionLsn hlast) ?_
  refine comesTo_bind (.refl _ _) (comesTo_bind (ends_quiet quiet_intervalEnd (.refl _ _)) ?_)
  refine comesTo_bind (.refl _ _) ?_
  refine comesTo_bind (ends_quiet quiet_reconcileRegistry (.ask hlisting (.refl _ _))) ?_
  refine comesTo_bind (.refl _ _) (comesTo_bind_left ?_ _)
  refine comesTo_bind (ends_quiet Planner.quiet_plan (ends_plan h)) ?_
  refine comesTo_bind (ends_quiet (quiet_resolveWindows _)
    (ends_resolveWindows lenient_documented)) ?_
  refine comesTo_bind (ends_quiet (ChangeStream.quiet_start _)
    (ends_start_of lenient_documented (windowRows_around rfl h))) ?_
  exact handsOver_deliverStream _

/-- The second row on its way. -/
def handed : Delivery .sqlserver := ⟨0, record "orders" 15⟩

/-- The receiver goes away with the second row split off its delivery, and acknowledges it after that. -/
theorem reaches_saved : ∃ x, Relation.ReflTransGen Step (ofStreamer started none 1) x ∧
    x.channel.isOpen = false ∧ x.calls = [(handed, .ok ())] ∧
      x.saved = some (record "orders" 15).offset := by
  obtain ⟨next, next', w, hhanded, hnext⟩ := handsOver_pollOnce
  have hbegun := (Relation.ReflTransGen.single
    (Step.begins (x := ofStreamer started none 1) rfl)).trans (reaches_of_leads hhanded _)
  have hreceived := (hbegun.tail (.sent rfl)).tail (.received (d := handed) rfl)
  have hsplit := hreceived.tail (.split (d := handed) (mem_singleton_self _))
  have hacknowledged := (hsplit.tail (.closed _)).tail
    (.acknowledgedLater (d := handed) (mem_singleton_self _))
  have hresumed := hacknowledged.tail (@Step.resumed _ handed next (.ok ()) rfl rfl)
  exact ⟨_, hresumed.tail (.saved (congrArg Engine.polling hnext) (.ok ())), rfl, rfl, rfl⟩

end Sample

open Sample in
/-- The second row of the sample is acknowledged when its receiver is gone, and then saved. -/
theorem Exchange.ok_iff_acknowledged_of_sample :
    ∃ x : Exchange, Relation.ReflTransGen Step (ofStreamer started none 1) x ∧
      x.channel.isOpen = false ∧ x.calls = [(handed, .ok ())] ∧
      (handed, .acknowledged) ∈ x.fates ∧
      ∃ c, x.committed = some c ∧ (compare (record "orders" 15).offset c).isLE := by
  obtain ⟨x, hreached, hclosed, hcalls, hsaved⟩ := reaches_saved
  obtain ⟨hended, _, _, _, _, hjustified⟩ := ok_iff_acknowledged (.inl rfl) hreached
  have hcall : (handed, Except.ok ()) ∈ x.calls := hcalls ▸ mem_singleton_self _
  exact ⟨x, hreached, hclosed, hcalls, (hended handed (.ok ()) hcall).1.mp rfl, (hjustified _ hsaved).2⟩

end ChangeCapture
