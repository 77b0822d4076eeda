import ChangeCapture.Proofs.Polling

/-! # What a poll commits and saves

Whatever it is answered, a poll commits only offsets of records that were acknowledged, and it saves only
what is committed. -/

namespace ChangeCapture

open Program (Asks)

/-! ## Steps of a poll -/

namespace Streamer

/-- A property that quiet steps have and that composed steps have with their parts. -/
structure Compositional (P : ∀ {α : Type}, StreamStep α → Prop) : Prop where
  pure : ∀ {α : Type} (a : α), P (pure a)
  throw : ∀ {α : Type} (e : CaptureError), P (throw e : StreamStep α)
  get : P get
  modify : ∀ {f : Streamer → Streamer}, (∀ s, (f s).tracker = s.tracker) → P (modify f)
  quiet : ∀ {α : Type} {step : CaptureStep α}, step.IsQuiet → P (liftStep step)
  bind : ∀ {α β : Type} {x : StreamStep α} {f : α → StreamStep β}, P x → (∀ a, P (f a)) → P (x >>= f)

section Compositional

variable {P : ∀ {α : Type}, StreamStep α → Prop}

theorem Compositional.deliverInterval (h : Compositional P)
    (hdeliver : ∀ progress records, P (deliverRecords progress records)) (first last bound : Lsn)
    (diff : RegistryDiff) : P (deliverInterval first last bound diff) := by
  unfold Streamer.deliverInterval
  refine h.bind (h.quiet Planner.quiet_plan) fun windows => ?_
  refine h.bind (h.quiet (quiet_resolveWindows windows)) fun planned => ?_
  refine h.bind (h.quiet (ChangeStream.quiet_start planned)) fun stream => ?_
  refine h.bind h.get fun s => ?_
  refine h.bind (hdeliver _ _) fun progress => ?_
  dsimp only
  split
  · exact h.bind (h.modify fun _ => rfl) fun _ => h.pure _
  · split
    · exact h.throw _
    · refine h.bind (h.modify fun _ => rfl) fun _ => ?_
      refine h.bind (h.quiet (quiet_increment last)) fun nextFrom => ?_
      exact h.bind (h.modify fun _ => rfl) fun _ => h.pure _

/-- Only in handing over records a poll is not quiet. -/
theorem Compositional.pollOnce (h : Compositional P)
    (hdeliver : ∀ progress records, P (deliverRecords progress records)) : P pollOnce := by
  unfold Streamer.pollOnce
  refine h.bind h.get fun s => ?_
  refine h.bind (h.quiet quiet_maxLsn) fun highest => ?_
  split
  · exact h.pure _
  · refine h.bind (h.quiet quiet_maxTransactionLsn) fun lastTransaction => ?_
    split
    · exact h.pure _
    · refine h.bind h.get fun s => ?_
      refine h.bind (h.quiet quiet_intervalEnd) fun last => ?_
      refine h.bind h.get fun s => ?_
      refine h.bind (h.quiet quiet_reconcileRegistry) fun diff => ?_
      refine h.bind (h.modify fun _ => rfl) fun _ => ?_
      exact h.bind (h.deliverInterval hdeliver _ _ _ diff) fun _ => h.pure _

end Compositional

end Streamer

/-! ## Programs that keep account -/

/-- Neither a record nor an offset is handed over. -/
def CaptureRequest.Passive : CaptureRequest → Prop
  | .deliver _ | .storage (.saveOffset _ _) => False
  | _ => True

theorem CaptureRequest.Quiet.passive {r : CaptureRequest} (h : r.Quiet) : r.Passive := by
  cases r with
  | storage request =>
      cases request with
      | saveOffset => exact h
      | loadOffset | readProgress | writeProgress => trivial
  | deliver => exact h
  | server | lockTable | isActive | now => trivial

/-- How a program goes on from what is committed. After a record is acknowledged, its offset is committed,
if it can be. What is saved is what is committed. -/
inductive Accounts {α : Type} (post : α → OffsetTracker .sqlserver → Prop) :
    OffsetTracker .sqlserver → CaptureProgram α → Prop where
  | done {tracker a} (h : post a tracker) : Accounts post tracker (.done a)
  | asks {tracker r next} (hr : r.Passive) (hnext : ∀ answer, Accounts post tracker (next answer)) :
      Accounts post tracker (.ask r next)
  | delivers {tracker tracker' record next}
      (hlost : ∀ e, Accounts post tracker (next (.error e)))
      (hcommit : tracker' = tracker ∨ tracker.commit record.offset = .ok tracker')
      (hacknowledged : Accounts post tracker' (next (.ok ()))) :
      Accounts post tracker (.ask (.deliver record) next)
  | saves {tracker key offset next} (hcommitted : tracker.committed = some offset)
      (hnext : ∀ answer, Accounts post tracker (next answer)) :
      Accounts post tracker (.ask (.storage (.saveOffset key offset)) next)

namespace Accounts

variable {α β : Type} {tracker : OffsetTracker .sqlserver}

theorem mono {post post' : α → OffsetTracker .sqlserver → Prop} {p : CaptureProgram α}
    (h : Accounts post tracker p) (hpost : ∀ a tracker, post a tracker → post' a tracker) :
    Accounts post' tracker p := by
  induction h with
  | done h => exact .done (hpost _ _ h)
  | asks hr _ ih => exact .asks hr ih
  | delivers _ hcommit _ ihlost ihacknowledged => exact .delivers ihlost hcommit ihacknowledged
  | saves hcommitted _ ih => exact .saves hcommitted ih

theorem andThen {post : β → OffsetTracker .sqlserver → Prop} {p : CaptureProgram α}
    {f : α → CaptureProgram β} (h : Accounts (fun a tracker => Accounts post tracker (f a)) tracker p) :
    Accounts post tracker (p.andThen f) := by
  induction h with
  | done h => exact h
  | asks hr _ ih => exact .asks hr ih
  | delivers _ hcommit _ ihlost ihacknowledged => exact .delivers ihlost hcommit ihacknowledged
  | saves hcommitted _ ih => exact .saves hcommitted ih

theorem of_passive {post : α → OffsetTracker .sqlserver → Prop} {p : CaptureProgram α}
    (hp : Asks (I := CaptureRequest.interface) CaptureRequest.Passive p)
    (hpost : ∀ a, post a tracker) : Accounts post tracker p := by
  induction p with
  | done a => exact .done (hpost a)
  | ask r next ih => exact .asks hp.1 fun answer => ih answer (hp.2 answer)

end Accounts

/-- An offset that can be committed was not covered. -/
theorem OffsetTracker.commit_eq_ok {tracker tracker' : OffsetTracker .sqlserver}
    {o : Offset .sqlserver} (h : tracker.commit o = .ok tracker') :
    ¬ tracker.Covers o ∧ tracker' = ⟨some o⟩ := by
  by_cases hcovers : tracker.Covers o
  · obtain ⟨committed, hcommitted, hcovers⟩ := hcovers
    simp [commit, hcommitted, hcovers] at h
  · rw [commit_of_not_covers hcovers] at h
    cases h
    exact ⟨hcovers, rfl⟩

/-! ## Polls -/

namespace Streamer

variable {α β : Type}

/-- The streamer knows what is committed. -/
def Knowing (out : Except CaptureError α × Streamer) (tracker : OffsetTracker .sqlserver) : Prop :=
  out.2.tracker = tracker

/-- The step commits and saves as it should, and ends with what is committed then. -/
def KeepsAccount (step : StreamStep α) : Prop :=
  ∀ s : Streamer, Accounts Knowing s.tracker (runStep step s)

theorem keepsAccount_bind {x : StreamStep α} {f : α → StreamStep β} (hx : KeepsAccount x)
    (hf : ∀ a, KeepsAccount (f a)) : KeepsAccount (x >>= f) := by
  intro s
  refine Accounts.andThen ((hx s).mono fun out tracker hout => ?_)
  obtain ⟨result, s'⟩ := out
  cases hout
  cases result with
  | ok a => exact hf a s'
  | error e => exact .done rfl

theorem compositional_keepsAccount : Compositional KeepsAccount where
  pure _ _ := .done rfl
  throw _ _ := .done rfl
  get _ := .done rfl
  modify hf s := .done (hf s)
  quiet hstep _ :=
    .andThen (.of_passive (hstep.mono fun _ => CaptureRequest.Quiet.passive) fun _ => .done rfl)
  bind := keepsAccount_bind

theorem keepsAccount_commitRecord (record : ChangeRecord .sqlserver) :
    KeepsAccount (commitRecord record) := by
  intro s
  have hdeliver {tracker : OffsetTracker .sqlserver}
      (hcommit : tracker = s.tracker ∨ s.tracker.commit record.offset = .ok tracker)
      (h : Accounts Knowing tracker (runStep (do
        let tracker ← ExceptT.mk (pure (s.tracker.commit record.offset))
        set ({ s with tracker } : Streamer)
        if s.hasStore then liftStep (Server.saveOffset s.offsetKey record.offset)) s)) :
      Accounts Knowing s.tracker (runStep (commitRecord record) s) :=
    .delivers (fun _ => .done rfl) hcommit h
  cases hcommit : s.tracker.commit record.offset with
  | error e =>
      refine hdeliver (.inl rfl) ?_
      rw [hcommit]
      exact .done rfl
  | ok tracker =>
      obtain ⟨_, rfl⟩ := OffsetTracker.commit_eq_ok hcommit
      refine hdeliver (.inr hcommit) ?_
      rw [hcommit]
      cases s.hasStore with
      | true => exact .saves rfl fun _ => .done rfl
      | false => exact .done rfl

theorem keepsAccount_deliverRecords (progress : DeliveryProgress)
    (records : List (ChangeRecord .sqlserver)) : KeepsAccount (deliverRecords progress records) := by
  induction records generalizing progress with
  | nil => exact compositional_keepsAccount.pure _
  | cons record records ih =>
      unfold deliverRecords
      dsimp only
      split
      · exact ih _
      · have htest : KeepsAccount (liftProgram Server.isActive) := fun _ =>
          .asks trivial fun _ => .done rfl
        refine keepsAccount_bind htest fun active => ?_
        split
        · exact keepsAccount_bind (keepsAccount_commitRecord record) fun _ => ih _
        · exact compositional_keepsAccount.pure _

theorem keepsAccount_pollOnce : KeepsAccount pollOnce :=
  compositional_keepsAccount.pollOnce keepsAccount_deliverRecords

end Streamer

end ChangeCapture
