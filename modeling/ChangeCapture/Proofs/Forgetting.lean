import ChangeCapture.Proofs.Polling

/-! # What is not relied on

A streamer that will ask for the whole listing acts as if it knew of no capture instance. -/

namespace ChangeCapture.Streamer

open List CaptureStep
open Program (Ends Alike)

/-- Two streamers are the same, or the whole listing is asked for and they differ in what is known. -/
inductive Forgets : Streamer → Streamer → Prop where
  | same (s) : Forgets s s
  | stale {s} (h : s.registryStale = true) (registry) : Forgets s { s with registry }

/-! ## Steps from two streamers -/

/-- The steps make the same requests from two streamers, and fail alike or end with related values. -/
abbrev AlikeFrom {α β : Type} (R : α → β → Prop) (x : StreamStep α) (y : StreamStep β)
    (s t : Streamer) : Prop :=
  Alike (fun out out' => SameOutcome R out.1 out'.1 ∧ Forgets out.2 out'.2) (runStep x s) (runStep y t)

section Steps

variable {α β γ δ : Type} {R : α → β → Prop} {S : γ → δ → Prop} {s t : Streamer}

theorem alikeFrom_pure {a : α} {b : β} (hst : Forgets s t) (h : R a b) :
    AlikeFrom R (pure a : StreamStep α) (pure b : StreamStep β) s t := .done ⟨.ended h, hst⟩

theorem alikeFrom_throw {e : CaptureError} (hst : Forgets s t) :
    AlikeFrom R (throw e : StreamStep α) (throw e : StreamStep β) s t := .done ⟨.failed e, hst⟩

theorem alikeFrom_bind {x : StreamStep α} {y : StreamStep β} {f : α → StreamStep γ}
    {g : β → StreamStep δ} (h : AlikeFrom R x y s t)
    (hf : ∀ {a b s' t'}, R a b → Forgets s' t' → AlikeFrom S (f a) (g b) s' t') :
    AlikeFrom S (x >>= f) (y >>= g) s t := by
  apply Alike.andThen h
  rintro ⟨result, s'⟩ ⟨result', t'⟩ ⟨hsame, hst⟩
  cases hsame with
  | failed e => exact .done ⟨.failed e, hst⟩
  | ended h => exact hf h hst

theorem alikeFrom_get {f : Streamer → StreamStep γ} {g : Streamer → StreamStep δ}
    (h : AlikeFrom S (f s) (g t) s t) : AlikeFrom S (get >>= f) (get >>= g) s t := h

theorem alikeFrom_modify {f g : Streamer → Streamer} (h : Forgets (f s) (g t)) :
    AlikeFrom Eq (modify f : StreamStep PUnit) (modify g) s t := .done ⟨.ended rfl, h⟩

theorem alikeFrom_set {s' t' : Streamer} (h : Forgets s' t') :
    AlikeFrom Eq (set s' : StreamStep PUnit) (set t') s t := .done ⟨.ended rfl, h⟩

theorem alikeFrom_liftStep {x : CaptureStep α} {y : CaptureStep β} (hst : Forgets s t)
    (h : StepsAlike R x y) : AlikeFrom R (liftStep x) (liftStep y) s t := by
  apply Alike.andThen h
  exact fun result result' hsame => .done ⟨hsame, hst⟩

/-- The same step of a part does the same. -/
theorem alikeFrom_refl {x : CaptureStep α} (hst : Forgets s t) :
    AlikeFrom Eq (liftStep x) (liftStep x) s t := alikeFrom_liftStep hst (alike_refl (fun _ => rfl) x)

theorem alikeFrom_ofExcept {result : Except CaptureError α} (hst : Forgets s t) :
    AlikeFrom Eq (ExceptT.mk (pure result) : StreamStep α) (ExceptT.mk (pure result)) s t := by
  cases result with
  | error e => exact .done ⟨.failed e, hst⟩
  | ok a => exact .done ⟨.ended rfl, hst⟩

end Steps

/-! ## Polls -/

variable {s t : Streamer}

theorem Forgets.tracker_eq (h : Forgets s t) : t.tracker = s.tracker := by cases h <;> rfl

theorem Forgets.nextFrom_eq (h : Forgets s t) : t.nextFrom = s.nextFrom := by cases h <;> rfl

theorem Forgets.maxTransactions_eq (h : Forgets s t) : t.maxTransactions = s.maxTransactions := by
  cases h <;> rfl

theorem Forgets.withTracker (h : Forgets s t) (tracker : OffsetTracker .sqlserver) :
    Forgets { s with tracker } { t with tracker } := by
  cases h with
  | same => exact .same _
  | stale h registry => exact .stale (s := { s with tracker }) h registry

theorem alikeFrom_commitRecord (h : Forgets s t) (record : ChangeRecord .sqlserver) :
    AlikeFrom Eq (commitRecord record) (commitRecord record) s t := by
  unfold commitRecord
  apply alikeFrom_bind (alikeFrom_refl h)
  rintro _ _ s t rfl h
  apply alikeFrom_get
  rw [h.tracker_eq]
  apply alikeFrom_bind (alikeFrom_ofExcept h)
  rintro tracker _ s' t' rfl _
  apply alikeFrom_bind (alikeFrom_set (h.withTracker tracker))
  rintro _ _ s' t' rfl h'
  cases h with
  | same | stale =>
      split
      · exact alikeFrom_refl h'
      · exact alikeFrom_pure h' rfl

theorem alikeFrom_deliverRecords (h : Forgets s t) (progress : DeliveryProgress)
    (records : List (ChangeRecord .sqlserver)) :
    AlikeFrom Eq (deliverRecords progress records) (deliverRecords progress records) s t := by
  induction records generalizing progress s t with
  | nil => exact alikeFrom_pure h rfl
  | cons record records ih =>
      unfold deliverRecords
      dsimp only
      split
      · exact ih h _
      · apply alikeFrom_bind (alikeFrom_refl h)
        rintro active _ s' t' rfl h'
        split
        · apply alikeFrom_bind (alikeFrom_commitRecord h' record)
          rintro _ _ s'' t'' rfl h''
          exact ih h'' _
        · exact alikeFrom_pure h' rfl

theorem alikeFrom_deliverStream (h : Forgets s t) {first last bound : Lsn} {diff diff' : RegistryDiff}
    (hdiff : diff.snapshot = diff'.snapshot) (windows : Nat) (stream : ChangeStream) :
    AlikeFrom Eq (deliverStream first last bound diff windows stream)
      (deliverStream first last bound diff' windows stream) s t := by
  unfold deliverStream
  apply alikeFrom_get
  rw [h.tracker_eq, hdiff]
  apply alikeFrom_bind (alikeFrom_deliverRecords h _ _)
  rintro progress _ s t rfl h
  dsimp only
  split
  · apply alikeFrom_bind
    · apply alikeFrom_modify
      cases h <;> exact .same _
    · rintro _ _ s' t' rfl h'
      exact alikeFrom_pure h' rfl
  · split
    · exact alikeFrom_throw h
    · apply alikeFrom_bind
      · apply alikeFrom_modify
        cases h <;> exact .same _
      · rintro _ _ s' t' rfl h'
        apply alikeFrom_bind (alikeFrom_refl h')
        rintro nextFrom _ s'' t'' rfl h''
        apply alikeFrom_bind (R := Eq)
        · apply alikeFrom_modify
          cases h'' with
          | same => exact .same _
          | stale h registry => exact .stale (s := { s'' with nextFrom }) h registry
        · rintro _ _ s₃ t₃ rfl h₃
          exact alikeFrom_pure h₃ rfl

theorem alikeFrom_deliverInterval (h : Forgets s t) {first last bound : Lsn}
    {diff diff' : RegistryDiff} (hdiff : diff.snapshot = diff'.snapshot) :
    AlikeFrom Eq (deliverInterval first last bound diff) (deliverInterval first last bound diff') s t := by
  rw [deliverInterval_eq, deliverInterval_eq, hdiff]
  apply alikeFrom_bind (alikeFrom_refl h)
  rintro windows _ s t rfl h
  apply alikeFrom_bind (alikeFrom_refl h)
  rintro planned _ s t rfl h
  apply alikeFrom_bind (alikeFrom_refl h)
  rintro stream _ s t rfl h
  exact alikeFrom_deliverStream h hdiff _ _

/-- What is known anew does not depend on what was known before if the whole listing is asked for. -/
theorem alike_reconcileRegistry (h : Forgets s t) (last : Lsn) :
    StepsAlike (fun diff diff' => diff.snapshot = diff'.snapshot) (reconcileRegistry s last)
      (reconcileRegistry t last) := by
  cases h with
  | same =>
      apply alike_refl
      intro diff
      rfl
  | stale h registry =>
      unfold reconcileRegistry
      simp only [h, Bool.true_or, ↓reduceIte]
      apply alike_bind (alike_refl (R := Eq) (fun _ => rfl) _)
      rintro latest _ rfl
      exact alike_pure rfl

/-- Polls go on alike. -/
theorem alikeFrom_pollOnce (h : Forgets s t) : AlikeFrom Eq pollOnce pollOnce s t := by
  unfold pollOnce
  apply alikeFrom_get
  rw [h.nextFrom_eq]
  apply alikeFrom_bind (alikeFrom_refl h)
  rintro highest _ s' t' rfl h
  dsimp only
  split
  · exact alikeFrom_pure h rfl
  · apply alikeFrom_bind (alikeFrom_refl h)
    rintro lastTransaction _ s' t' rfl h
    split
    · exact alikeFrom_pure h rfl
    · apply alikeFrom_get
      rw [h.maxTransactions_eq]
      apply alikeFrom_bind (alikeFrom_refl h)
      rintro last _ s' t' rfl h
      apply alikeFrom_get
      apply alikeFrom_bind (alikeFrom_liftStep h (alike_reconcileRegistry h last))
      rintro diff diff' s' t' hdiff h
      apply alikeFrom_bind (R := Eq)
      · apply alikeFrom_modify
        cases h with
        | same => exact .same _
        | stale _ registry => exact .stale (s := { s' with registryStale := true }) rfl registry
      · rintro _ _ s' t' rfl h
        apply alikeFrom_bind (alikeFrom_deliverInterval h hdiff)
        rintro stats _ s' t' rfl h
        exact alikeFrom_pure h rfl

/-- Whatever polls come to, they may come to it as well if all that was known is forgotten. -/
theorem Polls.forgetting {rules : Rules} {s' : Streamer} {w w' : World} (h : Forgets s t)
    (hpolls : Polls rules s w s' w') : ∃ t', Forgets s' t' ∧ Polls rules t w t' w' := by
  induction hpolls with
  | none => exact ⟨t, h, .none⟩
  | next _ hpoll ih =>
      obtain ⟨t', ht', hpolls⟩ := ih
      obtain ⟨⟨result, t''⟩, ⟨_, ht''⟩, hends⟩ := (alikeFrom_pollOnce ht').ends hpoll
      exact ⟨t'', ht'', .next hpolls hends⟩

end ChangeCapture.Streamer
