import ChangeCapture.Proofs.Surroundings
import ChangeCapture.Streaming.Streamer

/-! # Steps of a streamer

How the runs of composed steps come from the runs of their parts. -/

namespace ChangeCapture

open Program (Answers Ends ComesTo Always Asks ends_andThen comesTo_andThen ends_ask leads_done
  always_andThen asks_andThen always_of_asks)

/-! ## Steps that may fail -/

namespace CaptureStep

variable {W α β : Type} {answers : Answers CaptureRequest.interface W} {w w' : W}

theorem ends_pure {a : α} {out : Except CaptureError α} :
    Ends answers (pure a : CaptureStep α).run w out w' ↔ out = .ok a ∧ w' = w := by
  refine leads_done.trans ?_
  simp [eq_comm]

theorem ends_ofExcept {result out : Except CaptureError α} :
    Ends answers (ExceptT.mk (pure result) : CaptureStep α).run w out w' ↔
      out = result ∧ w' = w := by
  refine leads_done.trans ?_
  simp [eq_comm]

/-- The answer to a single request is its outcome. -/
theorem ends_request {r : CaptureRequest} {out : r.Answer} :
    Ends answers (Server.ask r) w out w' ↔ answers w r out w' := by
  refine ends_ask.trans ?_
  constructor
  · rintro ⟨answer, v, h, hdone⟩
    obtain ⟨heq, rfl⟩ := leads_done.mp hdone
    cases heq
    exact h
  · exact fun h => ⟨out, w', h, .refl _ _⟩

/-- Composed steps end one after the other, or with the failure of the first. -/
theorem ends_bind_iff {x : CaptureStep α} {f : α → CaptureStep β} {out : Except CaptureError β} :
    Ends answers (x >>= f).run w out w' ↔
      (∃ a v, Ends answers x.run w (.ok a) v ∧ Ends answers (f a).run v out w') ∨
        ∃ e, out = .error e ∧ Ends answers x.run w (.error e) w' := by
  refine ends_andThen.trans ?_
  constructor
  · rintro ⟨result, v, hx, hf⟩
    cases result with
    | ok a => exact .inl ⟨a, v, hx, hf⟩
    | error e =>
        obtain ⟨hout, rfl⟩ := leads_done.mp hf
        exact .inr ⟨e, Program.done.inj hout, hx⟩
  · rintro (⟨a, v, hx, hf⟩ | ⟨e, rfl, hx⟩)
    · exact ⟨.ok a, v, hx, hf⟩
    · exact ⟨.error e, w', hx, .refl _ _⟩

/-- Composed steps that end well do so one after the other. -/
theorem ends_bind_ok {x : CaptureStep α} {f : α → CaptureStep β} {b : β} :
    Ends answers (x >>= f).run w (.ok b) w' ↔
      ∃ a v, Ends answers x.run w (.ok a) v ∧ Ends answers (f a).run v (.ok b) w' := by
  rw [ends_bind_iff]
  constructor
  · rintro (h | ⟨e, hb, _⟩)
    · exact h
    · cases hb
  · exact .inl

theorem comesTo_bind {r r' : CaptureRequest} {answer : r.Answer} {x : CaptureStep α}
    {f : α → CaptureStep β} {a : α} {v : W} (hx : Ends answers x.run w (.ok a) v)
    (hf : ComesTo answers r answer r' (f a).run v) : ComesTo answers r answer r' (x >>= f).run w :=
  comesTo_andThen hx hf

/-- A failure that is put in other words is one all the same. -/
theorem ends_mapError_ok {x : CaptureStep α} {f : CaptureError → CaptureError} {a : α} :
    Ends answers (ExceptT.mk do return (← x.run).mapError f : CaptureStep α).run w (.ok a) w' ↔
      Ends answers x.run w (.ok a) w' := by
  refine ends_andThen.trans ?_
  constructor
  · rintro ⟨result, v, hx, hf⟩
    obtain ⟨hf, rfl⟩ := leads_done.mp hf
    cases result with
    | ok b =>
        cases hf
        exact hx
    | error e => cases hf
  · exact fun hx => ⟨.ok a, w', hx, .refl _ _⟩

section Outcome

variable {answer : (r : CaptureRequest) → r.Answer}

/-- What a step ends with if every request has a fixed answer. -/
def outcome (answer : (r : CaptureRequest) → r.Answer) (step : CaptureStep α) : Except CaptureError α :=
  Program.run (m := Id) answer step.run

/-- A step that ends well is gone on from. -/
theorem outcome_bind_ok {x : CaptureStep α} {f : α → CaptureStep β} {a : α}
    (h : outcome answer x = .ok a) : outcome answer (x >>= f) = outcome answer (f a) := by
  refine (Program.run_andThen (m := Id) answer x.run (ExceptT.bindCont f)).trans ?_
  change Program.run (m := Id) answer (ExceptT.bindCont f (outcome answer x)) = _
  rw [h]
  rfl

/-- A step that fails does so in one of its parts. -/
theorem outcome_bind_error {x : CaptureStep α} {f : α → CaptureStep β} {e : CaptureError}
    (h : outcome answer (x >>= f) = .error e) :
    outcome answer x = .error e ∨ ∃ a, outcome answer x = .ok a ∧ outcome answer (f a) = .error e := by
  cases hx : outcome answer x with
  | ok a => exact .inr ⟨a, rfl, (outcome_bind_ok hx).symm.trans h⟩
  | error e' =>
      have hbind : outcome answer (x >>= f) = .error e' := by
        refine (Program.run_andThen (m := Id) answer x.run (ExceptT.bindCont f)).trans ?_
        change Program.run (m := Id) answer (ExceptT.bindCont f (outcome answer x)) = _
        rw [hx]
        rfl
      cases hbind.symm.trans h
      exact .inl rfl

theorem outcome_ofExcept (result : Except CaptureError α) :
    outcome answer (ExceptT.mk (pure result)) = result := rfl

end Outcome

section Alike

/-- Two steps fail alike, or their values are related. -/
inductive SameOutcome (R : α → β → Prop) : Except CaptureError α → Except CaptureError β → Prop where
  | failed (e) : SameOutcome R (.error e) (.error e)
  | ended {a b} (h : R a b) : SameOutcome R (.ok a) (.ok b)

/-- Two steps make the same requests and have the same outcome up to a relation. -/
abbrev StepsAlike (R : α → β → Prop) (x : CaptureStep α) (y : CaptureStep β) : Prop :=
  Program.Alike (SameOutcome R) x.run y.run

variable {R : α → β → Prop} {x : CaptureStep α} {y : CaptureStep β}

theorem alike_pure {a : α} {b : β} (h : R a b) :
    StepsAlike R (pure a : CaptureStep α) (pure b : CaptureStep β) := .done (.ended h)

theorem alike_refl {R : α → α → Prop} (hR : ∀ a, R a a) (x : CaptureStep α) : StepsAlike R x x := by
  apply Program.Alike.refl
  intro result
  cases result with
  | error e => exact .failed e
  | ok a => exact .ended (hR a)

theorem alike_bind {γ δ : Type} {S : γ → δ → Prop} {f : α → CaptureStep γ} {g : β → CaptureStep δ}
    (h : StepsAlike R x y) (hf : ∀ a b, R a b → StepsAlike S (f a) (g b)) :
    StepsAlike S (x >>= f) (y >>= g) := by
  apply Program.Alike.andThen h
  intro result result' hsame
  cases hsame with
  | failed e => exact .done (.failed e)
  | ended h => exact hf _ _ h

end Alike

end CaptureStep

/-! ## Steps with a state -/

/-- A step that may fail and keeps a state. -/
abbrev StatefulStep (σ : Type) := ExceptT CaptureError (StateT σ CaptureProgram)

namespace StatefulStep

variable {σ W α β : Type} {answers : Answers CaptureRequest.interface W} {s s' : σ} {w w' : W}
  {out : Except CaptureError β}

/-- Composed steps end one after the other, or with the failure of the first. -/
theorem ends_bind_iff {x : StatefulStep σ α} {f : α → StatefulStep σ β} :
    Ends answers ((x >>= f).run.run s) w (out, s') w' ↔
      (∃ a t v, Ends answers (x.run.run s) w (.ok a, t) v ∧
        Ends answers ((f a).run.run t) v (out, s') w') ∨
      ∃ e, out = .error e ∧ Ends answers (x.run.run s) w (.error e, s') w' := by
  refine ends_andThen.trans ?_
  constructor
  · rintro ⟨⟨result, t⟩, v, hx, hf⟩
    cases result with
    | ok a => exact .inl ⟨a, t, v, hx, hf⟩
    | error e =>
        obtain ⟨hout, rfl⟩ := leads_done.mp hf
        cases hout
        exact .inr ⟨e, rfl, hx⟩
  · rintro (⟨a, t, v, hx, hf⟩ | ⟨e, rfl, hx⟩)
    · exact ⟨(.ok a, t), v, hx, hf⟩
    · exact ⟨(.error e, s'), w', hx, .refl _ _⟩

theorem ends_ofExcept {result : Except CaptureError β} :
    Ends answers ((ExceptT.mk (pure result) : StatefulStep σ β).run.run s) w (out, s') w' ↔
      out = result ∧ s' = s ∧ w' = w := by
  refine leads_done.trans ?_
  rw [Program.done.injEq, Prod.mk.injEq, and_assoc]

theorem ends_get_bind {f : σ → StatefulStep σ β} :
    Ends answers ((get >>= f).run.run s) w (out, s') w' ↔
      Ends answers ((f s).run.run s) w (out, s') w' := Iff.rfl

theorem ends_modify_bind {f : σ → σ} {g : PUnit → StatefulStep σ β} :
    Ends answers ((modify f >>= g).run.run s) w (out, s') w' ↔
      Ends answers ((g ⟨⟩).run.run (f s)) w (out, s') w' := Iff.rfl

/-- A step without a state leaves the state. -/
theorem ends_lift {step : CaptureStep β} :
    Ends answers ((ExceptT.mk (StateT.lift step.run) : StatefulStep σ β).run.run s) w (out, s') w' ↔
      s' = s ∧ Ends answers step.run w out w' := by
  refine ends_andThen.trans ?_
  constructor
  · rintro ⟨result, v, hstep, h⟩
    obtain ⟨hout, rfl⟩ := leads_done.mp h
    cases hout
    exact ⟨rfl, hstep⟩
  · rintro ⟨rfl, hstep⟩
    exact ⟨out, w', hstep, .refl _ _⟩

end StatefulStep

/-! ## Steps of a streamer -/

namespace Streamer

section Ends

variable {answers : Answers CaptureRequest.interface World} {α β : Type} {s s' : Streamer}
  {w v w' : World}

theorem ends_bind {x : StreamStep α} {f : α → StreamStep β} {a : α}
    {out : Except CaptureError β × Streamer} (hx : Ends answers (runStep x s) w (.ok a, s') v)
    (hf : Ends answers (runStep (f a) s') v out w') :
    Ends answers (runStep (x >>= f) s) w out w' := ends_andThen.mpr ⟨_, _, hx, hf⟩

theorem ends_liftStep {step : CaptureStep α} {result : Except CaptureError α}
    (h : Ends answers step.run w result v) :
    Ends answers (runStep (liftStep step) s) w (result, s) v :=
  ends_andThen.mpr ⟨_, _, h, .refl _ _⟩

/-- What a step comes to after another one. -/
theorem comesTo_bind {r r' : CaptureRequest} {answer : r.Answer} {x : StreamStep α}
    {f : α → StreamStep β} {a : α} (hx : Ends answers (runStep x s) w (.ok a, s') v)
    (hf : ComesTo answers r answer r' (runStep (f a) s') v) :
    ComesTo answers r answer r' (runStep (x >>= f) s) w := comesTo_andThen hx hf

/-- What the first of two steps comes to. -/
theorem comesTo_bind_left {r r' : CaptureRequest} {answer : r.Answer} {x : StreamStep α}
    (hx : ComesTo answers r answer r' (runStep x s) w) (f : α → StreamStep β) :
    ComesTo answers r answer r' (runStep (x >>= f) s) w := hx.andThen _

theorem ends_ofExcept {result out : Except CaptureError α} (h : result = out) :
    Ends answers (runStep (ExceptT.mk (pure result)) s) w (out, s) w := h ▸ .refl _ _

end Ends

variable {answers : Answers CaptureRequest.interface World} {inv : World → Prop} {α β : Type}
  {s s' : Streamer} {w : World}

/-- Whenever the step asks, `inv` holds, and `post` holds of its outcome and the state after it. -/
def StepAlways (answers : Answers CaptureRequest.interface World) (inv : World → Prop)
    (post : Except CaptureError α → Streamer → World → Prop) (step : StreamStep α) (s : Streamer)
    (w : World) : Prop :=
  Always answers inv (fun out w' => post out.1 out.2 w') (runStep step s) w

theorem StepAlways.mono {post post' : Except CaptureError α → Streamer → World → Prop}
    {step : StreamStep α} (h : StepAlways answers inv post step s w)
    (hpost : ∀ r s' w', post r s' w' → post' r s' w') :
    StepAlways answers inv post' step s w :=
  Always.mono h fun out w' => hpost out.1 out.2 w'

theorem StepAlways.mono_inv {inv' : World → Prop}
    {post post' : Except CaptureError α → Streamer → World → Prop} {step : StreamStep α}
    (h : StepAlways answers inv post step s w) (hinv : ∀ w', inv w' → inv' w')
    (hpost : ∀ r s' w', post r s' w' → post' r s' w') : StepAlways answers inv' post' step s w :=
  Always.mono_inv (h.mono hpost) hinv

variable {post : Except CaptureError α → Streamer → World → Prop}

theorem always_pure {a : α} (h : post (.ok a) s w) :
    StepAlways answers inv post (pure a) s w := h

theorem always_throw {e : CaptureError} (h : post (.error e) s w) :
    StepAlways answers inv post (throw e) s w := h

theorem always_ofExcept {result : Except CaptureError α} (h : post result s w) :
    StepAlways answers inv post (ExceptT.mk (pure result)) s w := h

theorem always_bind {post : Except CaptureError β → Streamer → World → Prop} {x : StreamStep α}
    {f : α → StreamStep β}
    (h : StepAlways answers inv (fun r s' w' =>
      match r with
      | .ok a => StepAlways answers inv post (f a) s' w'
      | .error e => post (.error e) s' w') x s w) :
    StepAlways answers inv post (x >>= f) s w := by
  refine always_andThen (Always.mono h fun out w' hout => ?_)
  obtain ⟨r, s'⟩ := out
  cases r with
  | ok a => exact hout
  | error e => exact hout

theorem always_get {post : Except CaptureError Streamer → Streamer → World → Prop}
    (h : post (.ok s) s w) : StepAlways answers inv post get s w := h

theorem always_set {post : Except CaptureError PUnit → Streamer → World → Prop}
    (h : post (.ok ⟨⟩) s' w) : StepAlways answers inv post (set s') s w := h

theorem always_modify {post : Except CaptureError PUnit → Streamer → World → Prop}
    {f : Streamer → Streamer} (h : post (.ok ⟨⟩) (f s) w) :
    StepAlways answers inv post (modify f) s w := h

/-- A step of the surroundings leaves the state. -/
theorem always_liftStep {step : CaptureStep α}
    (h : Always answers inv (fun r w' => post r s w') step.run w) :
    StepAlways answers inv post (liftStep step) s w :=
  always_andThen (Always.mono h fun _ _ hr => hr)

theorem always_liftProgram {program : CaptureProgram α}
    (h : Always answers inv (fun a w' => post (.ok a) s w') program w) :
    StepAlways answers inv post (liftProgram program) s w :=
  always_liftStep (always_andThen (Always.mono h fun _ _ hr => hr))

end Streamer

/-! ## Requests that change nothing but the server -/

/-- Nothing is delivered, saved or found switched off. -/
def CaptureRequest.Quiet : CaptureRequest → Prop
  | .deliver _ | .isActive | .storage (.saveOffset _ _) => False
  | _ => True

namespace CaptureStep

variable {α β : Type}

/-- The step makes quiet requests only. -/
def IsQuiet (step : CaptureStep α) : Prop :=
  Asks (I := CaptureRequest.interface) CaptureRequest.Quiet step.run

theorem quiet_pure (a : α) : (pure a : CaptureStep α).IsQuiet := trivial

theorem quiet_throw (e : CaptureError) : (throw e : CaptureStep α).IsQuiet := trivial

theorem quiet_ofExcept (result : Except CaptureError α) :
    IsQuiet (ExceptT.mk (pure result)) := trivial

theorem quiet_server (r : ServerRequest) :
    Asks (I := CaptureRequest.interface) CaptureRequest.Quiet (Server.ask (.server r)) :=
  ⟨trivial, fun _ => trivial⟩

theorem asks_bind {kind : CaptureRequest → Prop} {x : CaptureStep α} {f : α → CaptureStep β}
    (hx : Asks (I := CaptureRequest.interface) kind x.run)
    (hf : ∀ a, Asks (I := CaptureRequest.interface) kind (f a).run) :
    Asks (I := CaptureRequest.interface) kind (x >>= f).run := by
  refine asks_andThen hx fun result => ?_
  cases result with
  | ok a => exact hf a
  | error e => trivial

theorem quiet_bind {x : CaptureStep α} {f : α → CaptureStep β} (hx : x.IsQuiet)
    (hf : ∀ a, (f a).IsQuiet) : (x >>= f).IsQuiet := asks_bind hx hf

theorem quiet_mapM {f : α → CaptureStep β} (hf : ∀ a, (f a).IsQuiet) (list : List α) :
    (list.mapM f).IsQuiet := by
  induction list with
  | nil => exact quiet_pure _
  | cons a list ih =>
      rw [List.mapM_cons]
      exact quiet_bind (hf a) fun _ => quiet_bind ih fun _ => quiet_pure _

theorem quiet_mapError {x : CaptureStep α} (hx : x.IsQuiet) (f : CaptureError → CaptureError) :
    IsQuiet (ExceptT.mk do return (← x.run).mapError f) :=
  asks_andThen hx fun _ => trivial

end CaptureStep

/-! ## What quiet steps leave -/

/-- The store and what has happened are the same. -/
structure World.Kept (w w' : World) : Prop where
  store : w'.store = w.store
  history : w'.history = w.history

/-- A relation of worlds that neither the server by itself nor a quiet request leaves. -/
structure Rules.Calm (rules : Rules) (related : World → World → Prop) : Prop where
  refl : ∀ w, related w w
  trans : ∀ {u v w}, related u v → related v w → related u w
  drift : ∀ {w : World} {server}, rules.Drifts w.server server → related w { w with server }
  quiet : ∀ {w r answer w'}, r.Quiet → rules.answers w r answer w' → related w w'

theorem World.Responds.kept {w w' : World} {r : CaptureRequest} {answer : r.Answer}
    (hr : r.Quiet) (h : w.Responds r answer w') : w.Kept w' := by
  cases r with
  | server => exact h ▸ ⟨rfl, rfl⟩
  | storage request =>
      cases request with
      | loadOffset => exact h.1 ▸ ⟨rfl, rfl⟩
      | saveOffset => exact hr.elim
      | readProgress | writeProgress => exact h ▸ ⟨rfl, rfl⟩
  | lockTable | now => exact h ▸ ⟨rfl, rfl⟩
  | deliver | isActive => exact hr.elim

theorem Rules.calm_kept (rules : Rules) : rules.Calm World.Kept where
  refl _ := ⟨rfl, rfl⟩
  trans h h' := ⟨h'.store.trans h.store, h'.history.trans h.history⟩
  drift _ := ⟨rfl, rfl⟩
  quiet hr := by
    rintro ⟨server, _, _, h⟩
    have hkept := h.kept hr
    exact ⟨hkept.store, hkept.history⟩

/-! ## Single requests of a streamer -/

namespace Streamer

section Requests

variable {rules : Rules} {related : World → World → Prop} {inv : World → Prop} {s : Streamer}
  {w : World}

theorem always_quiet (hcalm : rules.Calm related) {α : Type} {step : CaptureStep α}
    (hstep : step.IsQuiet) {post : Except CaptureError α → Streamer → World → Prop}
    (hinv : ∀ w', related w w' → inv w')
    (hpost : ∀ r w', related w w' → Ends rules.answers step.run w r w' → post r s w') :
    StepAlways rules.answers inv post (liftStep step) s w :=
  always_liftStep (always_of_asks hcalm.refl hcalm.trans hcalm.quiet hstep hinv hpost)

/-- A record is acknowledged, or nothing has happened. -/
theorem always_deliver (hcalm : rules.Calm related) {record : ChangeRecord .sqlserver}
    {post : Except CaptureError Unit → Streamer → World → Prop} (hinv : inv w)
    (hok : ∀ v, related w v → post (.ok ()) s (v.note (.acknowledged record)))
    (herror : ∀ e v, related w v → post (.error e) s v) :
    StepAlways rules.answers inv post (liftStep (Server.deliver record)) s w := by
  refine always_liftStep ⟨hinv, fun answer w' h => ?_⟩
  obtain ⟨server, hdrift, _, h⟩ := h
  cases answer with
  | ok u =>
      cases h
      exact hok _ (hcalm.drift hdrift)
  | error e =>
      cases h
      exact herror e _ (hcalm.drift hdrift)

/-- An offset is saved, whatever the store answers, or nothing has happened. -/
theorem always_saveOffset (hcalm : rules.Calm related) {key : String} {o : Offset .sqlserver}
    {post : Except CaptureError Unit → Streamer → World → Prop} (hinv : inv w)
    (hsaved : ∀ r v, related w v → post r s (v.save key o))
    (herror : ∀ e v, related w v → post (.error e) s v) :
    StepAlways rules.answers inv post (liftStep (Server.saveOffset key o)) s w := by
  refine always_liftStep ⟨hinv, fun answer w' h => ?_⟩
  obtain ⟨server, hdrift, _, rfl | ⟨rfl, e, rfl⟩⟩ := h
  · exact hsaved answer _ (hcalm.drift hdrift)
  · exact herror e _ (hcalm.drift hdrift)

theorem always_isActive (hcalm : rules.Calm related)
    {post : Except CaptureError Bool → Streamer → World → Prop} (hinv : inv w)
    (hactive : ∀ v, related w v → post (.ok true) s v)
    (hstopped : ∀ v, related w v → post (.ok false) s (v.note .stopped)) :
    StepAlways rules.answers inv post (liftProgram Server.isActive) s w := by
  refine always_liftProgram ⟨hinv, fun answer w' h => ?_⟩
  obtain ⟨server, hdrift, _, h⟩ := h
  cases answer with
  | true =>
      cases h
      exact hactive _ (hcalm.drift hdrift)
  | false =>
      cases h
      exact hstopped _ (hcalm.drift hdrift)

end Requests

end Streamer

end ChangeCapture
