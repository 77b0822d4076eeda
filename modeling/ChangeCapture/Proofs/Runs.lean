import ChangeCapture.Program

/-! # Runs of programs

A program runs against surroundings whose answers are not determined: a relation says which answer they
may give to a request in some state, and which state they are in after it. -/

namespace ChangeCapture.Program

variable {I : Interface} {α β W : Type}

/-! ## Composition -/

theorem andThen_done (p : Program I α) : p.andThen done = p := by
  induction p with
  | done a => rfl
  | ask r next ih => exact congrArg (ask r) (funext ih)

theorem andThen_assoc {γ : Type} (p : Program I α) (f : α → Program I β) (g : β → Program I γ) :
    (p.andThen f).andThen g = p.andThen fun a => (f a).andThen g := by
  induction p with
  | done a => rfl
  | ask r next ih => exact congrArg (ask r) (funext ih)

instance : LawfulMonad (Program I) := LawfulMonad.mk' _ andThen_done (fun _ _ => rfl) andThen_assoc

theorem run_andThen {m : Type → Type} [Monad m] [LawfulMonad m]
    (answer : (r : I.Request) → m (I.Answer r)) (p : Program I α) (f : α → Program I β) :
    (p.andThen f).run answer = p.run answer >>= fun a => (f a).run answer := by
  induction p with
  | done a => simp [andThen, run]
  | ask r next ih => simp [andThen, run, ih]

/-! ## Runs -/

/-- The answers that surroundings may give, with the state after each. -/
abbrev Answers (I : Interface) (W : Type) := W → (r : I.Request) → I.Answer r → W → Prop

/-- What is left of a program, and the state of its surroundings, after some of its requests. -/
inductive Leads (answers : Answers I W) : Program I α → W → Program I α → W → Prop where
  | refl (p w) : Leads answers p w p w
  | ask {r next answer w w' q w''} (h : answers w r answer w') :
      Leads answers (next answer) w' q w'' → Leads answers (.ask r next) w q w''

/-- The program may end with a value. -/
abbrev Ends (answers : Answers I W) (p : Program I α) (w : W) (a : α) (w' : W) : Prop :=
  Leads answers p w (.done a) w'

theorem Leads.trans {answers : Answers I W} {p q r : Program I α} {w v w' : W}
    (h : Leads answers p w q v) (h' : Leads answers q v r w') : Leads answers p w r w' := by
  induction h with
  | refl => exact h'
  | ask ha _ ih => exact .ask ha (ih h')

theorem leads_done {answers : Answers I W} {a : α} {w w' : W} {q : Program I α} :
    Leads answers (.done a) w q w' ↔ q = .done a ∧ w' = w := by
  constructor
  · rintro ⟨⟩
    exact ⟨rfl, rfl⟩
  · rintro ⟨rfl, rfl⟩
    exact .refl _ _

theorem ends_ask {answers : Answers I W} {r : I.Request} {next : I.Answer r → Program I α}
    {w w' : W} {a : α} :
    Ends answers (.ask r next) w a w' ↔
      ∃ answer v, answers w r answer v ∧ Ends answers (next answer) v a w' := by
  constructor
  · rintro (_ | ⟨h, hrest⟩)
    exact ⟨_, _, h, hrest⟩
  · rintro ⟨answer, v, h, hrest⟩
    exact .ask h hrest

/-- A program that goes on with the value of another ends as its parts do. -/
theorem ends_andThen {answers : Answers I W} {p : Program I α} {f : α → Program I β} {w w' : W}
    {b : β} :
    Ends answers (p.andThen f) w b w' ↔
      ∃ a v, Ends answers p w a v ∧ Ends answers (f a) v b w' := by
  induction p generalizing w with
  | done a =>
      constructor
      · exact fun h => ⟨a, w, .refl _ _, h⟩
      · rintro ⟨a', v, hp, hf⟩
        obtain ⟨h, rfl⟩ := leads_done.mp hp
        cases h
        exact hf
  | ask r next ih =>
      simp only [andThen, ends_ask, ih]
      constructor
      · rintro ⟨answer, u, h, a, v, hp, hf⟩
        exact ⟨a, v, ⟨answer, u, h, hp⟩, hf⟩
      · rintro ⟨a, v, ⟨answer, u, h, hp⟩, hf⟩
        exact ⟨answer, u, h, a, v, hp, hf⟩

/-- Behind the end of a program what goes on with its value is run. -/
theorem leads_andThen {answers : Answers I W} {p : Program I α} {f : α → Program I β} {w v w' : W}
    {a : α} {q : Program I β} (hp : Ends answers p w a v) (hf : Leads answers (f a) v q w') :
    Leads answers (p.andThen f) w q w' := by
  induction p generalizing w with
  | done b =>
      obtain ⟨h, rfl⟩ := leads_done.mp hp
      cases h
      exact hf
  | ask r next ih =>
      obtain ⟨answer, u, h, hrest⟩ := ends_ask.mp hp
      exact .ask h (ih answer hrest)

/-- What some surroundings may answer, others may answer too. -/
theorem Leads.mono {answers answers' : Answers I W} {p q : Program I α} {w w' : W}
    (h : Leads answers p w q w')
    (himp : ∀ {w r answer w'}, answers w r answer w' → answers' w r answer w') :
    Leads answers' p w q w' := by
  induction h with
  | refl => exact .refl _ _
  | ask ha _ ih => exact .ask (himp ha) ih

theorem Leads.andThen {answers : Answers I W} {p q : Program I α} {w w' : W}
    (h : Leads answers p w q w') (f : α → Program I β) :
    Leads answers (p.andThen f) w (q.andThen f) w' := by
  induction h with
  | refl p w => exact .refl _ _
  | ask h _ ih => exact .ask h ih

/-- The program may come to a request and goes on with another one if it is answered so. -/
def ComesTo (answers : Answers I W) (r : I.Request) (answer : I.Answer r) (r' : I.Request)
    (p : Program I α) (w : W) : Prop :=
  ∃ next next' w', Leads answers p w (.ask r next) w' ∧ next answer = .ask r' next'

section ComesTo

variable {answers : Answers I W} {r r' : I.Request} {answer : I.Answer r} {p : Program I α}
  {f : α → Program I β} {w v : W} {a : α}

theorem ComesTo.mono {answers' : Answers I W} (h : ComesTo answers r answer r' p w)
    (himp : ∀ {w r answer w'}, answers w r answer w' → answers' w r answer w') :
    ComesTo answers' r answer r' p w := by
  obtain ⟨next, next', w', h, hnext⟩ := h
  exact ⟨next, next', w', h.mono himp, hnext⟩

theorem comesTo_andThen (hp : Ends answers p w a v) (hf : ComesTo answers r answer r' (f a) v) :
    ComesTo answers r answer r' (p.andThen f) w := by
  obtain ⟨next, next', w', h, hnext⟩ := hf
  exact ⟨next, next', w', leads_andThen hp h, hnext⟩

theorem ComesTo.andThen (hp : ComesTo answers r answer r' p w) (f : α → Program I β) :
    ComesTo answers r answer r' (p.andThen f) w := by
  obtain ⟨next, next', w', h, hnext⟩ := hp
  exact ⟨_, _, w', h.andThen f, congrArg (Program.andThen · f) hnext⟩

end ComesTo

theorem ends_bind {answers : Answers I W} {p : Program I α} {f : α → Program I β} {w w' : W} {b : β} :
    Ends answers (p >>= f) w b w' ↔ ∃ a v, Ends answers p w a v ∧ Ends answers (f a) v b w' :=
  ends_andThen

/-! ## What always holds -/

/-- Whenever the program asks, `inv` holds, and when it ends, `post` holds of its value. -/
def Always (answers : Answers I W) (inv : W → Prop) (post : α → W → Prop) :
    Program I α → W → Prop
  | .done a, w => post a w
  | .ask r next, w =>
      inv w ∧ ∀ answer w', answers w r answer w' → Always answers inv post (next answer) w'

section Always

variable {answers : Answers I W} {inv : W → Prop} {post post' : α → W → Prop}

theorem Always.mono {p : Program I α} {w : W} (h : Always answers inv post p w)
    (hpost : ∀ a w', post a w' → post' a w') : Always answers inv post' p w := by
  induction p generalizing w with
  | done a => exact hpost a w h
  | ask r next ih => exact ⟨h.1, fun answer w' ha => ih answer (h.2 answer w' ha)⟩

theorem Always.mono_inv {inv' : W → Prop} {p : Program I α} {w : W}
    (h : Always answers inv post p w) (hinv : ∀ w', inv w' → inv' w') :
    Always answers inv' post p w := by
  induction p generalizing w with
  | done a => exact h
  | ask r next ih => exact ⟨hinv w h.1, fun answer w' ha => ih answer (h.2 answer w' ha)⟩

theorem always_andThen {p : Program I α} {f : α → Program I β} {post : β → W → Prop} {w : W}
    (h : Always answers inv (fun a w' => Always answers inv post (f a) w') p w) :
    Always answers inv post (p.andThen f) w := by
  induction p generalizing w with
  | done a => exact h
  | ask r next ih => exact ⟨h.1, fun answer w' ha => ih answer (h.2 answer w' ha)⟩

/-- What always holds of a program always holds of what is left of it. -/
theorem Always.of_leads {p q : Program I α} {w w' : W} (h : Always answers inv post p w)
    (hq : Leads answers p w q w') : Always answers inv post q w' := by
  induction hq with
  | refl => exact h
  | ask ha _ ih => exact ih (h.2 _ _ ha)

theorem Always.post_of_ends {p : Program I α} {a : α} {w w' : W}
    (h : Always answers inv post p w) (hp : Ends answers p w a w') : post a w' :=
  h.of_leads hp

/-- At every point of a run `inv` holds if the end of the run gives it too. -/
theorem Always.inv_of_leads {p q : Program I α} {w w' : W} (h : Always answers inv post p w)
    (hend : ∀ a w', post a w' → inv w') (hq : Leads answers p w q w') : inv w' := by
  have hq := h.of_leads hq
  cases q with
  | done a => exact hend a w' hq
  | ask r next => exact hq.1

end Always

/-! ## Programs with few kinds of requests -/

/-- All requests that the program can come to are of one kind. -/
def Asks (kind : I.Request → Prop) : Program I α → Prop
  | .done _ => True
  | .ask r next => kind r ∧ ∀ answer, Asks kind (next answer)

theorem Asks.mono {kind kind' : I.Request → Prop} {p : Program I α} (hp : p.Asks kind)
    (h : ∀ r, kind r → kind' r) : p.Asks kind' := by
  induction p with
  | done a => trivial
  | ask r next ih => exact ⟨h r hp.1, fun answer => ih answer (hp.2 answer)⟩

theorem asks_andThen {kind : I.Request → Prop} {p : Program I α} {f : α → Program I β}
    (hp : p.Asks kind) (hf : ∀ a, (f a).Asks kind) : (p.andThen f).Asks kind := by
  induction p with
  | done a => exact hf a
  | ask r next ih => exact ⟨hp.1, fun answer => ih answer (hp.2 answer)⟩

/-- The requests of a run are of the kind that the program comes to. -/
theorem Asks.leads {answers : Answers I W} {kind : I.Request → Prop} {p q : Program I α} {w w' : W}
    (hp : p.Asks kind) (h : Leads answers p w q w') :
    Leads (fun w r answer w' => kind r ∧ answers w r answer w') p w q w' := by
  induction h with
  | refl p w => exact .refl _ _
  | ask h _ ih => exact .ask ⟨hp.1, h⟩ (ih (hp.2 _))

/-- A program whose requests leave the surroundings in related states keeps whatever related states
share, and what it ends with can be read off its runs. -/
theorem always_of_asks {answers : Answers I W} {kind : I.Request → Prop} {related : W → W → Prop}
    (hrefl : ∀ w, related w w)
    (htrans : ∀ {u v w}, related u v → related v w → related u w)
    (hkind : ∀ {w r answer w'}, kind r → answers w r answer w' → related w w')
    {inv : W → Prop} {post : α → W → Prop} {p : Program I α} {w : W} (hp : p.Asks kind)
    (hinv : ∀ w', related w w' → inv w')
    (hpost : ∀ a w', related w w' → Ends answers p w a w' → post a w') :
    Always answers inv post p w := by
  induction p generalizing w with
  | done a => exact hpost a w (hrefl w) (.refl _ _)
  | ask r next ih =>
      refine ⟨hinv w (hrefl w), fun answer v ha => ?_⟩
      have hv : related w v := hkind hp.1 ha
      exact ih answer (hp.2 answer) (fun w' hw => hinv w' (htrans hv hw))
        fun a w' hw he => hpost a w' (htrans hv hw) (.ask ha he)

/-! ## Answers that are given by a function -/

section Answering

variable {answer answer' : (r : I.Request) → I.Answer r} {p : Program I α}

/-- Each request has one answer. -/
def answering (answer : (r : I.Request) → I.Answer r) : Answers I Unit :=
  fun _ r a _ => a = answer r

theorem ends_answering : Ends (answering answer) p () (p.run (m := Id) answer) () := by
  induction p with
  | done a => exact .refl _ _
  | ask r next ih => exact .ask rfl (ih (answer r))

/-- The answers to other requests than those of a program make no difference to it. -/
theorem Asks.run_congr {kind : I.Request → Prop} (hp : p.Asks kind)
    (h : ∀ r, kind r → answer' r = answer r) :
    p.run (m := Id) answer' = p.run (m := Id) answer := by
  induction p with
  | done a => rfl
  | ask r next ih =>
      calc run (m := Id) answer' (.ask r next)
          = run (m := Id) answer' (next (answer' r)) := rfl
        _ = run (m := Id) answer (next (answer' r)) := ih _ (hp.2 _)
        _ = run (m := Id) answer (.ask r next) := by
            rw [h r hp.1]
            rfl

end Answering

/-! ## Programs that ask alike -/

/-- Two programs make the same requests as long as the answers are the same, and end with related
values. -/
inductive Alike (R : α → β → Prop) : Program I α → Program I β → Prop where
  | done {a b} (h : R a b) : Alike R (.done a) (.done b)
  | ask (r : I.Request) {next next'} (h : ∀ answer, Alike R (next answer) (next' answer)) :
      Alike R (.ask r next) (.ask r next')

namespace Alike

variable {R : α → β → Prop} {p : Program I α} {q : Program I β}

theorem refl {R : α → α → Prop} (hR : ∀ a, R a a) (p : Program I α) : Alike R p p := by
  induction p with
  | done a => exact .done (hR a)
  | ask r next ih => exact .ask r ih

theorem andThen {γ δ : Type} {S : γ → δ → Prop} {f : α → Program I γ} {g : β → Program I δ}
    (h : Alike R p q) (hf : ∀ a b, R a b → Alike S (f a) (g b)) :
    Alike S (p.andThen f) (q.andThen g) := by
  induction h with
  | done h => exact hf _ _ h
  | ask r _ ih => exact .ask r ih

/-- Whatever one of them ends with, the other may end with something related. -/
theorem ends {answers : Answers I W} {w w' : W} {a : α} (h : Alike R p q)
    (hp : Ends answers p w a w') : ∃ b, R a b ∧ Ends answers q w b w' := by
  induction h generalizing w with
  | done h =>
      obtain ⟨ha, rfl⟩ := leads_done.mp hp
      cases ha
      exact ⟨_, h, .refl _ _⟩
  | ask r _ ih =>
      obtain ⟨answer, v, hanswer, hrest⟩ := ends_ask.mp hp
      obtain ⟨b, hb, hends⟩ := ih answer hrest
      exact ⟨b, hb, .ask hanswer hends⟩

end Alike

end ChangeCapture.Program
