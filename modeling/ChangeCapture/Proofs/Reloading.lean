import ChangeCapture.Proofs.GrowingListings

/-! # When the whole listing is asked for again

A poll asks for the whole listing of capture instances if what is known counts as stale, if nothing is
known, or if no interval was completed. Whether a failed interval leaves what is known stale depends on
where it has failed. -/

namespace ChangeCapture

open List
open Program (Answers Leads Ends Asks)

namespace Program

variable {I : Interface} {α β W : Type} {answers : Answers I W} {kind : I.Request → Prop} {w w' : W}

/-! ## First requests of a kind -/

/-- The program may come to a request of a kind, with none of that kind before it. -/
def FirstAsks (answers : Answers I W) (kind : I.Request → Prop) (p : Program I α) (w : W)
    (r : I.Request) : Prop :=
  kind r ∧ ∃ next v, Leads (fun w r answer w' => ¬ kind r ∧ answers w r answer w') p w (.ask r next) v

theorem Asks.of_leads {p q : Program I α} (hp : p.Asks kind) (h : Leads answers p w q w') :
    q.Asks kind := by
  induction h with
  | refl => exact hp
  | ask _ _ ih => exact ih (hp.2 _)

/-- A program that goes on with the value of another comes to a request in one of the two. -/
theorem of_leads_andThen {p : Program I α} {f : α → Program I β} {r : I.Request}
    {next : I.Answer r → Program I β} (h : Leads answers (p.andThen f) w (.ask r next) w') :
    (∃ next', Leads answers p w (.ask r next') w') ∨
      ∃ a v, Ends answers p w a v ∧ Leads answers (f a) v (.ask r next) w' := by
  induction p generalizing w with
  | done a => exact .inr ⟨a, w, .refl _ _, h⟩
  | ask r₀ next₀ ih =>
      cases h with
      | refl => exact .inl ⟨next₀, .refl _ _⟩
      | ask ha hrest =>
          rcases ih _ hrest with ⟨next', h⟩ | ⟨a, v, hp, hf⟩
          · exact .inl ⟨next', .ask ha h⟩
          · exact .inr ⟨a, v, .ask ha hp, hf⟩

/-- Behind a program without requests of the kind the first one is that of what goes on. -/
theorem firstAsks_of_andThen {p : Program I α} {f : α → Program I β} {r : I.Request}
    (hp : p.Asks fun r => ¬ kind r) (h : FirstAsks answers kind (p.andThen f) w r) :
    ∃ a v, Ends answers p w a v ∧ FirstAsks answers kind (f a) v r := by
  obtain ⟨hkind, next, v, h⟩ := h
  rcases of_leads_andThen h with ⟨next', h⟩ | ⟨a, u, hends, h⟩
  · exact absurd hkind (hp.of_leads h).1
  · exact ⟨a, u, hends.mono And.right, hkind, next, v, h⟩

theorem not_firstAsks_done {a : α} {r : I.Request} : ¬ FirstAsks answers kind (.done a) w r := by
  rintro ⟨_, next, v, h⟩
  cases (leads_done.mp h).1

theorem eq_of_firstAsks_ask {r₀ r : I.Request} {next₀ : I.Answer r₀ → Program I α} (hkind : kind r₀)
    (h : FirstAsks answers kind (.ask r₀ next₀) w r) : r = r₀ := by
  obtain ⟨_, next, v, h⟩ := h
  cases h with
  | refl => rfl
  | ask ha => exact absurd hkind ha.1

end Program

/-! ## Listings -/

/-- A listing of capture instances is asked for, the whole one or what is new. -/
def CaptureRequest.IsListing : CaptureRequest → Prop
  | .server .listInstances | .server (.listNewInstances _ _) => True
  | _ => False

namespace Streamer

variable {rules : Rules} {s s' : Streamer} {w w' : World} {e : CaptureError}

/-- What is known is asked for anew, and not only what is new. -/
def Reloads (s : Streamer) : Bool := s.registryStale || s.registry.isEmpty || s.lastFrom.isNull

/-- The request with which the lookup for an interval begins. -/
def lookupRequest (s : Streamer) (last : Lsn) : ServerRequest :=
  if s.Reloads then .listInstances else .listNewInstances s.lastFrom last

theorem lookupRequest_eq_listInstances {last : Lsn} :
    s.lookupRequest last = .listInstances ↔ s.Reloads := by
  unfold lookupRequest
  split <;> simp [*]

theorem isListing_lookupRequest {last : Lsn} :
    (CaptureRequest.server (s.lookupRequest last)).IsListing := by
  unfold lookupRequest
  split <;> trivial

theorem reconcileRegistry_begins (s : Streamer) (last : Lsn) :
    ∃ next, (reconcileRegistry s last).run = .ask (.server (s.lookupRequest last)) next := by
  rw [lookupRequest]
  by_cases h : s.Reloads
  · have hall : (s.registryStale || s.registry.isEmpty || s.lastFrom.isNull) = true := h
    rw [if_pos h, reconcileRegistry, if_pos hall]
    exact ⟨_, rfl⟩
  · have hnew : ¬ (s.registryStale || s.registry.isEmpty || s.lastFrom.isNull) = true := h
    rw [if_neg h, reconcileRegistry, if_neg hnew]
    exact ⟨_, rfl⟩

/-! ## The parts of a poll -/

/-- The ends of an interval, and the end of what was captured. -/
structure FixedInterval where
  first : Lsn
  last : Lsn
  bound : Lsn

/-- Fixes an interval, if there is one. -/
def fixInterval : StreamStep (Option FixedInterval) := do
  let first := (← get).nextFrom
  let highest ← liftStep Server.maxLsn
  if highest.isNull || highest < first then return none
  else
    let lastTransaction ← liftStep Server.maxTransactionLsn
    if lastTransaction.isNull || lastTransaction < first then return none
    else
      let bound := min highest lastTransaction
      let last ← liftStep (intervalEnd (← get).maxTransactions first bound)
      return some { first, last, bound }

/-- Finds out about the instances for an interval. -/
def lookUp (fixed : FixedInterval) : StreamStep FoundInterval := do
  let diff ← liftStep (reconcileRegistry (← get) fixed.last)
  modify fun s => { s with registryStale := true }
  return { first := fixed.first, last := fixed.last, bound := fixed.bound, diff }

/-- Reads an interval and delivers its changes. -/
def readInterval (found : FoundInterval) : StreamStep (Nat × DeliveryProgress) := do
  let windows ← liftStep (Planner.plan found.diff.snapshot.toList found.first found.last)
  let planned ← liftStep (resolveWindows windows)
  let stream ← liftStep (ChangeStream.start planned)
  let (records, failure, _) := stream.drain
  let committed := (← get).tracker.committed
  let progress ← deliverRecords { resume := { resumeAfter := committed } } records
  if progress.stopped then return (planned.length, progress)
  else
    match failure with
    | some e => throw e
    | none => return (planned.length, progress)

/-- Takes over what was found out. Unless the capture was stopped, the next position is asked for. -/
def closeInterval (found : FoundInterval) (windows : Nat) (progress : DeliveryProgress) :
    StreamStep IntervalStats := do
  let stats : IntervalStats :=
    { first := found.first, last := found.last, windows, delivered := progress.delivered
      skipped := progress.resume.skipped, caughtUp := false }
  if progress.stopped then
    modify fun s => { s with registry := found.diff.snapshot, registryStale := false }
    return stats
  else
    modify fun s =>
      { s with registry := found.diff.snapshot, registryStale := false, lastFrom := found.first }
    let nextFrom ← liftStep (increment found.last)
    modify fun s => { s with nextFrom }
    return { stats with caughtUp := found.last = found.bound }

theorem findInterval_eq : findInterval = fixInterval >>= fun fixed =>
    match fixed with
    | none => pure none
    | some fixed => some <$> lookUp fixed := by
  simp only [findInterval, fixInterval, lookUp, bind_assoc]
  refine bind_congr fun s => ?_
  refine bind_congr fun highest => ?_
  split
  · simp
  · simp only [bind_assoc]
    refine bind_congr fun lastTransaction => ?_
    split <;> simp

theorem deliverInterval_found (found : FoundInterval) :
    deliverInterval found.first found.last found.bound found.diff =
      readInterval found >>= fun read => closeInterval found read.1 read.2 := by
  simp only [deliverInterval, readInterval, closeInterval, bind_assoc]
  refine bind_congr fun windows => ?_
  refine bind_congr fun planned => ?_
  refine bind_congr fun stream => ?_
  refine bind_congr fun s => ?_
  refine bind_congr fun progress => ?_
  split
  · rename_i hstopped
    simp [hstopped]
  · rename_i hgoing
    cases stream.drain.2.1 with
    | some e => rfl
    | none => simp [hgoing]

/-- A poll reads the interval that it has fixed. -/
def readFixed (fixed : FixedInterval) : StreamStep IntervalStats :=
  lookUp fixed >>= fun found => deliverInterval found.first found.last found.bound found.diff

theorem pollOnce_eq_fixInterval_bind : pollOnce = fixInterval >>= fun fixed =>
    match fixed with
    | none => pure none
    | some fixed => some <$> readFixed fixed := by
  rw [pollOnce_eq, findInterval_eq, bind_assoc]
  refine bind_congr fun fixed => ?_
  cases fixed with
  | none => simp
  | some fixed => simp [readFixed]

/-! ### What a part leaves -/

section Leaves

variable {answers : Answers CaptureRequest.interface World}
  {related : Streamer → Streamer → Prop} {α β : Type}

/-- The step leaves a streamer in a related one, however it ends. -/
def Leaves (answers : Answers CaptureRequest.interface World)
    (related : Streamer → Streamer → Prop) (step : StreamStep α) : Prop :=
  ∀ s w result s' w', Ends answers (runStep step s) w (result, s') w' → related s s'

section

variable (hrefl : ∀ s, related s s)

include hrefl

theorem leaves_ofExcept (result : Except CaptureError α) :
    Leaves answers related (ExceptT.mk (pure result)) := by
  intro s w out s' w' h
  obtain ⟨_, rfl, _⟩ := StatefulStep.ends_ofExcept.mp h
  exact hrefl _

theorem leaves_liftStep (step : CaptureStep α) : Leaves answers related (liftStep step) := by
  intro s w result s' w' h
  obtain ⟨rfl, _⟩ := StatefulStep.ends_lift.mp h
  exact hrefl _

end

theorem leaves_bind (htrans : ∀ s t u, related s t → related t u → related s u) {x : StreamStep α}
    {f : α → StreamStep β} (hx : Leaves answers related x) (hf : ∀ a, Leaves answers related (f a)) :
    Leaves answers related (x >>= f) := by
  intro s w result s' w' h
  rcases StatefulStep.ends_bind_iff.mp h with ⟨a, t, v, hfirst, hrest⟩ | ⟨e, _, hfailed⟩
  · exact htrans _ _ _ (hx _ _ _ _ _ hfirst) (hf a _ _ _ _ _ hrest)
  · exact hx _ _ _ _ _ hfailed

theorem leaves_get_bind {f : Streamer → StreamStep β} (hf : ∀ s, Leaves answers related (f s)) :
    Leaves answers related (get >>= f) :=
  fun s _ _ _ _ h => hf s _ _ _ _ _ (StatefulStep.ends_get_bind.mp h)

/-- Fixing an interval leaves the streamer as it was. -/
theorem leaves_fixInterval : Leaves answers Eq fixInterval := by
  have hlift {γ : Type} (step : CaptureStep γ) : Leaves answers Eq (liftStep step) :=
    leaves_liftStep (fun _ => rfl) step
  have hresult {γ : Type} (result : Except CaptureError γ) :
      Leaves answers Eq (ExceptT.mk (pure result)) := leaves_ofExcept (fun _ => rfl) result
  have htrans (s t u : Streamer) (h : s = t) (h' : t = u) : s = u := h.trans h'
  refine leaves_get_bind fun s => leaves_bind htrans (hlift _) fun highest => ?_
  split
  · exact hresult _
  · refine leaves_bind htrans (hlift _) fun lastTransaction => ?_
    split
    · exact hresult _
    · exact leaves_get_bind fun _ => leaves_bind htrans (hlift _) fun last => hresult _

/-- Nothing but what is committed differs. -/
def CommitsOnly (s s' : Streamer) : Prop := ∃ tracker, s' = { s with tracker }

theorem CommitsOnly.refl (s : Streamer) : CommitsOnly s s := ⟨s.tracker, rfl⟩

theorem CommitsOnly.trans (s t u : Streamer) (h : CommitsOnly s t) (h' : CommitsOnly t u) :
    CommitsOnly s u := by
  obtain ⟨_, rfl⟩ := h
  obtain ⟨tracker, rfl⟩ := h'
  exact ⟨tracker, rfl⟩

theorem leaves_commitRecord (record : ChangeRecord .sqlserver) :
    Leaves answers CommitsOnly (commitRecord record) := by
  refine leaves_bind CommitsOnly.trans (leaves_liftStep CommitsOnly.refl _) fun _ => ?_
  intro s w result s' w' h
  -- what is set is the streamer that was got, but for the tracker
  replace h := StatefulStep.ends_get_bind.mp h
  rcases StatefulStep.ends_bind_iff.mp h with ⟨tracker, t, v, hcommit, hset⟩ | ⟨e, _, hfailed⟩
  · obtain ⟨_, rfl, _⟩ := StatefulStep.ends_ofExcept.mp hcommit
    have hsave : Leaves answers CommitsOnly
        (if t.hasStore then liftStep (Server.saveOffset t.offsetKey record.offset) else pure ()) := by
      split
      · exact leaves_liftStep CommitsOnly.refl _
      · exact leaves_ofExcept CommitsOnly.refl _
    exact CommitsOnly.trans t { t with tracker } s' ⟨tracker, rfl⟩ (hsave _ _ _ _ _ hset)
  · exact leaves_ofExcept CommitsOnly.refl _ _ _ _ _ _ hfailed

theorem leaves_deliverRecords (progress : DeliveryProgress)
    (records : List (ChangeRecord .sqlserver)) :
    Leaves answers CommitsOnly (deliverRecords progress records) := by
  induction records generalizing progress with
  | nil => exact leaves_ofExcept CommitsOnly.refl _
  | cons record records ih =>
      unfold deliverRecords
      dsimp only
      split
      · exact ih _
      · refine leaves_bind CommitsOnly.trans (leaves_liftStep CommitsOnly.refl _) fun active => ?_
        split
        · exact leaves_bind CommitsOnly.trans (leaves_commitRecord record) fun _ => ih _
        · exact leaves_ofExcept CommitsOnly.refl _

theorem leaves_readInterval (found : FoundInterval) :
    Leaves answers CommitsOnly (readInterval found) := by
  have hlift {γ : Type} (step : CaptureStep γ) : Leaves answers CommitsOnly (liftStep step) :=
    leaves_liftStep CommitsOnly.refl step
  refine leaves_bind CommitsOnly.trans (hlift _) fun windows => ?_
  refine leaves_bind CommitsOnly.trans (hlift _) fun planned => ?_
  refine leaves_bind CommitsOnly.trans (hlift _) fun stream => leaves_get_bind fun s => ?_
  refine leaves_bind CommitsOnly.trans (leaves_deliverRecords _ _) fun progress => ?_
  split
  · exact leaves_ofExcept CommitsOnly.refl _
  · split <;> exact leaves_ofExcept CommitsOnly.refl _

end Leaves

/-! ### The requests of a part -/

section Asks

variable {kind : CaptureRequest → Prop} {α β : Type}

theorem asks_runStep_liftStep {step : CaptureStep α}
    (h : Asks (I := CaptureRequest.interface) kind step.run) :
    Asks (I := CaptureRequest.interface) kind (runStep (liftStep step) s) :=
  Program.asks_andThen h fun _ => trivial

theorem asks_runStep_bind {x : StreamStep α} {f : α → StreamStep β}
    (hx : Asks (I := CaptureRequest.interface) kind (runStep x s))
    (hf : ∀ a s', Asks (I := CaptureRequest.interface) kind (runStep (f a) s')) :
    Asks (I := CaptureRequest.interface) kind (runStep (x >>= f) s) := by
  refine Program.asks_andThen hx fun (result, s') => ?_
  cases result with
  | ok a => exact hf a s'
  | error e => trivial

/-- No listing is asked for before an interval is fixed. -/
theorem asks_fixInterval :
    Asks (I := CaptureRequest.interface) (fun r => ¬ r.IsListing) (runStep fixInterval s) := by
  have hask (r : CaptureRequest) (h : ¬ r.IsListing) :
      Asks (I := CaptureRequest.interface) (fun r => ¬ r.IsListing) (Server.ask r) :=
    ⟨h, fun _ => trivial⟩
  unfold fixInterval
  refine asks_runStep_bind (x := get) trivial fun _ _ =>
    asks_runStep_bind (asks_runStep_liftStep (hask _ id)) fun _ _ => ?_
  split
  · trivial
  · refine asks_runStep_bind (asks_runStep_liftStep (hask _ id)) fun _ _ => ?_
    split
    · trivial
    · refine asks_runStep_bind (x := get) trivial fun _ _ =>
        asks_runStep_bind (asks_runStep_liftStep ?_) fun _ _ => trivial
      unfold intervalEnd
      split
      · trivial
      · exact CaptureStep.asks_bind (x := Server.nthTransactionLsn _ _) (hask _ id) fun _ => trivial

end Asks

/-! ## The lookup of a poll -/

section Lookup

variable {answers : Answers CaptureRequest.interface World} {r : CaptureRequest}

theorem readFixed_begins (s : Streamer) (fixed : FixedInterval) :
    ∃ next, runStep (some <$> readFixed fixed) s =
      .ask (.server (s.lookupRequest fixed.last)) next := by
  obtain ⟨next, hnext⟩ := reconcileRegistry_begins s fixed.last
  change ∃ next, ((((reconcileRegistry s fixed.last).run.andThen _).andThen _).andThen _).andThen _ = _
  rw [hnext]
  exact ⟨_, rfl⟩

/-- A poll comes to a listing exactly if it fixes an interval, and the first one is that of its lookup. -/
theorem firstAsks_pollOnce_iff :
    Program.FirstAsks answers CaptureRequest.IsListing (runStep pollOnce s) w r ↔
      ∃ fixed v, Ends answers (runStep fixInterval s) w (.ok (some fixed), s) v ∧
        r = .server (s.lookupRequest fixed.last) := by
  rw [pollOnce_eq_fixInterval_bind]
  constructor
  · intro h
    obtain ⟨⟨result, s'⟩, v, hends, h⟩ := Program.firstAsks_of_andThen asks_fixInterval h
    obtain rfl := leaves_fixInterval _ _ _ _ _ hends
    match result with
    | .error e => exact (Program.not_firstAsks_done h).elim
    | .ok none => exact (Program.not_firstAsks_done h).elim
    | .ok (some fixed) =>
        obtain ⟨next, hbegins⟩ := readFixed_begins s fixed
        replace h : Program.FirstAsks answers CaptureRequest.IsListing
          (runStep (some <$> readFixed fixed) s) v r := h
        rw [hbegins] at h
        exact ⟨fixed, v, hends, Program.eq_of_firstAsks_ask isListing_lookupRequest h⟩
  · rintro ⟨fixed, v, hends, rfl⟩
    obtain ⟨next, hbegins⟩ := readFixed_begins s fixed
    refine ⟨isListing_lookupRequest, next, v, ?_⟩
    refine Program.leads_andThen (Asks.leads asks_fixInterval hends) ?_
    change Leads _ (runStep (some <$> readFixed fixed) s) v _ v
    rw [hbegins]
    exact .refl _ _

end Lookup

/-- Polls that ask for no listing, whatever happens between them. -/
inductive Waits (rules : Rules) (s : Streamer) : Streamer → Prop where
  | none : Waits rules s s
  | next {s' w result s'' w'} (h : Waits rules s s')
      (hpoll : Ends (fun w r answer w' => ¬ CaptureRequest.IsListing r ∧ rules.answers w r answer w')
        (runStep pollOnce s') w (result, s'') w') : Waits rules s s''

/-- A poll that comes to no lookup leaves the streamer as it was. -/
theorem Waits.eq (h : Waits rules s s') : s' = s := by
  induction h with
  | none => rfl
  | @next s' w result s'' w' _ hpoll ih =>
      rw [← ih]
      rw [pollOnce_eq_fixInterval_bind] at hpoll
      rcases StatefulStep.ends_bind_iff.mp hpoll with ⟨fixed?, t, v, hfix, hrest⟩ | ⟨e, _, hfix⟩
      · obtain rfl := leaves_fixInterval _ _ _ _ _ hfix
        cases fixed? with
        | none => exact (StatefulStep.ends_ofExcept.mp hrest).2.1
        | some fixed =>
            obtain ⟨next, hbegins⟩ := readFixed_begins s' fixed
            replace hrest : Ends _ (runStep (some <$> readFixed fixed) s') v (result, s'') w' := hrest
            rw [hbegins] at hrest
            obtain ⟨_, _, hanswer, _⟩ := Program.ends_ask.mp hrest
            exact absurd isListing_lookupRequest hanswer.1
      · exact (leaves_fixInterval _ _ _ _ _ hfix).symm

/-! ## Failures behind an interval that is fixed -/

/-- Where a poll fails when its interval is fixed: in its lookup, between planning and the last change, or
when it asks for the next position with what was found out taken over. -/
inductive FailurePoint where
  | lookup
  | reading
  | increment (found : FoundInterval)

/-- Whether the next lookup begins with the whole listing. A lookup that fails is made again as it was, a
failure between planning and the last change leaves what is known stale, and when the next position is
asked for, it is no longer stale. -/
def FailurePoint.reloads (s : Streamer) : FailurePoint → Bool
  | .lookup => s.Reloads
  | .reading => true
  | .increment found => found.diff.snapshot.isEmpty || found.first.isNull

/-- A poll fixes its interval and then fails at a point. -/
inductive FailsAt (rules : Rules) (s : Streamer) (w : World) (e : CaptureError) (s' : Streamer)
    (w' : World) : FailurePoint → Prop where
  | lookup {fixed v} (hfix : Ends rules.answers (runStep fixInterval s) w (.ok (some fixed), s) v)
      (h : Ends rules.answers (runStep (lookUp fixed) s) v (.error e, s') w') :
      FailsAt rules s w e s' w' .lookup
  | reading {found t v}
      (hfind : Ends rules.answers (runStep findInterval s) w (.ok (some found), t) v)
      (h : Ends rules.answers (runStep (readInterval found) t) v (.error e, s') w') :
      FailsAt rules s w e s' w' .reading
  | increment {found t v windows progress t' v'}
      (hfind : Ends rules.answers (runStep findInterval s) w (.ok (some found), t) v)
      (hread : Ends rules.answers (runStep (readInterval found) t) v (.ok (windows, progress), t') v')
      (h : Ends rules.answers (runStep (closeInterval found windows progress) t') v' (.error e, s') w') :
      FailsAt rules s w e s' w' (.increment found)

section Failure

variable {α β : Type}

/-- Composed steps fail in the first or in the second of them. -/
theorem ends_bind_error {x : StreamStep α} {f : α → StreamStep β} :
    Ends rules.answers (runStep (x >>= f) s) w (.error e, s') w' ↔
      Ends rules.answers (runStep x s) w (.error e, s') w' ∨
        ∃ a t v, Ends rules.answers (runStep x s) w (.ok a, t) v ∧
          Ends rules.answers (runStep (f a) t) v (.error e, s') w' := by
  refine StatefulStep.ends_bind_iff.trans ?_
  constructor
  · rintro (h | ⟨_, herror, hx⟩)
    · exact .inr h
    · cases herror
      exact .inl hx
  · rintro (hx | h)
    · exact .inr ⟨e, rfl, hx⟩
    · exact .inl h

theorem not_ends_pure_error {a : α} :
    ¬ Ends rules.answers (runStep (pure a) s) w (.error e, s') w' := by
  intro h
  cases (StatefulStep.ends_ofExcept.mp h).1

theorem ends_map_error {f : α → β} {x : StreamStep α} :
    Ends rules.answers (runStep (f <$> x) s) w (.error e, s') w' ↔
      Ends rules.answers (runStep x s) w (.error e, s') w' := by
  rw [map_eq_pure_bind, ends_bind_error]
  exact or_iff_left fun ⟨_, _, _, _, h⟩ => not_ends_pure_error h

/-- Finding an interval fails before it is fixed or in its lookup. -/
theorem ends_findInterval_error :
    Ends rules.answers (runStep findInterval s) w (.error e, s') w' ↔
      Ends rules.answers (runStep fixInterval s) w (.error e, s') w' ∨ ∃ fixed v,
        Ends rules.answers (runStep fixInterval s) w (.ok (some fixed), s) v ∧
          Ends rules.answers (runStep (lookUp fixed) s) v (.error e, s') w' := by
  rw [findInterval_eq, ends_bind_error]
  refine or_congr_right ?_
  constructor
  · rintro ⟨fixed?, t, v, hfix, h⟩
    obtain rfl := leaves_fixInterval _ _ _ _ _ hfix
    cases fixed? with
    | none => exact absurd h not_ends_pure_error
    | some fixed => exact ⟨fixed, v, hfix, ends_map_error.mp h⟩
  · rintro ⟨fixed, v, hfix, h⟩
    exact ⟨some fixed, s, v, hfix, ends_map_error.mpr h⟩

/-- A poll fails before its interval is fixed, which leaves the streamer as it was, or at a point behind
that. -/
theorem ends_pollOnce_error_iff :
    Ends rules.answers (runStep pollOnce s) w (.error e, s') w' ↔
      s' = s ∧ Ends rules.answers (runStep fixInterval s) w (.error e, s) w' ∨
        ∃ point, FailsAt rules s w e s' w' point := by
  rw [pollOnce_eq, ends_bind_error, ends_findInterval_error]
  constructor
  · rintro ((hfix | ⟨fixed, v, hfix, h⟩) | ⟨found?, t, v, hfind, h⟩)
    · obtain rfl := leaves_fixInterval _ _ _ _ _ hfix
      exact .inl ⟨rfl, hfix⟩
    · exact .inr ⟨_, .lookup hfix h⟩
    · cases found? with
      | none => exact absurd h not_ends_pure_error
      | some found =>
          replace h := ends_map_error.mp h
          rw [deliverInterval_found, ends_bind_error] at h
          rcases h with h | ⟨⟨windows, progress⟩, t', v', hread, h⟩
          · exact .inr ⟨_, .reading hfind h⟩
          · exact .inr ⟨_, .increment hfind hread h⟩
  · rintro (⟨rfl, hfix⟩ | ⟨point, h⟩)
    · exact .inl (.inl hfix)
    · cases h with
      | lookup hfix h => exact .inl (.inr ⟨_, _, hfix, h⟩)
      | reading hfind h =>
          refine .inr ⟨_, _, _, hfind, ends_map_error.mpr ?_⟩
          rw [deliverInterval_found, ends_bind_error]
          exact .inl h
      | increment hfind hread h =>
          refine .inr ⟨_, _, _, hfind, ends_map_error.mpr ?_⟩
          rw [deliverInterval_found, ends_bind_error]
          exact .inr ⟨_, _, _, hread, h⟩

/-! ### What a failure leaves -/

theorem eq_of_ends_lookUp_error {fixed : FixedInterval}
    (h : Ends rules.answers (runStep (lookUp fixed) s) w (.error e, s') w') : s' = s := by
  rcases ends_bind_error.mp (StatefulStep.ends_get_bind.mp h) with hfailed | ⟨_, _, _, _, hrest⟩
  · exact (StatefulStep.ends_lift.mp hfailed).1
  · exact absurd (StatefulStep.ends_modify_bind.mp hrest) not_ends_pure_error

theorem stale_of_ends_findInterval {found : FoundInterval}
    (h : Ends rules.answers (runStep findInterval s) w (.ok (some found), s') w') :
    s'.registryStale = true := by
  rw [findInterval_eq] at h
  obtain ⟨fixed?, t, v, _, h⟩ := ends_bind_ok.mp h
  cases fixed? with
  | none => cases (ends_pure.mp h).1
  | some fixed =>
      replace h : Ends rules.answers (runStep (some <$> lookUp fixed) t) v (.ok (some found), s') w' := h
      rw [map_eq_pure_bind] at h
      obtain ⟨_, u, _, hlookUp, h⟩ := ends_bind_ok.mp h
      obtain ⟨_, rfl, _⟩ := ends_pure.mp h
      obtain ⟨diff, _, _, _, hrest⟩ := ends_bind_ok.mp (StatefulStep.ends_get_bind.mp hlookUp)
      replace hrest := StatefulStep.ends_modify_bind.mp hrest
      obtain ⟨_, rfl, _⟩ := ends_pure.mp hrest
      rfl

/-- Only the next position can fail to be found out when an interval is closed. -/
theorem eq_of_ends_closeInterval_error {found : FoundInterval} {windows : Nat}
    {progress : DeliveryProgress}
    (h : Ends rules.answers (runStep (closeInterval found windows progress) s) w (.error e, s') w') :
    s' = { s with registry := found.diff.snapshot, registryStale := false, lastFrom := found.first } := by
  unfold closeInterval at h
  dsimp only at h
  split at h
  · exact absurd (StatefulStep.ends_modify_bind.mp h) not_ends_pure_error
  · rcases ends_bind_error.mp (StatefulStep.ends_modify_bind.mp h) with hfailed | ⟨_, _, _, _, hrest⟩
    · exact (StatefulStep.ends_lift.mp hfailed).1
    · exact absurd (StatefulStep.ends_modify_bind.mp hrest) not_ends_pure_error

end Failure

theorem FailsAt.reloads_eq {point : FailurePoint} (h : FailsAt rules s w e s' w' point) :
    s'.Reloads = point.reloads s := by
  cases h with
  | lookup _ h => rw [eq_of_ends_lookUp_error h, FailurePoint.reloads]
  | reading hfind h =>
      obtain ⟨tracker, rfl⟩ := leaves_readInterval _ _ _ _ _ _ h
      simp [Reloads, FailurePoint.reloads, stale_of_ends_findInterval hfind]
  | increment _ _ h =>
      rw [eq_of_ends_closeInterval_error h]
      simp [Reloads, FailurePoint.reloads]

end Streamer

open Streamer

/-- A poll that fails does so before its interval is fixed, which changes nothing, or at a point behind
that. The next poll that comes to a listing, after whatever polls that do not, then asks for the whole
listing first exactly if the failure was in the reading of the interval, if the lookup that failed was one
of the whole listing, or, when the next position could not be found out, if no instance is known or the
interval began at no position. -/
theorem reloads_after_failure_iff {rules : Rules} {s s' : Streamer} {w w' : World} {e : CaptureError} :
    (Ends rules.answers (runStep pollOnce s) w (.error e, s') w' ↔
      s' = s ∧ Ends rules.answers (runStep fixInterval s) w (.error e, s) w' ∨
        ∃ point, FailsAt rules s w e s' w' point) ∧
    ∀ point, FailsAt rules s w e s' w' point →
      ∀ (s'' : Streamer) (w'' : World) (r : CaptureRequest), Waits rules s' s'' →
        Program.FirstAsks rules.answers CaptureRequest.IsListing (runStep pollOnce s'') w'' r →
        (r = .server .listInstances ↔ point.reloads s) := by
  refine ⟨ends_pollOnce_error_iff, fun point hfails s'' w'' r hwaits hfirst => ?_⟩
  obtain ⟨fixed, _, _, rfl⟩ := firstAsks_pollOnce_iff.mp hfirst
  rw [CaptureRequest.server.injEq, lookupRequest_eq_listInstances, hwaits.eq, hfails.reloads_eq]

namespace Sample

open CaptureStep

def offline : CaptureError := .discovery "offline"

theorem ends_fixInterval_of {s : Streamer} {w v : World} {last : Lsn} (hall : s.maxTransactions = 0)
    (hnull : last.isNull = false) (hfirst : s.nextFrom ≤ last)
    (hmax : Rules.documented.answers w (.server .maxLsn)
      (Except.ok last : Except CaptureError Lsn) v) :
    Ends Rules.documented.answers (runStep fixInterval s) w
      (.ok (some { first := s.nextFrom, last, bound := last }), s) v := by
  have hlast : Rules.documented.answers v (.server .maxTransactionLsn)
      (Except.ok last : Except CaptureError Lsn) v := ⟨_, .refl _, trivial, rfl⟩
  have hend : Ends Rules.documented.answers
      (intervalEnd s.maxTransactions s.nextFrom (min last last)).run v (.ok last) v := by
    rw [intervalEnd, hall, min_self]
    exact .refl _ _
  have hgoing : ¬ (last.isNull || decide (last < s.nextFrom)) := by simp [hnull, hfirst]
  unfold fixInterval
  apply ends_bind (.refl _ _)
  apply ends_bind (ends_liftStep (ends_request.mpr hmax))
  rw [if_neg hgoing]
  apply ends_bind (ends_liftStep (ends_request.mpr hlast))
  rw [if_neg hgoing]
  apply ends_bind (.refl _ _)
  apply ends_bind (ends_liftStep hend)
  rw [min_self]
  exact .refl _ _

/-- The lookup fails when its first request does. -/
theorem ends_lookUp_offline {s : Streamer} {w : World} (fixed : FixedInterval) :
    Ends Rules.documented.answers (runStep (lookUp fixed) s) w (.error offline, s) w := by
  suffices hlookup :
      Ends Rules.documented.answers (reconcileRegistry s fixed.last).run w (.error offline) w from
    StatefulStep.ends_get_bind.mpr
      (ends_bind_error.mpr (.inl (StatefulStep.ends_lift.mpr ⟨rfl, hlookup⟩)))
  by_cases h : s.Reloads
  · have hask : Rules.documented.answers w (.server .listInstances)
        (Except.error offline : Except CaptureError (List ListedInstance)) w := by
      refine ⟨w.server, .refl _, fun listed hlisted => ?_, rfl⟩
      cases hlisted
    have hall : (s.registryStale || s.registry.isEmpty || s.lastFrom.isNull) = true := h
    rw [reconcileRegistry, if_pos hall]
    exact .ask hask (.refl _ _)
  · have hask : Rules.documented.answers w (.server (.listNewInstances s.lastFrom fixed.last))
        (Except.error offline : Except CaptureError (List String)) w := by
      refine ⟨w.server, .refl _, fun names hnames => ?_, rfl⟩
      cases hnames
    have hnew : ¬ (s.registryStale || s.registry.isEmpty || s.lastFrom.isNull) = true := h
    rw [reconcileRegistry, if_neg hnew]
    exact .ask hask (.refl _ _)

end Sample

open Sample in
/-- A first poll that fails in its lookup is followed by one that asks for the whole listing. -/
theorem reloads_after_failure_iff_of_sample : ∃ r : CaptureRequest,
    Program.FirstAsks Rules.documented.answers CaptureRequest.IsListing (runStep pollOnce started)
      (world (.ofNat 20) []) r ∧ r = .server .listInstances := by
  have hmax : Rules.documented.answers (world (.ofNat 20) []) (.server .maxLsn)
      (Except.ok (.ofNat 20) : Except CaptureError Lsn) (world (.ofNat 20) []) :=
    ⟨_, .refl _, trivial, rfl⟩
  have hfix := ends_fixInterval_of (s := started) rfl (by decide) (by decide) hmax
  have hfails : FailsAt Rules.documented started (world (.ofNat 20) []) offline started
      (world (.ofNat 20) []) .lookup := .lookup hfix (ends_lookUp_offline _)
  have hfirst := firstAsks_pollOnce_iff.mpr ⟨_, _, hfix, rfl⟩
  exact ⟨_, hfirst, (reloads_after_failure_iff.2 _ hfails _ _ _ .none hfirst).mpr rfl⟩

open Sample in
/-- After an interval was completed, a poll that fails in its lookup is followed by one that asks for new
instances only. -/
theorem looks_for_new_after_failure :
    ¬ ∀ {config : Configuration} {database : String} {hasStore : Bool} {server : CapturedServer}
      {store : OffsetMap .sqlserver} {start : Lsn} {resumed : Option (Offset .sqlserver)}
      {s s' s'' : Streamer} {w w' w'' : World} {e : CaptureError} {point : FailurePoint}
      {r : CaptureRequest},
      Streamer.Polls Rules.documented
        { Streamer.ofConfiguration config database hasStore with
          tracker := ⟨resumed⟩, nextFrom := start } { server, store } s w →
      FailsAt Rules.documented s w e s' w' point → Waits Rules.documented s' s'' →
      Program.FirstAsks Rules.documented.answers CaptureRequest.IsListing (runStep pollOnce s'') w'' r →
      r = .server .listInstances := by
  intro h
  have hmax : Rules.documented.answers (delivered (world (.ofNat 20) [])) (.server .maxLsn)
      (Except.ok (.ofNat 30) : Except CaptureError Lsn) _ := ⟨_, .refl _, trivial, rfl⟩
  have hfix := ends_fixInterval_of (s := polled) rfl (by decide) (by decide) hmax
  have hfirst := firstAsks_pollOnce_iff.mpr ⟨_, _, hfix, rfl⟩
  have hrequest := h polls (.lookup hfix (ends_lookUp_offline _)) .none hfirst
  have hreloads : polled.Reloads = true := by
    rwa [CaptureRequest.server.injEq, lookupRequest_eq_listInstances] at hrequest
  revert hreloads
  decide +kernel

end ChangeCapture
