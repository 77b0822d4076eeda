import ChangeCapture.Proofs.Delivery
import ChangeCapture.Proofs.Discovery
import ChangeCapture.Proofs.Interval

/-! # Reading an interval -/

namespace ChangeCapture.Streamer

open List CaptureStep
open Program (Ends)

variable {rules : Rules} {w w' : World} {s : Streamer} {last : Lsn}

/-! ## The ends of an interval -/

theorem quiet_increment (lsn : Lsn) : (increment lsn).IsQuiet := by
  refine quiet_bind (x := Server.incrementLsn lsn) (quiet_server _) fun next => ?_
  split
  · exact quiet_throw _
  · exact quiet_pure _

/-- The next position of a lawful server is the least above. -/
theorem isLeast_of_ends_increment (hrules : rules.Lawful) {lsn next : Lsn}
    (h : Ends rules.answers (increment lsn).run w (.ok next) w') :
    lsn < next ∧ ∀ p, lsn < p → next ≤ p := by
  obtain ⟨answer, v, hask, h⟩ := ends_bind_ok.mp h
  obtain ⟨server, _, hserves, _⟩ := ends_request.mp hask
  have hnext : answer = next := by
    split at h
    · cases (Program.leads_done.mp h).1
    · exact (Except.ok.inj (ends_pure.mp h).1).symm
  exact hnext ▸ hrules.serves hserves answer rfl

theorem quiet_intervalEnd {n : Nat} {first bound : Lsn} :
    (intervalEnd n first bound).IsQuiet := by
  unfold intervalEnd
  split
  · exact quiet_pure _
  · exact quiet_bind (x := Server.nthTransactionLsn first n) (quiet_server _) fun _ => quiet_pure _

theorem le_of_ends_intervalEnd {n : Nat} {first bound : Lsn}
    (h : Ends rules.answers (intervalEnd n first bound).run w (.ok last) w') : last ≤ bound := by
  unfold intervalEnd at h
  split at h
  · exact (Except.ok.inj (ends_pure.mp h).1).le
  · obtain ⟨nth, v, _, h⟩ := ends_bind_ok.mp h
    rw [Except.ok.inj (ends_pure.mp h).1]
    split
    · exact le_rfl
    · rename_i hnth
      simp only [Bool.or_eq_true, decide_eq_true_eq, not_or] at hnth
      exact not_lt.mp hnth.2

theorem first_le_of_ends_intervalEnd (hrules : rules.Lawful) {n : Nat} {first bound : Lsn}
    (hbound : first ≤ bound)
    (h : Ends rules.answers (intervalEnd n first bound).run w (.ok last) w') : first ≤ last := by
  unfold intervalEnd at h
  split at h
  · exact hbound.trans (Except.ok.inj (ends_pure.mp h).1).ge
  · obtain ⟨nth, v, hask, h⟩ := ends_bind_ok.mp h
    obtain ⟨server, _, hserves, _⟩ := ends_request.mp hask
    rw [Except.ok.inj (ends_pure.mp h).1]
    split
    · exact hbound
    · rename_i hnth
      simp only [Bool.or_eq_true, decide_eq_true_eq, not_or] at hnth
      exact (hrules.serves hserves nth rfl).resolve_left hnth.1

/-! ## Opening an interval -/

theorem quiet_maxLsn : Server.maxLsn.IsQuiet := quiet_server _

theorem quiet_maxTransactionLsn : Server.maxTransactionLsn.IsQuiet := quiet_server _

theorem le_reported_of_maxLsn {highest : Lsn}
    (h : rules.answers w (.server .maxLsn) (Except.ok highest : Except CaptureError Lsn) w') :
    highest ≤ w'.server.reported := by
  obtain ⟨server, _, _, rfl⟩ := h
  exact le_max_right _ _

theorem Knows.of_listing_eq {server later : CapturedServer} (h : s.Knows server)
    (hlisting : later.listing = server.listing) : s.Knows later := by
  unfold Knows
  rwa [hlisting]

/-- How the interval that begins at the next position is opened. -/
inductive Opening (rules : Rules) (s : Streamer) (w : World) (last : Lsn) (diff : RegistryDiff)
    (stream : ChangeStream) (w' : World) : Prop where
  | intro {highest lastTransaction : Lsn} {v₁ v₂ v₃ v₄}
      (hhighest : rules.answers w (.server .maxLsn) (Except.ok highest : Except CaptureError Lsn) v₁)
      (hcaptured : s.nextFrom ≤ highest)
      (hlast : rules.answers v₁ (.server .maxTransactionLsn)
        (Except.ok lastTransaction : Except CaptureError Lsn) v₂)
      (htransaction : s.nextFrom ≤ lastTransaction)
      (hend : Ends rules.answers
        (intervalEnd s.maxTransactions s.nextFrom (min highest lastTransaction)).run v₂ (.ok last) v₃)
      (hreconcile : Ends rules.answers (reconcileRegistry s last).run v₃ (.ok diff) v₄)
      (hopens : OpensInterval rules diff.snapshot.toList s.nextFrom last v₄ stream w')

namespace Opening

variable {diff : RegistryDiff} {stream : ChangeStream}

/-- What a streamer takes over from any server makes its changes ascend strictly. -/
theorem ascending (h : Opening rules s w last diff stream w')
    (hs : ∀ ci ∈ s.registry.toList, ci.IsPlain) :
    (∀ ci ∈ diff.snapshot.toList, ci.IsPlain) ∧
      (stream.drain.1.map ChangeRecord.offset).Pairwise fun o p => compare o p = .lt := by
  obtain ⟨_, _, _, _, _, hreconcile, hopens⟩ := h
  obtain ⟨relisted, hrelisted, hdiff⟩ := ends_reconcileRegistry hreconcile
  have hplain : ∀ ci ∈ diff.snapshot.toList, ci.IsPlain := by
    intro ci hci
    rw [hdiff] at hci
    obtain ⟨name, hname⟩ := Registry.mem_values.mp hci
    exact isPlain_of_relisted hs hrelisted ci (Registry.mem_of_getElem?_byName hname)
  refine ⟨hplain, hopens.ascending hplain ?_⟩
  rw [hdiff]
  exact Registry.nodup_names_values (Registry.keyed_byName relisted)

/-- What a lawful server lets a streamer know is what its listing has, and the interval was captured
before its changes are read. -/
theorem lawful (hrules : rules.Lawful) (h : Opening rules s w last diff stream w')
    (hs : s.Knows w.server) :
    ∃ v latest, w.server.Extends v.server ∧ v.server.Extends w'.server ∧ s.nextFrom ≤ last ∧
      last ≤ v.server.reported ∧
      Registry.instancesOf s.database s.filter w.server.listing = .ok latest ∧
      diff.snapshot.sources.Equiv (Registry.byName latest) ∧
      OpensInterval rules (RegistrySnapshot.ofList latest).toList s.nextFrom last v stream w' := by
  obtain ⟨hhighest, hcaptured, hlast, htransaction, hend, hreconcile, hopens⟩ := h
  have hextends := ((hrules.extends hhighest).trans (hrules.extends hlast)).trans
    (hrules.extends_of_leads hend)
  have hreported := (le_of_ends_intervalEnd hend).trans ((min_le_left _ _).trans
    ((le_reported_of_maxLsn hhighest).trans (((hrules.extends hlast).trans
      (hrules.extends_of_leads hend)).trans (hrules.extends_of_leads hreconcile)).reported))
  have hfirst := first_le_of_ends_intervalEnd hrules (le_min hcaptured htransaction) hend
  obtain ⟨relisted, hrelisted, hdiff⟩ := ends_reconcileRegistry hreconcile
  obtain ⟨latest, hlatest, hequiv⟩ :=
    equiv_of_relisted hrules (hs.of_listing_eq hextends.listing) hfirst hrelisted
  rw [hextends.listing] at hlatest
  refine ⟨_, latest, hextends.trans (hrules.extends_of_leads hreconcile), hopens.extends_server hrules,
    hfirst, hreported, hlatest, hdiff ▸ hequiv, ?_⟩
  have htoList : diff.snapshot.toList = (RegistrySnapshot.ofList latest).toList := by
    rw [hdiff]
    exact hequiv.values_eq
  rwa [← htoList]

end Opening

/-! ## What becomes of an interval -/

/-- What a poll comes to. While changes are delivered, `J` holds of the world in which their stream was
opened, the stream, the changes that are done, what is committed and the world. -/
inductive Polled (rules : Rules) (related : World → World → Prop) (s : Streamer) (w : World)
    (J : World → ChangeStream → List (ChangeRecord .sqlserver) → OffsetTracker .sqlserver → World →
      Prop) : Except CaptureError (Option IntervalStats) → Streamer → World → Prop where
  /-- There is no interval yet. -/
  | idle {u} (h : related w u) : Polled rules related s w J (.ok none) s u
  /-- The stream could not be opened. -/
  | unopened {e registryStale u} (h : related w u) :
      Polled rules related s w J (.error e) { s with registryStale } u
  /-- A failure comes before the last change is done. -/
  | broken {last diff stream v e done tracker u} (hopening : Opening rules s w last diff stream v)
      (h : J v stream done tracker u) :
      Polled rules related s w J (.error e) { s with registryStale := true, tracker } u
  /-- The capture is found switched off. -/
  | halted {last diff stream v stats done tracker u} (hopening : Opening rules s w last diff stream v)
      (h : J v stream done tracker u) :
      Polled rules related s w J (.ok (some stats))
        { s with tracker, registry := diff.snapshot, registryStale := false } (u.note .stopped)
  /-- All changes are done, but the next position is not known. -/
  | unfinished {last diff stream v e tracker u} (hopening : Opening rules s w last diff stream v)
      (h : J v stream stream.drain.1 tracker u) :
      Polled rules related s w J (.error e)
        { s with
          tracker, registry := diff.snapshot, registryStale := false, lastFrom := s.nextFrom } u
  | completed {last diff stream v stats tracker u nextFrom u'}
      (hopening : Opening rules s w last diff stream v) (hend : stream.drain.2.1 = none)
      (h : J v stream stream.drain.1 tracker u)
      (hnext : Ends rules.answers (increment last).run u (.ok nextFrom) u') (hlater : related u u')
      (hfirst : stats.first = s.nextFrom) (hlast : stats.last = last) :
      Polled rules related s w J (.ok (some stats))
        { s with
          tracker, registry := diff.snapshot, registryStale := false, lastFrom := s.nextFrom
          nextFrom } u'

section Poll

variable {related : World → World → Prop} {inv : World → Prop}
  {J : World → ChangeStream → List (ChangeRecord .sqlserver) → OffsetTracker .sqlserver → World →
    Prop}

/-- What follows when the stream of an interval was opened. -/
def deliverStream (first last bound : Lsn) (diff : RegistryDiff) (windows : Nat)
    (stream : ChangeStream) : StreamStep IntervalStats := do
  let (records, failure, _) := stream.drain
  let committed := (← get).tracker.committed
  let progress ← deliverRecords { resume := { resumeAfter := committed } } records
  let stats : IntervalStats :=
    { first, last, windows, delivered := progress.delivered
      skipped := progress.resume.skipped, caughtUp := false }
  if progress.stopped then
    modify fun s => { s with registry := diff.snapshot, registryStale := false }
    return stats
  else
    match failure with
    | some e => throw e
    | none => do
        modify fun s =>
          { s with registry := diff.snapshot, registryStale := false, lastFrom := first }
        let nextFrom ← liftStep (increment last)
        modify fun s => { s with nextFrom }
        return { stats with caughtUp := last = bound }

theorem deliverInterval_eq (first last bound : Lsn) (diff : RegistryDiff) :
    deliverInterval first last bound diff = (do
      let windows ← liftStep (Planner.plan diff.snapshot.toList first last)
      let planned ← liftStep (resolveWindows windows)
      let stream ← liftStep (ChangeStream.start planned)
      deliverStream first last bound diff planned.length stream) := rfl

theorem always_deliverStream (hcalm : rules.Calm related) {last bound : Lsn} {diff : RegistryDiff}
    {windows : Nat} {stream : ChangeStream} {v : World}
    (hinv : ∀ {v stream done tracker w'}, J v stream done tracker w' → inv w')
    (hopening : Opening rules s w last diff stream v)
    (hascending : (stream.drain.1.map ChangeRecord.offset).Pairwise fun o p => compare o p = .lt)
    (hdelivery : DeliveryInvariant related s.offsetKey stream.drain.1 (J v stream))
    (hbegin : J v stream [] s.tracker v) :
    StepAlways rules.answers inv
      (fun result s' w' => Polled rules related s w J (result.map some) s' w')
      (deliverStream s.nextFrom last bound diff windows stream) { s with registryStale := true } v := by
  unfold deliverStream
  refine always_bind (always_get ?_)
  refine always_bind ((always_deliverRecords { s with registryStale := true } hcalm hdelivery hinv
    { resume := { resumeAfter := s.tracker.committed } } rfl rfl hascending s.tracker (.inl rfl)
    hbegin).mono fun r s' u hdelivered => ?_)
  obtain ⟨tracker, rfl, hdelivered⟩ := hdelivered
  cases hdelivered with
  | failed h => exact .broken hopening h
  | stopped h hstopped =>
      dsimp only
      rw [if_pos hstopped]
      exact always_bind (always_modify (always_pure (.halted hopening h)))
  | finished h hgoing =>
      dsimp only
      rw [if_neg (by simp [hgoing])]
      cases hend : stream.drain.2.1 with
      | some e => exact always_throw (.broken hopening h)
      | none =>
          refine always_bind (always_modify ?_)
          refine always_bind (always_quiet hcalm (quiet_increment last)
            (fun w' hlater => hinv (hdelivery.later h hlater)) fun r u' hlater hnext => ?_)
          cases r with
          | error e => exact .unfinished hopening (hdelivery.later h hlater)
          | ok nextFrom =>
              refine always_bind (always_modify (always_pure ?_))
              exact .completed hopening hend h hnext hlater rfl rfl

theorem always_deliverInterval (hcalm : rules.Calm related) {last bound : Lsn} {diff : RegistryDiff}
    {u : World} (hu : related w u) (hwait : ∀ w', related w w' → inv w')
    (hinv : ∀ {v stream done tracker w'}, J v stream done tracker w' → inv w')
    (hJ : ∀ stream v, OpensInterval rules diff.snapshot.toList s.nextFrom last u stream v →
      related w v → Opening rules s w last diff stream v ∧
        (stream.drain.1.map ChangeRecord.offset).Pairwise (fun o p => compare o p = .lt) ∧
        DeliveryInvariant related s.offsetKey stream.drain.1 (J v stream) ∧
        J v stream [] s.tracker v) :
    StepAlways rules.answers inv
      (fun result s' w' => Polled rules related s w J (result.map some) s' w')
      (deliverInterval s.nextFrom last bound diff) { s with registryStale := true } u := by
  rw [deliverInterval_eq]
  refine always_bind (always_quiet hcalm Planner.quiet_plan
    (fun w' h => hwait w' (hcalm.trans hu h)) fun r v hv hplan => ?_)
  cases r with
  | error e => exact .unopened (hcalm.trans hu hv)
  | ok windows =>
      refine always_bind (always_quiet hcalm (quiet_resolveWindows windows)
        (fun w' h => hwait w' (hcalm.trans hu (hcalm.trans hv h))) fun r v' hv' hresolve => ?_)
      cases r with
      | error e => exact .unopened (hcalm.trans hu (hcalm.trans hv hv'))
      | ok planned =>
          have hpast := hcalm.trans hu (hcalm.trans hv hv')
          refine always_bind (always_quiet hcalm (ChangeStream.quiet_start planned)
            (fun w' h => hwait w' (hcalm.trans hpast h)) fun r v'' hv'' hstart => ?_)
          cases r with
          | error e => exact .unopened (hcalm.trans hpast hv'')
          | ok stream =>
              obtain ⟨hopening, hascending, hdelivery, hbegin⟩ :=
                hJ stream v'' ⟨hplan, hresolve, hstart⟩ (hcalm.trans hpast hv'')
              exact always_deliverStream hcalm hinv hopening hascending hdelivery hbegin

/-- A poll comes to one of these ends, and `inv` holds on the way, if `J` holds from the opening of a
stream on. -/
theorem always_pollOnce (hcalm : rules.Calm related) (hwait : ∀ w', related w w' → inv w')
    (hinv : ∀ {v stream done tracker w'}, J v stream done tracker w' → inv w')
    (hJ : ∀ {last diff stream v}, Opening rules s w last diff stream v → related w v →
      (stream.drain.1.map ChangeRecord.offset).Pairwise (fun o p => compare o p = .lt) ∧
        DeliveryInvariant related s.offsetKey stream.drain.1 (J v stream) ∧
        J v stream [] s.tracker v) :
    StepAlways rules.answers inv (Polled rules related s w J) pollOnce s w := by
  unfold pollOnce
  refine always_bind (always_get ?_)
  refine always_bind (always_quiet hcalm quiet_maxLsn hwait fun r v₁ hv₁ hhighest => ?_)
  cases r with
  | error e => exact .unopened hv₁
  | ok highest =>
      dsimp only
      split
      · exact always_pure (.idle hv₁)
      · rename_i hcaptured
        refine always_bind (always_quiet hcalm quiet_maxTransactionLsn
          (fun w' h => hwait w' (hcalm.trans hv₁ h)) fun r v₂ hv₂ hlast => ?_)
        replace hv₂ := hcalm.trans hv₁ hv₂
        cases r with
        | error e => exact .unopened hv₂
        | ok lastTransaction =>
            dsimp only
            split
            · exact always_pure (.idle hv₂)
            · rename_i htransaction
              simp only [Bool.or_eq_true, decide_eq_true_eq, not_or, not_lt] at hcaptured htransaction
              refine always_bind (always_get ?_)
              refine always_bind (always_quiet hcalm quiet_intervalEnd
                (fun w' h => hwait w' (hcalm.trans hv₂ h)) fun r v₃ hv₃ hend => ?_)
              replace hv₃ := hcalm.trans hv₂ hv₃
              cases r with
              | error e => exact .unopened hv₃
              | ok last =>
                  refine always_bind (always_get ?_)
                  refine always_bind (always_quiet hcalm quiet_reconcileRegistry
                    (fun w' h => hwait w' (hcalm.trans hv₃ h)) fun r v₄ hv₄ hreconcile => ?_)
                  replace hv₄ := hcalm.trans hv₃ hv₄
                  cases r with
                  | error e => exact .unopened hv₄
                  | ok diff =>
                      refine always_bind (always_modify ?_)
                      have hread : StepAlways rules.answers inv
                          (fun result s' w' => Polled rules related s w J (result.map some) s' w')
                          (deliverInterval s.nextFrom last (min highest lastTransaction) diff)
                          { s with registryStale := true } v₄ := by
                        refine always_deliverInterval hcalm hv₄ hwait hinv fun stream v hopens hv => ?_
                        have hopening : Opening rules s w last diff stream v :=
                          ⟨ends_request.mp hhighest, hcaptured.2, ends_request.mp hlast,
                            htransaction.2, hend, hreconcile, hopens⟩
                        exact ⟨hopening, hJ hopening hv⟩
                      refine always_bind (hread.mono fun r s' u hpolled => ?_)
                      cases r with
                      | error e => exact hpolled
                      | ok stats => exact always_pure hpolled

end Poll

/-- Some polls one after another. -/
inductive Polls (rules : Rules) (s : Streamer) (w : World) : Streamer → World → Prop where
  | none : Polls rules s w s w
  | next {s' u result s'' u'} (h : Polls rules s w s' u)
      (hpoll : Ends rules.answers (runStep pollOnce s') u (result, s'') u') :
      Polls rules s w s'' u'

end ChangeCapture.Streamer
