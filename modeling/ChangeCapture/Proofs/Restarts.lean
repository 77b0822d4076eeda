import ChangeCapture.Proofs.Lives

/-! # Lives that start behind what was captured

As long as no offset is stored and none is configured, every life starts anew behind what was captured
before it. From the last such start on no change is lost. -/

namespace ChangeCapture

open List
open Program (Leads Ends)

/-- The changes from the last start on that was found without a stored offset. -/
def SinceStart (starts : List Lsn) (o : Offset .sqlserver) : Prop :=
  ∃ first, starts.getLast? = some first ∧ first ≤ o.position

theorem origin_sinceStart {config : Configuration} (database : String)
    (hconfig : config.startPosition = .ok none) : Origin config database none SinceStart := by
  constructor
  · rintro o ⟨first, hfirst, _⟩
    cases hfirst
  · rintro - s starts o hstart ⟨first, hfirst, hle⟩
    cases hstart with
    | stored h => cases h
    | offset _ hstart | position _ hstart => cases hconfig.symm.trans hstart
    | captured =>
        refine ⟨?_, ?_⟩
        · rintro ⟨_, hcommitted, _⟩
          cases hcommitted
        · have hlast : (starts ++ [_]).getLast? = some first := hfirst
          rw [getLast?_concat] at hlast
          cases hlast
          exact hle

/-- When nothing was stored at first and no start is configured, every change from the last start on that
was found without a stored offset, up to the end of a completed interval of that life or a later one, was
acknowledged. -/
theorem acknowledged_since_start {config : Configuration} {database : String}
    {server : CapturedServer} {store : OffsetMap .sqlserver} {s s' : Streamer} {w w' : World}
    {result : Except CaptureError (Option IntervalStats)} {stats : IntervalStats} {first : Lsn}
    (hstore : store.load config.offsetKey = none) (hconfig : config.startPosition = .ok none)
    (hmode : config.snapshotMode = .never)
    (hreach : Reaches Rules.documented config database { server, store } (.polling s) w)
    (hpoll : Ends Rules.documented.answers (Streamer.runStep Streamer.pollOnce s) w
      (result, s') w')
    (hcompletes : Completes w result w' stats) (hfirst : w.starts.getLast? = some first)
    {o : Offset .sqlserver}
    (ho : HasChange (Registry.captured database config.tableFilter server.listing) w'.server o)
    (hlower : first ≤ o.position) (hupper : o.position ≤ stats.last) : o ∈ w'.acknowledged := by
  have hstands := hreach.stands Rules.lawful_documented (fun _ _ => hmode)
    (hstore.symm ▸ origin_sinceStart database hconfig)
  obtain ⟨hstands', hstarts, hadvances⟩ :=
    (hstands.always_pollOnce Rules.lawful_documented).post_of_ends hpoll
  cases hadvances with
  | stays _ hnot => exact absurd hcompletes (hnot stats)
  | completes h _ _ hleast =>
      cases h.1.symm.trans hcompletes.1
      cases hstands' with
      | polling _ htracks =>
          have hsettled := htracks.settles o ⟨first, hstarts ▸ hfirst, hlower⟩
            (.inr (hupper.trans_lt hleast.1))
          exact hsettled.acknowledged ho

/-! ## A sample -/

namespace Sample

open Streamer

theorem startPosition_eq : configuration.startPosition = .ok none := rfl

/-- A life starts behind what was captured. -/
theorem ends_establishStart_behind (reported : Lsn) (history : List Event) (highest first : Lsn)
    (hnull : highest.isNull = false)
    (hfirst : highest < first ∧ ∀ p, highest < p → first ≤ p) :
    Ends Rules.documented.answers
      (runStep (establishStart configuration) (Streamer.ofConfiguration configuration "shop" true))
      (world reported history)
      (.ok (), (Streamer.ofConfiguration configuration "shop" true).startAt first)
      (world (max reported highest) history) := by
  have hmax : Rules.documented.answers (world reported history) (.server .maxLsn)
      (Except.ok highest : Except CaptureError Lsn) (world (max reported highest) history) :=
    ⟨_, .refl _, trivial, rfl⟩
  have hnext : Rules.documented.answers (world (max reported highest) history)
      (.server (.incrementLsn highest)) (Except.ok first : Except CaptureError Lsn)
      (world (max reported highest) history) := by
    refine answers_of_documented lenient_documented ⟨fun next hok => ?_, trivial⟩ rfl
    cases hok
    exact hfirst
  have hbehind : Ends Rules.documented.answers (startAfter highest).run
      (world (max reported highest) history) (.ok first) (world (max reported highest) history) := by
    rw [startAfter, if_neg (by simp [hnull])]
    refine CaptureStep.ends_bind_ok.mpr ⟨_, _, CaptureStep.ends_request.mpr hnext, ?_⟩
    rw [if_neg (not_le.mpr hfirst.1)]
    exact .refl _ _
  refine ends_bind (.refl _ _) ?_
  refine ends_bind (ends_liftStep (.ask (load_world _ _ _) (.refl _ _))) ?_
  refine ends_bind (ends_ofExcept startPosition_eq) ?_
  refine ends_bind (ends_liftStep (.ask hmax (.refl _ _))) ?_
  refine ends_bind (.refl _ _) ?_
  exact ends_bind (ends_liftStep hbehind) (.refl _ _)

/-- Two lives: the first one crashes before it polls, and the second one starts behind the first row. -/
def history : List Event := [.began (.ofNat 4) none, .crashed none, .began (.ofNat 11) none]

theorem reaches_polling :
    Reaches Rules.documented configuration "shop" { server } (.polling started)
      (world (.ofNat 10) history) := by
  have hfirst : Ends Rules.documented.answers (runStep (establishStart configuration) _)
      (world .null []) (.ok (), _) (world (.ofNat 3) []) :=
    ends_establishStart_behind .null [] (.ofNat 3) (.ofNat 4) rfl ⟨by decide, fun p hp => hp⟩
  have hsecond : Ends Rules.documented.answers (runStep (establishStart configuration) _)
      (world (.ofNat 3) [.began (.ofNat 4) none, .crashed none]) (.ok (), started)
      (world (.ofNat 10) [.began (.ofNat 4) none, .crashed none]) :=
    ends_establishStart_behind (.ofNat 3) _ (.ofNat 10) (.ofNat 11) rfl
      ⟨by decide, fun p hp => hp⟩
  exact .began (.boot (.crash (.began (.boot .refl) hfirst) (.polling (.refl _ _)))) hsecond

theorem completes :
    Completes (world (.ofNat 10) history) (.ok (some stats))
      (delivered (world (.ofNat 20) history)) stats :=
  ⟨rfl, [.acknowledged (record "orders" 15),
    .saved configuration.offsetKey (record "orders" 15).offset], rfl, by simp⟩

/-- Both rows are changes that the instance owns. -/
theorem hasChange {w : World} (hw : w.server.changes = server.changes) {position : Nat}
    (h : position = 5 ∨ position = 15) :
    HasChange (Registry.captured "shop" configuration.tableFilter server.listing) w.server
      (record "orders" position).offset := by
  rw [captured_eq]
  have howns : Planner.Owns [source "orders"] (source "orders") (row position).startLsn := by
    refine ⟨mem_cons_self, ?_, .inl rfl, fun cutoff hcut => ?_⟩
    · rcases h with rfl | rfl <;> decide
    · cases hcut
  refine ⟨source "orders", row position, howns, ?_, ⟨.insert, rfl, by decide⟩, rfl⟩
  rw [hw]
  rcases h with rfl | rfl <;> decide

end Sample

open Sample in
/-- The change behind the second start of the sample is acknowledged. -/
theorem acknowledged_since_start_of_sample :
    (record "orders" 15).offset ∈ (delivered (world (.ofNat 20) history)).acknowledged :=
  acknowledged_since_start rfl startPosition_eq rfl reaches_polling
    (ends_pollOnce (.ofNat 10) history) completes rfl (hasChange rfl (.inr rfl)) (by decide) (by decide)

open Sample in
/-- What comes between the first start and the second one may be lost: it is not true that from the first
start on every change is acknowledged. -/
theorem lost_between_starts :
    ¬ ∀ {config : Configuration} {database : String} {server : CapturedServer}
      {store : OffsetMap .sqlserver} {s s' : Streamer} {w w' : World}
      {result : Except CaptureError (Option IntervalStats)} {stats : IntervalStats} {first : Lsn},
      store.load config.offsetKey = none → config.startPosition = .ok none →
      config.snapshotMode = .never →
      Reaches Rules.documented config database { server, store } (.polling s) w →
      Ends Rules.documented.answers (Streamer.runStep Streamer.pollOnce s) w (result, s') w' →
      Completes w result w' stats → w.starts.head? = some first → ∀ {o : Offset .sqlserver},
      HasChange (Registry.captured database config.tableFilter server.listing) w'.server o →
      first ≤ o.position → o.position ≤ stats.last → o ∈ w'.acknowledged := by
  intro h
  have hlost := h rfl startPosition_eq rfl reaches_polling (ends_pollOnce (.ofNat 10) history)
    completes rfl (hasChange rfl (.inl rfl)) (by decide) (by decide)
  revert hlost
  decide

end ChangeCapture
