import ChangeCapture.Proofs.Tracking

/-! # Polls of a lawful server

A poll of a server that keeps to its documentation passes over no change, and the next position moves on
with a completed interval only. -/

namespace ChangeCapture

open List
open Program (Ends)

/-- The capture instances of a listing that are read, one of each name. -/
def Registry.captured (database : String) (filter : TableFilter) (listing : List ListedInstance) :
    List CaptureInstance :=
  match instancesOf database filter listing with
  | .ok latest => (RegistrySnapshot.ofList latest).toList
  | .error _ => []

/-- No switching off was found in what has happened since. -/
def World.Going (w w' : World) : Prop :=
  ∃ events, w'.history = w.history ++ events ∧ Event.stopped ∉ events

/-- A poll has read its whole interval: it answers with what became of it, and the capture was not found
switched off. -/
def Completes (w : World) (result : Except CaptureError (Option IntervalStats)) (w' : World)
    (stats : IntervalStats) : Prop := result = .ok (some stats) ∧ w.Going w'

namespace World.Going

variable {w w' w'' : World} {event : Event}

theorem of_kept (h : w.Going w') (hkept : w'.Kept w'') : w.Going w'' := by
  obtain ⟨events, hhistory, hstopped⟩ := h
  exact ⟨events, hkept.history.trans hhistory, hstopped⟩

theorem of_later (h : w.Later w') : w.Going w' := ⟨[], by simp [h.history], not_mem_nil⟩

theorem note (h : w.Going w') (hevent : event ≠ .stopped) : w.Going (w'.note event) := by
  obtain ⟨events, hhistory, hstopped⟩ := h
  refine ⟨events ++ [event], by simp [World.note, hhistory], ?_⟩
  simp [hstopped, hevent.symm]

theorem not_note_stopped (h : w.Going w') : ¬ w.Going (w'.note .stopped) := by
  obtain ⟨events, hhistory, _⟩ := h
  rintro ⟨events', hhistory', hstopped⟩
  rw [World.note, hhistory, append_assoc, append_cancel_left_eq] at hhistory'
  simp [← hhistory'] at hstopped

end World.Going

namespace Streamer

variable {rules : Rules} {past : Offset .sqlserver → Prop} {sources : List CaptureInstance}
  {B : OffsetTracker .sqlserver → World → Prop} {s s' : Streamer} {w w' : World} {last : Lsn}

/-! ## The changes of an interval -/

/-- What an interval reads of a lawful server. -/
theorem Opening.yields (hrules : rules.Lawful) {diff : RegistryDiff} {stream : ChangeStream}
    (h : Opening rules s w last diff stream w') (hs : s.Knows w.server) :
    s.nextFrom ≤ last ∧ w.server.Extends w'.server ∧
      Yields (Registry.captured s.database s.filter w.server.listing) s.nextFrom last w'
        stream.drain.1 (stream.drain.2.1 = none) := by
  obtain ⟨v, latest, hwv, hvw', hfirst, hlast, hlatest, _, hopens⟩ := h.lawful hrules hs
  have hplain : ∀ ci ∈ (RegistrySnapshot.ofList latest).toList, ci.IsPlain := by
    intro ci hci
    obtain ⟨name, hname⟩ := Registry.mem_values.mp hci
    exact Registry.isPlain_of_instancesOf hlatest ci (Registry.mem_of_getElem?_byName hname)
  have hnames := Registry.nodup_names_values (Registry.keyed_byName latest)
  rw [Registry.captured, hlatest]
  refine ⟨hfirst, hwv.trans hvw', hlast.trans hvw'.reported, hopens.ascending hplain hnames,
    fun record hrecord => hopens.position_le hrules hlast hrecord, fun {o} ho hlower hupper => ?_⟩
  have ho := (hvw'.hasChange (hupper.trans hlast)).mp ho
  refine (hopens.covers hrules hplain hnames hlast ho hlower hupper).imp_right fun hfailed => ?_
  refine ⟨fun hnone => ?_, hfailed.2⟩
  rw [hnone] at hfailed
  exact absurd hfailed.1 (by simp)

/-- A streamer that takes over the snapshot of an interval knows the listing. -/
theorem Opening.knows (hrules : rules.Lawful) {diff : RegistryDiff} {stream : ChangeStream}
    (h : Opening rules s w last diff stream w') (hs : s.Knows w.server)
    {later : CapturedServer} (hlater : w'.server.Extends later)
    (tracker : OffsetTracker .sqlserver) (lastFrom nextFrom : Lsn) :
    Knows { s with
      tracker, registry := diff.snapshot, registryStale := false, lastFrom, nextFrom } later := by
  obtain ⟨v, latest, hwv, hvw', _, _, hlatest, hequiv, _⟩ := h.lawful hrules hs
  refine .inr ⟨latest, ?_, .of_equiv hequiv⟩
  rwa [hlater.listing, hvw'.listing, hwv.listing]

/-! ## What a poll keeps up -/

/-- Between two polls of a lawful server nothing was passed over, and `B` holds. -/
structure Tracks (past : Offset .sqlserver → Prop) (sources : List CaptureInstance)
    (B : OffsetTracker .sqlserver → World → Prop) (s : Streamer) (w : World) : Prop where
  knows : s.Knows w.server
  sources_eq : sources = Registry.captured s.database s.filter w.server.listing
  settles : Settles past sources s.tracker s.nextFrom w
  holds : B s.tracker w

/-- While changes are delivered, nothing was passed over, `B` holds, and the capture was not found
switched off. -/
structure Delivering (past : Offset .sqlserver → Prop) (sources : List CaptureInstance)
    (B : OffsetTracker .sqlserver → World → Prop) (s : Streamer) (w v : World)
    (done : List (ChangeRecord .sqlserver)) (tracker : OffsetTracker .sqlserver) (u : World) : Prop
    extends Reading past sources s.nextFrom v done tracker u where
  opened : w.server.Extends v.server
  holds : B tracker u
  going : w.Going u

theorem Delivering.delivery {key : String} (hB : RunInvariant key B) {v : World}
    {records : List (ChangeRecord .sqlserver)} {complete : Prop}
    (hyields : Yields sources s.nextFrom last v records complete) :
    DeliveryInvariant World.Later key records (Delivering past sources B s w v) where
  later h hlater :=
    ⟨h.toReading.later hlater, h.opened, hB.kept h.holds hlater.toKept, h.going.of_kept hlater.toKept⟩
  skipped hrecords h hcovers :=
    ⟨h.toReading.skipped hyields hrecords hcovers, h.opened, h.holds, h.going⟩
  acknowledged hrecords h hnew :=
    ⟨h.toReading.acknowledged hyields hrecords, h.opened, hB.acknowledged h.holds hnew,
      h.going.note (by simp)⟩
  saved hrecords h hnew hlater :=
    ⟨((h.toReading.acknowledged hyields hrecords).later hlater).save, h.opened,
      hB.saved h.holds hnew hlater.toKept,
      (((h.going.note (by simp)).of_kept hlater.toKept).note (by simp) : w.Going (World.note _ _))⟩

/-- The streamer as it was made. -/
def fresh (s : Streamer) : Streamer :=
  { s with tracker := {}, registry := {}, registryStale := true, lastFrom := .null, nextFrom := .null }

@[simp] theorem fresh_offsetKey (s : Streamer) : s.fresh.offsetKey = s.offsetKey := rfl

/-- The next position moves on when an interval is completed, and then to the least position above. -/
inductive Advances (s : Streamer) (w : World) (result : Except CaptureError (Option IntervalStats))
    (s' : Streamer) (w' : World) : Prop where
  | stays (hnext : s'.nextFrom = s.nextFrom) (h : ∀ stats, ¬ Completes w result w' stats)
  | completes {stats} (h : Completes w result w' stats) (hfirst : stats.first = s.nextFrom)
      (hlast : s.nextFrom ≤ stats.last)
      (hnext : stats.last < s'.nextFrom ∧ ∀ p, stats.last < p → s'.nextFrom ≤ p)

theorem always_pollOnce_of_tracks (hrules : rules.Lawful) (hB : RunInvariant s.offsetKey B)
    (h : s.Tracks past sources B w) :
    StepAlways rules.answers
      (fun u => w.server.Extends u.server ∧
        ∃ tracker nextFrom, Settles past sources tracker nextFrom u ∧ B tracker u)
      (fun result s' w' => s'.fresh = s.fresh ∧ w.server.Extends w'.server ∧
        s'.Tracks past sources B w' ∧ s.Advances w result s' w')
      pollOnce s w := by
  have hlisting {u : World} (hu : w.server.Extends u.server) :
      sources = Registry.captured s.database s.filter u.server.listing := by
    rw [h.sources_eq, hu.listing]
  have hwait {u : World} (hu : w.Later u) (registryStale : Bool) :
      Tracks past sources B { s with registryStale } u :=
    ⟨(h.knows.of_listing_eq hu.server.listing).wait _ _, hlisting hu.server, h.settles.later hu,
      hB.kept h.holds hu.toKept⟩
  refine (always_pollOnce (J := fun v _ => Delivering past sources B s w v) hrules.calm
    (fun u hu => ⟨hu.server, _, _, (hwait hu true).settles, (hwait hu true).holds⟩)
    (fun hdelivering => ⟨hdelivering.opened.trans hdelivering.server, _, _, hdelivering.settles,
      hdelivering.holds⟩) fun hopening hlater => ?_).mono fun result s' w' hpolled => ?_
  · obtain ⟨_, hextends, hyields⟩ := hopening.yields hrules h.knows
    rw [← h.sources_eq] at hyields
    refine ⟨hyields.ascending, Delivering.delivery hB hyields, ⟨⟨.refl _, h.settles.later hlater, ?_⟩,
      hextends, hB.kept h.holds hlater.toKept, .of_later hlater⟩⟩
    simp
  · cases hpolled with
    | idle hu => exact ⟨rfl, hu.server, hwait hu _, .stays rfl fun _ h => by cases h.1⟩
    | unopened hu => exact ⟨rfl, hu.server, hwait hu _, .stays rfl fun _ h => by cases h.1⟩
    | broken hopening hd =>
        have hextends := hd.opened.trans hd.server
        have hknows := h.knows.of_listing_eq hextends.listing
        exact ⟨rfl, hextends, ⟨hknows.wait _ true, hlisting hextends, hd.settles, hd.holds⟩,
          .stays rfl fun _ h => by cases h.1⟩
    | halted hopening hd =>
        have hextends := hd.opened.trans hd.server
        exact ⟨rfl, hextends, ⟨hopening.knows hrules h.knows hd.server _ _ _, hlisting hextends,
          hd.settles.note _, hB.stopped hd.holds⟩,
          .stays rfl fun stats hcompletes => hd.going.not_note_stopped hcompletes.2⟩
    | unfinished hopening hd =>
        have hextends := hd.opened.trans hd.server
        exact ⟨rfl, hextends, ⟨hopening.knows hrules h.knows hd.server _ _ _, hlisting hextends,
          hd.settles, hd.holds⟩,
          .stays rfl fun _ h => by cases h.1⟩
    | completed hopening hend hd hnext hlater hfirst hlast =>
        have hextends := (hd.opened.trans hd.server).trans hlater.server
        obtain ⟨hle, _, hyields⟩ := hopening.yields hrules h.knows
        rw [← h.sources_eq] at hyields
        have hleast := isLeast_of_ends_increment hrules hnext
        have hsettles := (hd.toReading.finish hyields hend hleast.2).later hlater
        exact ⟨rfl, hextends, ⟨hopening.knows hrules h.knows
          (hd.server.trans hlater.server) _ _ _, hlisting hextends, hsettles,
          hB.kept hd.holds hlater.toKept⟩,
          .completes ⟨rfl, hd.going.of_kept hlater.toKept⟩ hfirst (hlast ▸ hle) (hlast ▸ hleast)⟩

/-- What one poll keeps up, any number of polls do. -/
theorem Polls.tracks (hrules : rules.Lawful) (hB : RunInvariant s.offsetKey B)
    (h : s.Tracks past sources B w) (hpolls : Polls rules s w s' w') :
    s'.fresh = s.fresh ∧ w.server.Extends w'.server ∧ s'.Tracks past sources B w' := by
  induction hpolls with
  | none => exact ⟨rfl, .refl _, h⟩
  | @next middle _ _ _ _ _ hpoll ih =>
      obtain ⟨hfresh, hextends, htracks⟩ := ih
      have hkey : middle.offsetKey = s.offsetKey := by rw [← fresh_offsetKey, hfresh, fresh_offsetKey]
      obtain ⟨hfresh', hextends', htracks, _⟩ :=
        (always_pollOnce_of_tracks hrules (hkey ▸ hB) htracks).post_of_ends hpoll
      exact ⟨hfresh'.trans hfresh, hextends.trans hextends', htracks⟩

end Streamer

/-! ## Exactly once -/

/-- What is covered comes before what is not. -/
theorem OffsetTracker.compare_lt_of_covers {tracker : OffsetTracker .sqlserver}
    {o p : Offset .sqlserver} (ho : tracker.Covers o) (hp : ¬ tracker.Covers p) :
    compare o p = .lt := by
  obtain ⟨committed, hcommitted, hcovers⟩ := ho
  cases hop : compare o p with
  | lt => rfl
  | eq => exact absurd ⟨committed, hcommitted, Std.LawfulEqOrd.eq_of_compare hop ▸ hcovers⟩ hp
  | gt =>
      have hlt := Std.OrientedCmp.lt_of_gt hop
      exact absurd ⟨committed, hcommitted, Offset.covers_of_covers_of_lt hcovers hlt⟩ hp

/-- The acknowledged changes are in strictly ascending order, and what is committed covers them. -/
structure InOrder (tracker : OffsetTracker .sqlserver) (w : World) : Prop where
  ascending : w.acknowledged.Pairwise fun o p => compare o p = .lt
  covered : ∀ o ∈ w.acknowledged, tracker.Covers o

namespace InOrder

variable {tracker : OffsetTracker .sqlserver} {w w' : World}

theorem of_acknowledged_eq (h : InOrder tracker w) (heq : w'.acknowledged = w.acknowledged) :
    InOrder tracker w' := ⟨heq ▸ h.ascending, heq ▸ h.covered⟩

theorem acknowledged {record : ChangeRecord .sqlserver} (h : InOrder tracker w)
    (hnew : ¬ tracker.Covers record.offset) :
    InOrder ⟨some record.offset⟩ (w.note (.acknowledged record)) := by
  have hlt : ∀ o ∈ w.acknowledged, compare o record.offset = .lt :=
    fun o ho => OffsetTracker.compare_lt_of_covers (h.covered o ho) hnew
  have hnow := w.acknowledged_note (.acknowledged record)
  constructor
  · rw [hnow]
    exact pairwise_append.mpr ⟨h.ascending, pairwise_singleton _ _,
      fun o ho p hp => mem_singleton.mp hp ▸ hlt o ho⟩
  · intro o ho
    rw [hnow] at ho
    refine ⟨record.offset, rfl, ?_⟩
    rcases mem_append.mp ho with ho | ho
    · exact Offset.covers_of_compare_lt (hlt o ho)
    · cases mem_singleton.mp ho
      exact Offset.covers_self

theorem runInvariant (key : String) : RunInvariant key InOrder where
  kept h hkept := h.of_acknowledged_eq hkept.acknowledged
  stopped {_ w} h := h.of_acknowledged_eq ((w.acknowledged_note .stopped).trans (append_nil _))
  acknowledged h hnew := h.acknowledged hnew
  saved {_ _ _ v} h hnew hkept := (h.acknowledged hnew).of_acknowledged_eq
    ((v.acknowledged_save _ _).trans hkept.acknowledged)

theorem nodup (h : InOrder tracker w) : w.acknowledged.Nodup := by
  refine h.ascending.imp fun hlt heq => ?_
  rw [heq, Std.ReflOrd.compare_self] at hlt
  cases hlt

end InOrder

/-- Polls of a server that keeps to its documentation, of which any may fail or stop anywhere, never
acknowledge a change twice. The next position moves on with completed intervals only, and when an
interval is completed, every change up to its end was acknowledged exactly once. -/
theorem acknowledged_exactly_once {config : Configuration} {database : String} {hasStore : Bool}
    {server : CapturedServer} {store : OffsetMap .sqlserver} {start : Lsn}
    {resumed : Option (Offset .sqlserver)} {s : Streamer} {w : World}
    (hpolls : Streamer.Polls Rules.documented
      { Streamer.ofConfiguration config database hasStore with
        tracker := ⟨resumed⟩, nextFrom := start } { server, store } s w) :
    (∀ {q w'}, Program.Leads Rules.documented.answers (Streamer.runStep Streamer.pollOnce s) w q w' →
      w'.acknowledged.Pairwise fun o p => compare o p = .lt) ∧
    ∀ {result s' w'},
      Ends Rules.documented.answers (Streamer.runStep Streamer.pollOnce s) w (result, s') w' →
      s.nextFrom ≤ s'.nextFrom ∧
      (s'.nextFrom ≠ s.nextFrom → ∃ stats, Completes w result w' stats) ∧
      ∀ stats, Completes w result w' stats →
        stats.first = s.nextFrom ∧
        (stats.last < s'.nextFrom ∧ ∀ p, stats.last < p → s'.nextFrom ≤ p) ∧
        ∀ record, Assigns (Registry.captured database config.tableFilter server.listing) w' record →
          start ≤ record.position → record.position ≤ stats.last →
          ¬ (⟨resumed⟩ : OffsetTracker .sqlserver).Covers record.offset →
          w'.acknowledged.count record.offset = 1 := by
  have hstart : Streamer.Tracks
      (fun o => start ≤ o.position ∧ ¬ (⟨resumed⟩ : OffsetTracker .sqlserver).Covers o)
      (Registry.captured database config.tableFilter server.listing) InOrder
      { Streamer.ofConfiguration config database hasStore with
        tracker := ⟨resumed⟩, nextFrom := start } { server, store } := by
    refine ⟨.inl rfl, rfl, fun o ho hbefore => ?_, ⟨Pairwise.nil, by simp [World.acknowledged,
      acknowledgedOffsets]⟩⟩
    rcases hbefore with hcovers | hlt
    · exact absurd hcovers ho.2
    · exact absurd ho.1 (not_le.mpr hlt)
  obtain ⟨hfresh, hextends, htracks⟩ :=
    hpolls.tracks Rules.lawful_documented (InOrder.runInvariant _) hstart
  have hpoll := Streamer.always_pollOnce_of_tracks Rules.lawful_documented
    (InOrder.runInvariant _) htracks
  refine ⟨fun hleads => ?_, fun {result s' w'} hends => ?_⟩
  · obtain ⟨_, tracker, nextFrom, _, horder⟩ := hpoll.inv_of_leads (fun _ _ h =>
      ⟨h.2.1, _, _, h.2.2.1.settles, h.2.2.1.holds⟩) hleads
    exact horder.ascending
  · obtain ⟨_, _, htracks', hadvances⟩ := hpoll.post_of_ends hends
    cases hadvances with
    | stays hnext hnot =>
        exact ⟨hnext.ge, fun hne => absurd hnext hne, fun stats h => absurd h (hnot stats)⟩
    | completes h hfirst hlast hleast =>
        refine ⟨(hlast.trans_lt hleast.1).le, fun _ => ⟨_, h⟩, fun stats' h' => ?_⟩
        cases h.1.symm.trans h'.1
        refine ⟨hfirst, hleast, fun record hassigned hlower hupper hnew => ?_⟩
        have hsettled := htracks'.settles record.offset ⟨hlower, hnew⟩
          (.inr (hupper.trans_lt hleast.1))
        have hmem := hsettled.acknowledged (hassigned.hasChange hsettled.reported)
        exact count_eq_one_of_mem htracks'.holds.nodup hmem

/-! ## A sample -/

namespace Sample

open CaptureStep Streamer

def configuration : Configuration := { maxTransactions := 0, snapshotMode := .never }

theorem captured_eq :
    Registry.captured "shop" configuration.tableFilter server.listing = [source "orders"] := by
  decide +kernel

/-- The server and what has happened, nothing being stored. -/
def world (reported : Lsn) (history : List Event) : World :=
  { server := { server with reported }, history }

def started : Streamer := (Streamer.ofConfiguration configuration "shop" true).startAt (.ofNat 11)

def polled : Streamer :=
  { started with
    tracker := ⟨some (record "orders" 15).offset⟩, registry := .ofList [source "orders"]
    registryStale := false, lastFrom := .ofNat 11, nextFrom := .ofNat 21 }

def stats : IntervalStats :=
  { first := .ofNat 11, last := .ofNat 20, windows := 1, delivered := 1, skipped := 0
    caughtUp := true }

/-- The row of an interval was acknowledged and its offset saved. -/
def delivered (w : World) : World :=
  (w.note (.acknowledged (record "orders" 15))).save configuration.offsetKey
    (record "orders" 15).offset

/-- The interval is one of those in which only the second row lies. -/
def Around (first last : Nat) : Prop := first = 11 ∧ last = 20 ∨ first = 15 ∧ last = 15

/-- The server may stay as it is and answer as documented, the table having its one column. -/
structure Lenient (rules : Rules) : Prop where
  drifts : ∀ server, rules.Drifts server server
  serves : ∀ {server r answer}, (Rules.fixed fun _ => schema.columns).Serves server r answer →
    rules.Serves server r answer

theorem lenient_documented : Lenient Rules.documented := ⟨CapturedServer.Grows.refl, fun h => h.1⟩

/-- The stream of a window whose rows are known. -/
def streamOf (first last : Nat) (row : ChangeRow) (rest : List ChangeRow) : ChangeStream :=
  { merge :=
      { labels := [(source "orders").label]
        pending := [{ input := 0, label := (source "orders").label, row, rest := { rows := rest } }]
        counts := [0] }
    states := [{ window := (planned first last "orders").window, schema, projection := [0] }] }

section Interval

variable {rules : Rules} {w w' : World} {first last : Nat}

theorem ends_plan_of
    (h : Ends rules.answers (Planner.windowsOf [source "orders"] (.ofNat first) (.ofNat last)
      [source "orders"]).run w (.ok [(planned first last "orders").window]) w) :
    Ends rules.answers (Planner.plan [source "orders"] (.ofNat first) (.ofNat last)).run w
      (.ok [(planned first last "orders").window]) w :=
  CaptureStep.ends_bind_ok.mpr ⟨_, w, h, ends_pure.mpr ⟨by rw [mergeSort_singleton], rfl⟩⟩

theorem ends_plan (h : Around first last) :
    Ends rules.answers (Planner.plan [source "orders"] (.ofNat first) (.ofNat last)).run w
      (.ok [(planned first last "orders").window]) w := by
  apply ends_plan_of
  rcases h with ⟨rfl, rfl⟩ | ⟨rfl, rfl⟩ <;> exact .refl _ _

variable (hrules : Lenient rules)

include hrules

/-- The server may stay as it is and answer what its documentation allows. -/
theorem answers_of_documented {r : ServerRequest} {answer : r.Answer}
    (hanswer : (Rules.fixed fun _ => schema.columns).Serves w.server r answer)
    (hafter : w.server.afterAnswer r answer = w.server) : rules.answers w (.server r) answer w :=
  ⟨w.server, hrules.drifts _, hrules.serves hanswer,
    show w = { w with server := w.server.afterAnswer r answer } by rw [hafter]⟩

theorem ends_resolveSchema :
    Ends rules.answers (Registry.resolveSchema (source "orders")).run w (.ok schema) w := by
  have hcolumns : rules.answers w (.server (.tableColumns schema.id))
      (Except.ok schema.columns : Except CaptureError (List Column)) w :=
    answers_of_documented hrules ⟨trivial, fun _ hlive => (Except.ok.inj hlive).symm⟩ rfl
  have hkey : rules.answers w (.server (.keyColumns schema.id))
      (Except.ok [] : Except CaptureError (List String)) w :=
    answers_of_documented hrules ⟨trivial, trivial⟩ rfl
  exact CaptureStep.ends_bind_ok.mpr ⟨_, w, ends_request.mpr hcolumns,
    CaptureStep.ends_bind_ok.mpr ⟨_, w, ends_request.mpr hkey,
      ends_pure.mpr ⟨by decide +kernel, rfl⟩⟩⟩

theorem ends_resolveWindows :
    Ends rules.answers (resolveWindows [(planned first last "orders").window]).run w
      (.ok [planned first last "orders"]) w :=
  CaptureStep.ends_bind_ok.mpr ⟨_, w,
    CaptureStep.ends_bind_ok.mpr ⟨schema, w, ends_resolveSchema hrules, .refl _ _⟩,
    .refl _ _⟩

theorem ends_start_of {row : ChangeRow} {rest : List ChangeRow}
    (hrows : w.server.windowRows (planned first last "orders").window = row :: rest) :
    Ends rules.answers (ChangeStream.start [planned first last "orders"]).run w
      (.ok (streamOf first last row rest)) w := by
  have hchanges : rules.answers w (.server (.changes (planned first last "orders").window))
      (Except.ok { rows := row :: rest } : Except CaptureError (Cursor ChangeRow)) w := by
    refine answers_of_documented hrules ⟨fun cursor hcursor => ?_, trivial⟩ rfl
    cases hcursor
    exact ⟨hrows ▸ prefix_rfl, fun _ => hrows.symm⟩
  exact .ask hchanges (.refl _ _)

end Interval

theorem windowRows_around {w : World} {first last : Nat} (hw : w.server.changes = server.changes)
    (h : Around first last) :
    w.server.windowRows (planned first last "orders").window = [row 15] := by
  rw [CapturedServer.windowRows, hw]
  rcases h with ⟨rfl, rfl⟩ | ⟨rfl, rfl⟩ <;> decide

/-- The second row is assigned to its position. -/
theorem assigns {w : World} (hw : w.server.changes = server.changes) :
    Assigns [source "orders"] w (record "orders" 15) := by
  have h : Around 15 15 := .inr ⟨rfl, rfl⟩
  have hrules : Lenient Rules.still := ⟨fun _ => rfl, fun h => h.1⟩
  refine ⟨stream 15 15 15 ["orders"], w, ⟨ends_plan h, ends_resolveWindows hrules,
    ends_start_of hrules (windowRows_around hw h)⟩, ?_⟩
  have hdrain : (stream 15 15 15 ["orders"]).drain.1 = [record "orders" 15] := by decide +kernel
  simp [hdrain]

/-! ### Runs of polls -/

section Polls

variable {rules : Rules} (hrules : Lenient rules)

include hrules

theorem ends_increment {w : World} {last next : Lsn}
    (hnext : last < next ∧ ∀ p, last < p → next ≤ p) :
    Ends rules.answers (increment last).run w (.ok next) w := by
  have hleast : rules.answers w (.server (.incrementLsn last))
      (Except.ok next : Except CaptureError Lsn) w := by
    refine answers_of_documented hrules ⟨fun answer hok => ?_, trivial⟩ rfl
    cases hok
    exact hnext
  refine ends_bind_ok.mpr ⟨next, w, ends_request.mpr hleast, ?_⟩
  rw [if_neg (not_le.mpr hnext.1)]
  exact .refl _ _

/-- A new change is handed over, and its offset is saved. -/
theorem ends_commitRecord {s : Streamer} {w : World} {record : ChangeRecord .sqlserver}
    (hstore : s.hasStore) (hnew : ¬ s.tracker.Covers record.offset) :
    Ends rules.answers (runStep (commitRecord record) s) w
      (.ok (), { s with tracker := ⟨some record.offset⟩ })
      ((w.note (.acknowledged record)).save s.offsetKey record.offset) := by
  have hdeliver : rules.answers w (.deliver record)
      (Except.ok () : Except CaptureError Unit) (w.note (.acknowledged record)) :=
    ⟨w.server, hrules.drifts _, trivial, rfl⟩
  have hsave : rules.answers (w.note (.acknowledged record))
      (.storage (.saveOffset s.offsetKey record.offset)) (Except.ok () : Except CaptureError Unit)
      ((w.note (.acknowledged record)).save s.offsetKey record.offset) :=
    ⟨_, hrules.drifts _, trivial, .inl rfl⟩
  refine ends_bind (ends_liftStep (ends_request.mpr hdeliver)) (ends_bind (.refl _ _) ?_)
  refine ends_bind (ends_ofExcept (OffsetTracker.commit_of_not_covers hnew)) ?_
  refine ends_bind (.refl _ _) ?_
  rw [if_pos hstore]
  exact ends_liftStep (ends_request.mpr hsave)

/-- Handing over changes begins with the first one, and the others are handed over after its commit. -/
theorem ends_deliverRecords_cons {s : Streamer} {w w' : World} {record : ChangeRecord .sqlserver}
    {records : List (ChangeRecord .sqlserver)} {progress : DeliveryProgress}
    {resume : ResumeFilter .sqlserver} {r : Except CaptureError DeliveryProgress × Streamer}
    (hstore : s.hasStore) (hnew : ¬ s.tracker.Covers record.offset)
    (hfilter : progress.resume.step record.offset = (false, resume))
    (hrest : Ends rules.answers
      (runStep (deliverRecords { progress with resume, delivered := progress.delivered + 1 } records)
        { s with tracker := ⟨some record.offset⟩ })
      ((w.note (.acknowledged record)).save s.offsetKey record.offset) r w') :
    Ends rules.answers (runStep (deliverRecords progress (record :: records)) s) w r w' := by
  have hactive : rules.answers w .isActive true w := ⟨w.server, hrules.drifts _, trivial, rfl⟩
  rw [deliverRecords, hfilter]
  apply ends_bind (ends_liftStep (.ask hactive (.refl _ _)))
  exact ends_bind (ends_commitRecord hrules hstore hnew) hrest

/-- When all changes of a stream are handed over, the next position is found. -/
theorem ends_deliverStream_of {s s' : Streamer} {w w' : World} {first last bound next : Lsn}
    {diff : RegistryDiff} {windows : Nat} {stream : ChangeStream}
    {records : List (ChangeRecord .sqlserver)} {progress : DeliveryProgress}
    (hrecords : stream.drain.1 = records) (hfailure : stream.drain.2.1 = none)
    (hdelivered : Ends rules.answers
      (runStep (deliverRecords { resume := { resumeAfter := s.tracker.committed } } records) s) w
      (.ok progress, s') w')
    (hgoing : progress.stopped = false) (hnext : last < next ∧ ∀ p, last < p → next ≤ p) :
    Ends rules.answers (runStep (deliverStream first last bound diff windows stream) s) w
      (.ok { first, last, windows, delivered := progress.delivered
             skipped := progress.resume.skipped, caughtUp := last = bound },
        { s' with registry := diff.snapshot, registryStale := false, lastFrom := first
                  nextFrom := next }) w' := by
  unfold deliverStream
  generalize stream.drain = drained at hrecords hfailure
  obtain ⟨drained, failure, rest⟩ := drained
  cases hrecords
  cases hfailure
  apply ends_bind (.refl _ _)
  apply ends_bind hdelivered
  rw [if_neg (by simp [hgoing])]
  apply ends_bind (.refl _ _)
  exact ends_bind (ends_liftStep (ends_increment hrules hnext)) (.refl _ _)

/-- The only change of a stream is handed over, and the next position is found. -/
theorem ends_deliverStream_of_one {s : Streamer} {w : World} {first last bound next : Lsn}
    {diff : RegistryDiff} {windows : Nat} {stream : ChangeStream} {record : ChangeRecord .sqlserver}
    (hstore : s.hasStore) (hrecords : stream.drain.1 = [record]) (hfailure : stream.drain.2.1 = none)
    (hnew : ¬ s.tracker.Covers record.offset) (hnext : last < next ∧ ∀ p, last < p → next ≤ p) :
    Ends rules.answers (runStep (deliverStream first last bound diff windows stream) s) w
      (.ok { first, last, windows, delivered := 1, skipped := 0, caughtUp := last = bound },
        { s with
          tracker := ⟨some record.offset⟩, registry := diff.snapshot, registryStale := false
          lastFrom := first, nextFrom := next })
      ((w.note (.acknowledged record)).save s.offsetKey record.offset) := by
  have hdelivered : Ends rules.answers
      (runStep (deliverRecords { resume := { resumeAfter := s.tracker.committed } } [record]) s) w
      (.ok { resume := { resumeAfter := none }, delivered := 1 },
        { s with tracker := ⟨some record.offset⟩ })
      ((w.note (.acknowledged record)).save s.offsetKey record.offset) :=
    ends_deliverRecords_cons hrules hstore hnew (ResumeFilter.step_of_not_covers hnew) (.refl _ _)
  exact ends_deliverStream_of hrules hrecords hfailure hdelivered rfl hnext

/-- The window of an interval is opened before its changes are handed over. -/
theorem ends_deliverInterval_of {s : Streamer} {w w' : World} {first last : Nat} {bound : Lsn}
    {diff : RegistryDiff} {row : ChangeRow} {rest : List ChangeRow}
    {r : Except CaptureError IntervalStats × Streamer}
    (hsources : diff.snapshot.toList = [source "orders"])
    (hplan : Ends rules.answers (Planner.plan [source "orders"] (.ofNat first) (.ofNat last)).run w
      (.ok [(planned first last "orders").window]) w)
    (hrows : w.server.windowRows (planned first last "orders").window = row :: rest)
    (hdelivered : Ends rules.answers
      (runStep (deliverStream (.ofNat first) (.ofNat last) bound diff 1 (streamOf first last row rest))
        s) w r w') :
    Ends rules.answers (runStep (deliverInterval (.ofNat first) (.ofNat last) bound diff) s) w r w' := by
  rw [deliverInterval_eq, hsources]
  apply ends_bind (ends_liftStep hplan)
  apply ends_bind (ends_liftStep (ends_resolveWindows hrules))
  exact ends_bind (ends_liftStep (ends_start_of hrules hrows)) hdelivered

/-- An interval up to what is captured is read as its parts are. -/
theorem ends_pollOnce_of {s s' : Streamer} {w v w' : World} {last bound : Lsn} {diff : RegistryDiff}
    {stats : IntervalStats} (hnull : bound.isNull = false) (hfirst : s.nextFrom ≤ bound)
    (hmax : rules.answers w (.server .maxLsn) (Except.ok bound : Except CaptureError Lsn) v)
    (hend : Ends rules.answers (intervalEnd s.maxTransactions s.nextFrom bound).run v (.ok last) v)
    (hreconcile : Ends rules.answers (reconcileRegistry s last).run v (.ok diff) v)
    (hinterval : Ends rules.answers
      (runStep (deliverInterval s.nextFrom last bound diff) { s with registryStale := true }) v
      (.ok stats, s') w') :
    Ends rules.answers (runStep pollOnce s) w (.ok (some stats), s') w' := by
  have hlast : rules.answers v (.server .maxTransactionLsn)
      (Except.ok bound : Except CaptureError Lsn) v :=
    answers_of_documented hrules ⟨trivial, trivial⟩ rfl
  have hgoing : ¬ (bound.isNull || decide (bound < s.nextFrom)) := by simp [hnull, hfirst]
  rw [← min_self bound] at hend
  refine ends_bind (.refl _ _) (ends_bind (ends_liftStep (ends_request.mpr hmax)) ?_)
  rw [if_neg hgoing]
  refine ends_bind (ends_liftStep (ends_request.mpr hlast)) ?_
  rw [if_neg hgoing]
  refine ends_bind (.refl _ _) (ends_bind (ends_liftStep hend) ?_)
  refine ends_bind (.refl _ _) (ends_bind (ends_liftStep hreconcile) (ends_bind (.refl _ _) ?_))
  rw [min_self]
  exact ends_bind hinterval (.refl _ _)

end Polls

/-- The changes of the interval are handed over. -/
theorem ends_deliverStream {w : World} :
    Ends Rules.documented.answers
      (runStep (deliverStream (.ofNat 11) (.ofNat 20) (.ofNat 20)
        (started.registry.reconcile [source "orders"]) 1 (stream 11 20 15 ["orders"]))
        { started with registryStale := true }) w
      (.ok stats, polled) (delivered w) := by
  have hrecords : (stream 11 20 15 ["orders"]).drain.1 = [record "orders" 15] := by decide +kernel
  have hfailure : (stream 11 20 15 ["orders"]).drain.2.1 = none := by decide +kernel
  refine ends_deliverStream_of_one lenient_documented rfl hrecords hfailure ?_
    ⟨by decide, fun p hp => hp⟩
  rintro ⟨_, hcommitted, _⟩
  cases hcommitted

/-- The interval is read as a whole. -/
theorem ends_pollOnce (reported : Lsn) (history : List Event) :
    Ends Rules.documented.answers (runStep pollOnce started) (world reported history)
      (.ok (some stats), polled) (delivered (world (max reported (.ofNat 20)) history)) := by
  have hmax : Rules.documented.answers (world reported history) (.server .maxLsn)
      (Except.ok (.ofNat 20) : Except CaptureError Lsn)
      (world (max reported (.ofNat 20)) history) := ⟨_, .refl _, trivial, rfl⟩
  have hlisted : (world (max reported (.ofNat 20)) history).server.listing = server.listing := rfl
  have hrows : (world (max reported (.ofNat 20)) history).server.changes = server.changes := rfl
  generalize world (max reported (.ofNat 20)) history = w at *
  have hlisting : Rules.documented.answers w (.server .listInstances)
      (Except.ok server.listing : Except CaptureError (List ListedInstance)) w :=
    answers_of_documented lenient_documented
      ⟨fun rows hok => by rw [hlisted, Except.ok.inj hok], trivial⟩ rfl
  have hreconcile : Ends Rules.documented.answers (reconcileRegistry started (.ofNat 20)).run w
      (.ok (started.registry.reconcile [source "orders"])) w := .ask hlisting (.refl _ _)
  have h : Around 11 20 := .inl ⟨rfl, rfl⟩
  apply ends_pollOnce_of lenient_documented rfl (by decide) hmax (.refl _ _) hreconcile
  exact ends_deliverInterval_of lenient_documented rfl (ends_plan h) (windowRows_around hrows h)
    ends_deliverStream

end Sample

open Sample in
/-- The second row of the sample is acknowledged exactly once in the interval around it. -/
theorem acknowledged_exactly_once_of_sample :
    started.nextFrom ≤ polled.nextFrom ∧
      (delivered (world (.ofNat 20) [])).acknowledged.count (record "orders" 15).offset = 1 := by
  have hpoll := ends_pollOnce .null []
  have hcompletes : Completes (world .null []) (.ok (some stats))
      (delivered (world (.ofNat 20) [])) stats :=
    ⟨rfl, [.acknowledged (record "orders" 15),
      .saved configuration.offsetKey (record "orders" 15).offset], rfl, by simp⟩
  have hpolls : Streamer.Polls Rules.documented
      { Streamer.ofConfiguration configuration "shop" true with
        tracker := ⟨none⟩, nextFrom := .ofNat 11 } { server, store := ∅ } started (world .null []) :=
    .none
  obtain ⟨hle, _, hinterval⟩ := (acknowledged_exactly_once hpolls).2 hpoll
  refine ⟨hle, (hinterval stats hcompletes).2.2 (record "orders" 15) ?_ (by decide) (by decide) ?_⟩
  · exact captured_eq ▸ assigns rfl
  · rintro ⟨_, hresumed, _⟩
    cases hresumed

end ChangeCapture
