import ChangeCapture.Proofs.Progress

/-! # Capture instances that are listed late

An instance may be listed only after the interval in which it starts was completed. It is found, since new
instances are looked for from the start of that interval on, but its windows begin at the next position. -/

namespace ChangeCapture

open List
open Program (Ends)

/-- A later listing has one more instance of captured tables, the first one of its table. -/
structure CapturedServer.Lists (database : String) (filter : TableFilter)
    (server later : CapturedServer) (ci : CaptureInstance) : Prop where
  mem_iff : ∀ known, known ∈ Registry.captured database filter later.listing ↔
    known = ci ∨ known ∈ Registry.captured database filter server.listing
  uncaptured : ∀ known ∈ Registry.captured database filter server.listing, known.table ≠ ci.table

/-! ## Captured instances -/

namespace Registry

variable {database : String} {filter : TableFilter} {listing : List ListedInstance}
  {latest : List CaptureInstance} {ci cj : CaptureInstance}

theorem mem_captured (h : instancesOf database filter listing = .ok latest) :
    ci ∈ captured database filter listing ↔ (byName latest)[ci.name]? = some ci := by
  rw [captured, h]
  refine mem_values.trans ⟨?_, fun hname => ⟨_, hname⟩⟩
  rintro ⟨name, hname⟩
  rwa [keyed_byName _ _ _ hname]

theorem exists_of_mem_captured (h : ci ∈ captured database filter listing) :
    ∃ latest, instancesOf database filter listing = .ok latest := by
  unfold captured at h
  split at h
  · exact ⟨_, ‹_›⟩
  · cases h

/-- Captured instances are plain, and different ones have different labels. -/
theorem eq_of_label_captured (hi : ci ∈ captured database filter listing)
    (hj : cj ∈ captured database filter listing) (h : ci.label = cj.label) : ci = cj := by
  obtain ⟨latest, hlatest⟩ := exists_of_mem_captured hi
  rw [mem_captured hlatest] at hi hj
  have hplain := isPlain_of_instancesOf hlatest
  have hname := CaptureInstance.name_eq_of_label (hplain _ (mem_of_getElem?_byName hi))
    (hplain _ (mem_of_getElem?_byName hj)) h
  rw [hname, hj] at hi
  exact (Option.some.inj hi).symm

end Registry

namespace CapturedServer.Lists

variable {database : String} {filter : TableFilter} {server later : CapturedServer}
  {ci : CaptureInstance}

theorem mem (h : server.Lists database filter later ci) :
    ci ∈ Registry.captured database filter later.listing := (h.mem_iff ci).mpr (.inl rfl)

theorem label_ne (h : server.Lists database filter later ci) {known : CaptureInstance}
    (hknown : known ∈ Registry.captured database filter server.listing) : known.label ≠ ci.label := by
  intro hlabel
  have heq := Registry.eq_of_label_captured ((h.mem_iff known).mpr (.inr hknown)) h.mem hlabel
  exact h.uncaptured known hknown (congrArg _ heq)

/-- No captured instance takes over from the one that is listed late. -/
theorem owns (h : server.Lists database filter later ci) {lsn : Lsn} {source : CaptureInstance}
    (howns : Planner.Owns [ci] source lsn) :
    Planner.Owns (Registry.captured database filter later.listing) source lsn := by
  obtain rfl := mem_singleton.mp howns.mem
  refine ⟨h.mem, howns.started, howns.live, fun cutoff hcut => ?_⟩
  have hnone : (Registry.captured database filter later.listing).filter
      (Planner.supersedes · source) = [] := by
    refine filter_eq_nil_iff.mpr fun other hother => ?_
    rcases (h.mem_iff other).mp hother with rfl | hother
    · simp [Planner.supersedes]
    · simp [Planner.supersedes, h.uncaptured other hother]
  rw [Planner.supersededAt?, hnone] at hcut
  cases hcut

theorem hasChange (h : server.Lists database filter later ci) {server' : CapturedServer}
    {o : Offset .sqlserver} (ho : HasChange [ci] server' o) :
    HasChange (Registry.captured database filter later.listing) server' o := by
  obtain ⟨source, row, howns, hrow, hcompletes, hoffset⟩ := ho
  exact ⟨source, row, h.owns howns, hrow, hcompletes, hoffset⟩

/-- A streamer that may miss the late instance will find it. -/
theorem knows {s : Streamer} (h : server.Lists s.database s.filter later ci) (hs : s.Knows server)
    (hafter : s.lastFrom ≤ ci.startLsn) (hbefore : ci.startLsn ≤ s.nextFrom) : s.Knows later := by
  rcases hs with hempty | ⟨known, hknown, hreflects⟩
  · exact .inl hempty
  · obtain ⟨latest, hlatest⟩ := Registry.exists_of_mem_captured h.mem
    have hmem (cj : CaptureInstance) :
        (Registry.byName latest)[cj.name]? = some cj ↔
          cj = ci ∨ (Registry.byName known)[cj.name]? = some cj := by
      rw [← Registry.mem_captured hlatest, ← Registry.mem_captured hknown]
      exact h.mem_iff cj
    refine .inr ⟨latest, hlatest, fun {name cj} hname => ?_, fun {name cj} hname hnone => ?_⟩
    · have hlisted := hreflects.listed hname
      obtain rfl := Registry.keyed_byName _ _ _ hlisted
      exact (hmem cj).mpr (.inr hlisted)
    · obtain rfl := Registry.keyed_byName _ _ _ hname
      rcases (hmem cj).mp hname with rfl | hlisted
      · exact ⟨hafter, hbefore⟩
      · exact hreflects.sought hlisted hnone

end CapturedServer.Lists

/-! ## What polls acknowledge -/

/-- A change of some instances at a position or behind it that was not committed. -/
structure Ahead (sources : List CaptureInstance) (first : Lsn) (committed : OffsetTracker .sqlserver)
    (o : Offset .sqlserver) : Prop where
  position : first ≤ o.position
  new : ¬ committed.Covers o
  source : ∃ source ∈ sources, o.origin = source.label

/-- What was committed remains so, and everything that was acknowledged since lies ahead. -/
structure Proceeds (sources : List CaptureInstance) (first : Lsn)
    (committed : OffsetTracker .sqlserver) (w : World) (tracker : OffsetTracker .sqlserver)
    (u : World) : Prop where
  covers : ∀ o, committed.Covers o → tracker.Covers o
  ahead : ∀ o ∈ u.acknowledged, o ∈ w.acknowledged ∨ Ahead sources first committed o

namespace Proceeds

variable {sources : List CaptureInstance} {first : Lsn} {committed tracker : OffsetTracker .sqlserver}
  {w u u' : World}

theorem refl (sources : List CaptureInstance) (first : Lsn) (committed : OffsetTracker .sqlserver)
    (w : World) : Proceeds sources first committed w committed w :=
  ⟨fun _ ho => ho, fun _ ho => .inl ho⟩

theorem of_acknowledged_eq (h : Proceeds sources first committed w tracker u)
    (heq : u'.acknowledged = u.acknowledged) : Proceeds sources first committed w tracker u' :=
  ⟨h.covers, heq ▸ h.ahead⟩

theorem note_stopped (h : Proceeds sources first committed w tracker u) :
    Proceeds sources first committed w tracker (u.note .stopped) :=
  h.of_acknowledged_eq ((u.acknowledged_note .stopped).trans (append_nil _))

theorem acknowledged (h : Proceeds sources first committed w tracker u)
    {record : ChangeRecord .sqlserver} (hfirst : first ≤ record.position)
    (hsource : ∃ source ∈ sources, record.offset.origin = source.label)
    (hnew : ¬ tracker.Covers record.offset) :
    Proceeds sources first committed w ⟨some record.offset⟩ (u.note (.acknowledged record)) := by
  refine ⟨fun o ho => ⟨_, rfl, Offset.covers_of_compare_lt
    (OffsetTracker.compare_lt_of_covers (h.covers o ho) hnew)⟩, fun o ho => ?_⟩
  rw [World.acknowledged_note] at ho
  rcases mem_append.mp ho with ho | ho
  · exact h.ahead o ho
  · cases mem_singleton.mp ho
    exact .inr ⟨hfirst, fun hcovers => hnew (h.covers _ hcovers), hsource⟩

theorem delivery {key : String} {records : List (ChangeRecord .sqlserver)}
    (hrecords : ∀ record ∈ records, first ≤ record.position ∧
      ∃ source ∈ sources, record.offset.origin = source.label) :
    DeliveryInvariant World.Later key records
      fun _ => Proceeds sources first committed w where
  later h hlater := h.of_acknowledged_eq hlater.toKept.acknowledged
  skipped _ h _ := h
  acknowledged hsplit h hnew :=
    h.acknowledged (hrecords _ (by simp [hsplit])).1 (hrecords _ (by simp [hsplit])).2 hnew
  saved {done record rest tracker w v} hsplit h hnew hlater :=
    (h.acknowledged (hrecords _ (by simp [hsplit])).1 (hrecords _ (by simp [hsplit])).2
      hnew).of_acknowledged_eq ((v.acknowledged_save key _).trans hlater.toKept.acknowledged)

end Proceeds

namespace Streamer

variable {rules : Rules} {past : Offset .sqlserver → Prop} {sources : List CaptureInstance}
  {B : OffsetTracker .sqlserver → World → Prop} {s s' : Streamer} {w w' u : World} {first : Lsn}
  {committed : OffsetTracker .sqlserver} {result : Except CaptureError (Option IntervalStats)}

theorem Advances.nextFrom_le (h : s.Advances w result s' w') : s.nextFrom ≤ s'.nextFrom := by
  cases h with
  | stays hnext => exact hnext.ge
  | completes _ _ hlast hnext => exact (hlast.trans_lt hnext.1).le

/-- The changes of an interval lie at its start or behind it. -/
theorem Opening.le_position (hrules : rules.Lawful) {last : Lsn} {diff : RegistryDiff}
    {stream : ChangeStream} (h : Opening rules s w last diff stream w') (hs : s.Knows w.server)
    {record : ChangeRecord .sqlserver} (hrecord : record ∈ stream.drain.1) :
    s.nextFrom ≤ record.position ∧
      ∃ source ∈ Registry.captured s.database s.filter w.server.listing,
        record.offset.origin = source.label := by
  obtain ⟨v, latest, _, _, _, hlast, hlatest, _, hopens⟩ := h.lawful hrules hs
  rw [Registry.captured, hlatest]
  exact hopens.le_position hrules hlast hrecord

/-- A poll acknowledges only what lies ahead. -/
theorem proceeds_of_ends_pollOnce (hrules : rules.Lawful) (hs : s.Knows u.server)
    (hsources : sources = Registry.captured s.database s.filter u.server.listing)
    (hfirst : first ≤ s.nextFrom) (h : Proceeds sources first committed w s.tracker u)
    (hpoll : Ends rules.answers (runStep pollOnce s) u (result, s') w') :
    Proceeds sources first committed w s'.tracker w' := by
  have halways := always_pollOnce (J := fun _ _ _ => Proceeds sources first committed w) hrules.calm
    (fun _ _ => trivial) (fun _ => trivial) fun hopening hlater =>
      ⟨(hopening.yields hrules hs).2.2.ascending,
        Proceeds.delivery fun record hrecord => by
          obtain ⟨hle, hsource⟩ := hopening.le_position hrules hs hrecord
          exact ⟨hfirst.trans hle, hsources ▸ hsource⟩,
        h.of_acknowledged_eq hlater.toKept.acknowledged⟩
  cases halways.post_of_ends hpoll with
  | idle hlater => exact h.of_acknowledged_eq hlater.toKept.acknowledged
  | unopened hlater => exact h.of_acknowledged_eq hlater.toKept.acknowledged
  | broken _ h => exact h
  | halted _ h => exact h.note_stopped
  | unfinished _ h => exact h
  | completed _ _ h _ hlater => exact h.of_acknowledged_eq hlater.toKept.acknowledged

/-- Any number of polls acknowledge only what lies ahead. -/
theorem Polls.proceeds (hrules : rules.Lawful) (hB : RunInvariant s.offsetKey B)
    (h : s.Tracks past sources B w) (hpolls : Polls rules s w s' w') :
    s.nextFrom ≤ s'.nextFrom ∧ Proceeds sources s.nextFrom s.tracker w s'.tracker w' := by
  induction hpolls with
  | none => exact ⟨le_rfl, .refl _ _ _ _⟩
  | @next middle _ _ _ _ hpolls hpoll ih =>
      obtain ⟨hle, hproceeds⟩ := ih
      obtain ⟨hfresh, _, htracks⟩ := hpolls.tracks hrules hB h
      have hkey : middle.offsetKey = s.offsetKey := by rw [← fresh_offsetKey, hfresh, fresh_offsetKey]
      obtain ⟨_, _, _, hadvances⟩ :=
        (always_pollOnce_of_tracks hrules (hkey ▸ hB) htracks).post_of_ends hpoll
      exact ⟨hle.trans hadvances.nextFrom_le,
        proceeds_of_ends_pollOnce hrules htracks.knows htracks.sources_eq hle hproceeds hpoll⟩

/-- A new streamer keeps up everything, nothing being asked. -/
theorem tracks_of_fresh {config : Configuration} {database : String} {hasStore : Bool}
    {server : CapturedServer} {store : OffsetMap .sqlserver} {start : Lsn}
    {resumed : Option (Offset .sqlserver)} :
    Tracks (fun _ => False) (Registry.captured database config.tableFilter server.listing) InOrder
      { Streamer.ofConfiguration config database hasStore with
        tracker := ⟨resumed⟩, nextFrom := start } { server, store } :=
  ⟨.inl rfl, rfl, fun _ hpast => hpast.elim, Pairwise.nil, by simp [World.acknowledged,
    acknowledgedOffsets]⟩

/-- The listing may change as it likes while the whole listing will be asked for. -/
theorem tracks_of_stale (horder : InOrder s.tracker w) (server : CapturedServer) :
    Tracks (fun o => s.nextFrom ≤ o.position ∧ ¬ s.tracker.Covers o)
      (Registry.captured s.database s.filter server.listing) InOrder { s with registry := {} }
      { w with server } := by
  refine ⟨.inl rfl, rfl, fun o ho hdone => ?_, horder.of_acknowledged_eq rfl⟩
  rcases hdone with hcovers | hlt
  · exact absurd hcovers ho.2
  · exact absurd ho.1 (not_le.mpr hlt)

end Streamer

/-! ## Late instances -/

/-- The first instance of a table becomes listed between two polls, and it starts in the last interval or
where the next one begins. Of its changes before the next position, the polls that follow acknowledge
exactly those, once each, that lie at the position that was next when it was listed or behind it and are
not covered by what was committed then. All others are never acknowledged. -/
theorem acknowledged_from_listing_on {config : Configuration} {database : String} {hasStore : Bool}
    {server later : CapturedServer} {store : OffsetMap .sqlserver} {start : Lsn}
    {resumed : Option (Offset .sqlserver)} {s s' : Streamer} {w w' : World} {ci : CaptureInstance}
    {o : Offset .sqlserver}
    (hpolls : Streamer.Polls Rules.documented
      { Streamer.ofConfiguration config database hasStore with
        tracker := ⟨resumed⟩, nextFrom := start } { server, store } s w)
    (hlists : server.Lists database config.tableFilter later ci)
    (hafter : s.lastFrom ≤ ci.startLsn) (hbefore : ci.startLsn ≤ s.nextFrom)
    (hrest : Streamer.Polls Rules.documented s { w with server := later } s' w')
    (ho : HasChange [ci] w'.server o) (hpast : o.position < s'.nextFrom) :
    w'.acknowledged.count o ≤ 1 ∧
      (o ∈ w'.acknowledged ↔ s.nextFrom ≤ o.position ∧ ¬ s.tracker.Covers o) := by
  obtain ⟨hfresh, hextends, htracks⟩ :=
    hpolls.tracks Rules.lawful_documented (InOrder.runInvariant _) Streamer.tracks_of_fresh
  obtain ⟨_, hbegun⟩ :=
    hpolls.proceeds Rules.lawful_documented (InOrder.runInvariant _) Streamer.tracks_of_fresh
  have hdatabase : s.database = database := congrArg Streamer.database hfresh
  have hfilter : s.filter = config.tableFilter := congrArg Streamer.filter hfresh
  subst hdatabase
  rw [← hfilter] at hlists hbegun
  have hknows := hlists.knows (htracks.knows.of_listing_eq hextends.listing.symm) hafter hbefore
  -- what is at stake has neither been committed nor been passed over yet
  have hlisted : s.Tracks (fun o => s.nextFrom ≤ o.position ∧ ¬ s.tracker.Covers o)
      (Registry.captured s.database s.filter later.listing) InOrder { w with server := later } := by
    refine ⟨hknows, rfl, fun o ho hdone => ?_,
      htracks.holds.of_acknowledged_eq rfl⟩
    rcases hdone with hcovers | hlt
    · exact absurd hcovers ho.2
    · exact absurd ho.1 (not_le.mpr hlt)
  obtain ⟨_, _, htracks'⟩ :=
    hrest.tracks Rules.lawful_documented (InOrder.runInvariant _) hlisted
  obtain ⟨_, hproceeds⟩ := hrest.proceeds Rules.lawful_documented (InOrder.runInvariant _) hlisted
  refine ⟨nodup_iff_count_le_one.mp htracks'.holds.nodup o, fun hmem => ?_, fun hahead => ?_⟩
  · rcases hproceeds.ahead o hmem with hold | hahead
    · -- before it was listed, the instance had no part in anything
      rcases hbegun.ahead o hold with hnone | hearly
      · simp [World.acknowledged, acknowledgedOffsets] at hnone
      · obtain ⟨known, hknown, horigin⟩ := hearly.source
        obtain ⟨source, row, howns, _, _, rfl⟩ := ho
        obtain rfl := mem_singleton.mp howns.mem
        exact absurd horigin.symm (hlists.label_ne hknown)
    · exact ⟨hahead.position, hahead.new⟩
  · exact (htracks'.settles o hahead (.inr hpast)).acknowledged (hlists.hasChange ho)

/-! ## A sample -/

namespace Sample

open CaptureStep Streamer

/-- The first instance of another table; it starts in the interval of the sample. -/
def late : CaptureInstance :=
  { table := { database := "shop", schema := "dbo", table := "customers" }, name := "customers"
    objectId := 0, startLsn := .ofNat 12, stopLsn := .null, capturedColumns := ["id"] }

/-- The late instance is listed with a row in that interval and one behind it. -/
def laterServer : CapturedServer where
  listing := server.listing ++
    [{ schema := "dbo", table := "customers", name := "customers"
       startLsn := some [0, 0, 0, 0, 0, 0, 0, 0, 0, 12], endLsn := none
       capturedColumnList := some "[id]" }]
  changes name := if name = "customers" then [row 15, row 25] else server.changes name
  reported := .ofNat 20
  ordered name := by
    split
    · decide
    · exact server.ordered name

def lateRecord (position : Nat) : ChangeRecord .sqlserver :=
  { record "customers" position with table := late.table }

/-- The interval was completed, and then the late instance is listed. -/
def listed : World := { delivered (world (.ofNat 20) []) with server := laterServer }

/-- The next interval is known to be captured. -/
def reported : World := { listed with server := laterServer.report (.ofNat 30) }

theorem lists : server.Lists "shop" configuration.tableFilter laterServer late := by
  have hcaptured : Registry.captured "shop" configuration.tableFilter laterServer.listing =
      [late, source "orders"] := by decide +kernel
  constructor
  · intro known
    rw [hcaptured, captured_eq]
    simp
  · rw [captured_eq]
    simp [late, source]

def lateDiff : RegistryDiff := polled.registry.reconcile (polled.registry.toList ++ [late])

/-- The server may stay as it is and answer what its documentation allows. -/
theorem answers_reported {r : ServerRequest} {answer : r.Answer}
    (hanswer : (Rules.fixed fun _ => schema.columns).Serves reported.server r answer)
    (hafter : reported.server.afterAnswer r answer = reported.server) :
    Rules.documented.answers reported (.server r) answer reported :=
  answers_of_documented lenient_documented hanswer hafter

/-- Only the late instance starts after the start of the last interval. -/
theorem answers_listNewInstances : Rules.documented.answers reported
    (.server (.listNewInstances (.ofNat 11) (.ofNat 30)))
    (Except.ok ["customers"] : Except CaptureError (List String)) reported := by
  refine answers_reported ⟨fun names hok name => ?_, trivial⟩ rfl
  cases hok
  constructor
  · intro hname
    obtain rfl := mem_singleton.mp hname
    exact ⟨_, mem_cons_of_mem _ mem_cons_self, rfl, .ofNat 12, rfl, by decide, by decide⟩
  · rintro ⟨listedRow, hrow, rfl, start, hstart, _, hrange⟩
    rcases mem_cons.mp hrow with rfl | hrow
    · cases hstart
      exact absurd hrange (by decide)
    · obtain rfl := mem_singleton.mp hrow
      exact mem_cons_self

theorem ends_listNewSources_late : Ends Rules.documented.answers
    (Registry.listNewSources polled.database polled.filter polled.lastFrom (.ofNat 30)).run reported
    (.ok [late]) reported := by
  have hlisting : Rules.documented.answers reported (.server .listInstances)
      (Except.ok laterServer.listing : Except CaptureError (List ListedInstance)) reported :=
    answers_reported ⟨fun rows hok => (Except.ok.inj hok).symm, trivial⟩ rfl
  have hsources : Registry.instancesOf polled.database polled.filter laterServer.listing =
      .ok [source "orders", late] := by decide +kernel
  have hpick : Registry.pick (Registry.byName [source "orders", late]) ["customers"] = [late] := by
    decide +kernel
  refine ends_bind_ok.mpr
    ⟨_, _, ends_mapError_ok.mpr (ends_request.mpr answers_listNewInstances), ?_⟩
  refine ends_bind_ok.mpr ⟨[source "orders", late], _, ?_, ends_pure.mpr ⟨by rw [hpick], rfl⟩⟩
  exact ends_bind_ok.mpr ⟨_, _, ends_mapError_ok.mpr (ends_request.mpr hlisting),
    ends_ofExcept.mpr ⟨hsources.symm, rfl⟩⟩

theorem ends_reconcile :
    Ends Rules.documented.answers (reconcileRegistry polled (.ofNat 30)).run reported
      (.ok lateDiff) reported := by
  have hseeks : ¬ (polled.registryStale || polled.registry.isEmpty || polled.lastFrom.isNull) := by
    decide +kernel
  have hnew : ¬ ([late].all fun ci => (polled.registry.get? ci.name).isSome) := by
    decide +kernel
  rw [reconcileRegistry, if_neg hseeks]
  refine ends_bind_ok.mpr ⟨_, _, ends_listNewSources_late, ?_⟩
  rw [if_neg hnew]
  exact ends_pure.mpr ⟨rfl, rfl⟩

def latePlanned : List PlannedWindow :=
  [{ window := { source := late, first := .ofNat 21, last := .ofNat 30, until? := none }
     schema := { schema with id := late.table } },
   planned 21 30 "orders"]

/-- Only the late instance has a row in the next interval. -/
def lateStream : ChangeStream :=
  { merge :=
      { labels := [late.label, (source "orders").label]
        pending := [{ input := 0, label := late.label, row := row 25, rest := { rows := [] } }]
        counts := [0, 0] }
    states := latePlanned.map fun p => { window := p.window, schema := p.schema, projection := [0] } }

theorem ends_plan_late :
    Ends Rules.documented.answers
      (Planner.plan lateDiff.snapshot.toList (.ofNat 21) (.ofNat 30)).run reported
      (.ok (latePlanned.map PlannedWindow.window)) reported := by
  have hsources : lateDiff.snapshot.toList = [late, source "orders"] := by decide +kernel
  rw [hsources]
  refine ends_bind_ok.mpr ⟨latePlanned.map PlannedWindow.window, _, .refl _ _, ends_pure.mpr ⟨?_, rfl⟩⟩
  rw [mergeSort_of_pairwise (by decide +kernel)]

theorem ends_resolve_late :
    Ends Rules.documented.answers (resolveWindows (latePlanned.map PlannedWindow.window)).run reported
      (.ok latePlanned) reported := by
  have hfilter : schema.columns.filter (fun c => ["id"].contains c.name) = schema.columns := by
    decide +kernel
  have hschema (ci : CaptureInstance) (h : ci.capturedColumns = ["id"]) :
      Ends Rules.documented.answers (Registry.resolveSchema ci).run reported
        (.ok { schema with id := ci.table }) reported := by
    have hcolumns : Rules.documented.answers reported (.server (.tableColumns ci.table))
        (Except.ok schema.columns : Except CaptureError (List Column)) reported :=
      answers_reported ⟨trivial, fun _ hlive => (Except.ok.inj hlive).symm⟩ rfl
    have hkey : Rules.documented.answers reported (.server (.keyColumns ci.table))
        (Except.ok [] : Except CaptureError (List String)) reported := answers_reported ⟨trivial, trivial⟩ rfl
    refine ends_bind_ok.mpr ⟨_, _, ends_request.mpr hcolumns,
      ends_bind_ok.mpr ⟨_, _, ends_request.mpr hkey, ends_pure.mpr ⟨?_, rfl⟩⟩⟩
    rw [h, hfilter, show schema.columns.mergeSort _ = schema.columns from mergeSort_singleton _]
    rfl
  rw [resolveWindows, latePlanned, map_cons, map_cons, map_nil, mapM_cons, mapM_cons, mapM_nil]
  refine ends_bind_ok.mpr ⟨_, _, ends_bind_ok.mpr ⟨_, _, hschema late rfl, .refl _ _⟩, ?_⟩
  refine ends_bind_ok.mpr ⟨_, _, ends_bind_ok.mpr ⟨_, _, ?_, .refl _ _⟩, .refl _ _⟩
  exact ends_bind_ok.mpr ⟨_, _, hschema (source "orders") rfl, .refl _ _⟩

theorem ends_start_late :
    Ends Rules.documented.answers (ChangeStream.start latePlanned).run reported (.ok lateStream)
      reported := by
  have hchanges (window : SourceWindow) (rows : List ChangeRow)
      (h : reported.server.windowRows window = rows) :
      Rules.documented.answers reported (.server (.changes window))
        (Except.ok { rows } : Except CaptureError (Cursor ChangeRow)) reported := by
    refine answers_reported ⟨fun cursor hcursor => ?_, trivial⟩ rfl
    cases hcursor
    exact ⟨h ▸ prefix_rfl, fun _ => h.symm⟩
  exact .ask (hchanges _ [row 25] (by decide)) (.ask (hchanges _ [] (by decide)) (.refl _ _))

/-- The streamer and the world after the next interval. -/
def lateStreamer : Streamer :=
  { polled with
    tracker := ⟨some (lateRecord 25).offset⟩, registry := lateDiff.snapshot
    lastFrom := .ofNat 21, nextFrom := .ofNat 31 }

def lateWorld : World :=
  (reported.note (.acknowledged (lateRecord 25))).save configuration.offsetKey (lateRecord 25).offset

/-- The row behind the last interval comes after what was committed. -/
theorem not_covers_late : ¬ polled.tracker.Covers (lateRecord 25).offset := by
  rintro ⟨committed, hcommitted, hcovers⟩
  cases hcommitted
  revert hcovers
  decide +kernel

/-- The late instance is found, and the next interval is read as a whole. -/
theorem ends_pollOnce_late :
    Ends Rules.documented.answers (runStep pollOnce polled) listed
      (.ok (some { stats with first := .ofNat 21, last := .ofNat 30, windows := 2 }), lateStreamer)
      lateWorld := by
  have hmax : Rules.documented.answers listed (.server .maxLsn)
      (Except.ok (.ofNat 30) : Except CaptureError Lsn) reported := ⟨_, .refl _, trivial, rfl⟩
  have hrecords : lateStream.drain.1 = [lateRecord 25] := by decide +kernel
  have hfailure : lateStream.drain.2.1 = none := by decide +kernel
  refine ends_pollOnce_of lenient_documented rfl (by decide) hmax (.refl _ _) ends_reconcile ?_
  rw [deliverInterval_eq]
  refine ends_bind (ends_liftStep ends_plan_late) ?_
  refine ends_bind (ends_liftStep ends_resolve_late) ?_
  refine ends_bind (ends_liftStep ends_start_late) ?_
  exact ends_deliverStream_of_one lenient_documented rfl hrecords hfailure not_covers_late
    ⟨by decide, fun p hp => hp⟩

theorem polls : Streamer.Polls Rules.documented
    { Streamer.ofConfiguration configuration "shop" true with
      tracker := ⟨none⟩, nextFrom := .ofNat 11 } { server, store := ∅ }
    polled (delivered (world (.ofNat 20) [])) := .next .none (ends_pollOnce .null [])

theorem hasChange_late (position : Nat) (h : row position ∈ lateWorld.server.changes "customers")
    (hstart : late.startLsn ≤ .ofNat position) :
    HasChange [late] lateWorld.server (lateRecord position).offset := by
  have hcurrent : Planner.supersededAt? late [late] = none := by decide
  refine ⟨late, row position, ⟨mem_singleton_self _, hstart, .inl rfl, fun cutoff hcut => ?_⟩, h,
    ⟨.insert, rfl, by decide⟩, rfl⟩
  rw [hcurrent] at hcut
  cases hcut

end Sample

open Sample in
/-- The row of the late instance behind the last interval is acknowledged, the one in it is not. -/
theorem acknowledged_from_listing_on_of_sample :
    (lateRecord 15).offset ∉ lateWorld.acknowledged ∧
      (lateRecord 25).offset ∈ lateWorld.acknowledged := by
  have hrest : Streamer.Polls Rules.documented polled
      { delivered (world (.ofNat 20) []) with server := laterServer } lateStreamer lateWorld :=
    .next .none ends_pollOnce_late
  constructor
  · rw [(acknowledged_from_listing_on polls lists (by decide) (by decide) hrest
      (hasChange_late _ (by decide) (by decide)) (by decide)).2]
    exact fun h => absurd h.1 (by decide)
  · refine (acknowledged_from_listing_on polls lists (by decide) (by decide) hrest
      (hasChange_late _ (by decide) (by decide)) (by decide)).2.mpr ⟨by decide, not_covers_late⟩

open Sample in
/-- Not every change of an instance that is listed late is acknowledged, though the next intervals are
completed: those before the next position are lost. -/
theorem lost_before_listing :
    ¬ ∀ {config : Configuration} {database : String} {hasStore : Bool}
      {server later : CapturedServer} {store : OffsetMap .sqlserver} {start : Lsn}
      {resumed : Option (Offset .sqlserver)} {s s' : Streamer} {w w' : World} {ci : CaptureInstance}
      {o : Offset .sqlserver},
      Streamer.Polls Rules.documented
        { Streamer.ofConfiguration config database hasStore with
          tracker := ⟨resumed⟩, nextFrom := start } { server, store } s w →
      server.Lists database config.tableFilter later ci →
      s.lastFrom ≤ ci.startLsn → ci.startLsn < s.nextFrom →
      Streamer.Polls Rules.documented s { w with server := later } s' w' →
      HasChange [ci] w'.server o → o.position < s'.nextFrom → o ∈ w'.acknowledged := by
  intro h
  have hlost := h polls lists (by decide) (by decide) (.next .none ends_pollOnce_late)
    (hasChange_late 15 (by decide) (by decide)) (by decide)
  revert hlost
  decide +kernel

end ChangeCapture
