import ChangeCapture.Proofs.Records

/-! # Where intervals are cut

How many transactions an interval takes does not matter. Up to the same position the same records are
acknowledged in the same order, if no row of a capture instance lies behind its stop. -/

namespace ChangeCapture

open List
open Program (Ends Leads)

/-! ## What is acknowledged before the next position -/

/-- No row of some instances lies behind the stop of its instance. -/
def CapturedServer.WithinStops (server : CapturedServer) (sources : List CaptureInstance) : Prop :=
  ∀ ci ∈ sources, ∀ row ∈ server.changes ci.name, ci.stopLsn.isNull ∨ row.startLsn ≤ ci.stopLsn

theorem ChangeOf.hasChange {rules : Rules} {sources : List CaptureInstance} {server : CapturedServer}
    {record : ChangeRecord .sqlserver} (h : ChangeOf rules sources server record)
    (hstops : server.WithinStops sources) : HasChange sources server record.offset := by
  obtain ⟨hmem, hstarted, hcurrent, _, hrow, _, hstands⟩ := h
  exact ⟨_, _, ⟨hmem, hstarted, hstops _ hmem _ hrow, hcurrent⟩, hrow, hstands.completes,
    hstands.offset_eq.symm⟩

section Polls

variable {config : Configuration} {database : String} {hasStore : Bool} {server : CapturedServer}
  {store : OffsetMap .sqlserver} {start : Lsn} {resumed : Option (Offset .sqlserver)} {s : Streamer}
  {w : World}

/-- What polls from a start on acknowledge are changes that the server has. -/
theorem Streamer.Polls.changeOf {rules : Rules} (hrules : rules.Lawful)
    (hpolls : Streamer.Polls rules { Streamer.ofConfiguration config database hasStore with
      tracker := ⟨resumed⟩, nextFrom := start } { server, store } s w)
    {record : ChangeRecord .sqlserver} (hrecord : record ∈ w.records) :
    ChangeOf rules (Registry.captured database config.tableFilter server.listing) w.server record := by
  obtain ⟨records, hrecords, hall⟩ :=
    hpolls.delivers hrules (InOrder.runInvariant _) Streamer.tracks_of_fresh
  rw [hrecords] at hrecord
  exact hall record hrecord

/-- Before the next position exactly those changes were acknowledged that lie at the start or behind it
and are not covered by the offset that was resumed after. -/
theorem Streamer.Polls.acknowledged_iff {rules : Rules} (hrules : rules.Lawful)
    (hpolls : Streamer.Polls rules { Streamer.ofConfiguration config database hasStore with
      tracker := ⟨resumed⟩, nextFrom := start } { server, store } s w)
    (hstops : w.server.WithinStops (Registry.captured database config.tableFilter server.listing))
    {o : Offset .sqlserver} (hpast : o.position < s.nextFrom) :
    o ∈ w.acknowledged ↔
      HasChange (Registry.captured database config.tableFilter server.listing) w.server o ∧
        start ≤ o.position ∧ ¬ (⟨resumed⟩ : OffsetTracker .sqlserver).Covers o := by
  have hstart := Streamer.tracks_of_stale
    (s := { Streamer.ofConfiguration config database hasStore with
      tracker := ⟨resumed⟩, nextFrom := start })
    (w := { server, store }) (InOrder.mk Pairwise.nil (by simp [World.acknowledged, acknowledgedOffsets]))
    server
  constructor
  · intro ho
    obtain ⟨_, hproceeds⟩ := hpolls.proceeds hrules (InOrder.runInvariant _) hstart
    rcases hproceeds.ahead o ho with hnone | hahead
    · simp [World.acknowledged, acknowledgedOffsets] at hnone
    · rw [← w.map_offset_records, mem_map] at ho
      obtain ⟨record, hrecord, rfl⟩ := ho
      exact ⟨(hpolls.changeOf hrules hrecord).hasChange hstops, hahead.position, hahead.new⟩
  · rintro ⟨hchange, hbegun⟩
    obtain ⟨_, _, htracks⟩ := hpolls.tracks hrules (InOrder.runInvariant _) hstart
    exact (htracks.settles o hbegun (.inr hpast)).acknowledged hchange

end Polls

/-! ## A log that does not change -/

variable {columns : TableId → List Column}

theorem Rules.changes_eq_of_leads {α : Type} {p q : CaptureProgram α} {w w' : World}
    (h : Leads (Rules.fixed columns).answers p w q w') : w'.server.changes = w.server.changes := by
  induction h with
  | refl => rfl
  | ask h _ ih =>
      obtain ⟨server, rfl, _, hresponds⟩ := h
      exact ih.trans hresponds.changes_eq

theorem Streamer.Polls.changes_eq {s s' : Streamer} {w w' : World}
    (h : Streamer.Polls (Rules.fixed columns) s w s' w') : w'.server.changes = w.server.changes := by
  induction h with
  | none => rfl
  | next _ hpoll ih => exact (Rules.changes_eq_of_leads hpoll).trans ih

theorem HasChange.of_changes_eq {sources : List CaptureInstance} {server later : CapturedServer}
    {o : Offset .sqlserver} (h : HasChange sources server o) (hchanges : later.changes = server.changes) :
    HasChange sources later o := by
  rwa [HasChange, hchanges]

theorem CapturedServer.WithinStops.of_changes_eq {sources : List CaptureInstance}
    {server later : CapturedServer} (h : server.WithinStops sources)
    (hchanges : later.changes = server.changes) : later.WithinStops sources := by
  rwa [WithinStops, hchanges]

/-- The columns of a schema are those of the table that the instance captures. -/
theorem columns_eq_of_ends_resolveSchema {source : CaptureInstance} {schema : TableSchema} {w w' : World}
    (h : Ends (Rules.fixed columns).answers (Registry.resolveSchema source).run w (.ok schema) w') :
    schema.columns = ((columns source.table).filter fun c =>
      source.capturedColumns.contains c.name).mergeSort fun c d => c.position ≤ d.position := by
  obtain ⟨live, v, hlive, h⟩ := CaptureStep.ends_bind_ok.mp h
  obtain ⟨key, v', _, h⟩ := CaptureStep.ends_bind_ok.mp h
  obtain ⟨server, _, hserves, _⟩ := CaptureStep.ends_request.mp hlive
  obtain rfl := hserves.2 live rfl
  rw [Except.ok.inj (CaptureStep.ends_pure.mp h).1]

/-- A log that does not change has one record of an offset. -/
theorem ChangeOf.eq_of_offset_eq {database : String} {filter : TableFilter}
    {listing : List ListedInstance} {server later : CapturedServer}
    {record other : ChangeRecord .sqlserver} (hchanges : later.changes = server.changes)
    (h : ChangeOf (Rules.fixed columns) (Registry.captured database filter listing) server record)
    (h' : ChangeOf (Rules.fixed columns) (Registry.captured database filter listing) later other)
    (hoffset : record.offset = other.offset) : record = other := by
  obtain @⟨planned, row, hmem, _, _, ⟨_, _, hschema⟩, hrow, _, hstands⟩ := h
  obtain @⟨planned', row', hmem', _, _, ⟨_, _, hschema'⟩, hrow', _, hstands'⟩ := h'
  rw [hchanges] at hrow' hstands'
  have hrows : row.offset planned.window.label = row'.offset planned'.window.label := by
    rw [← hstands.offset_eq, ← hstands'.offset_eq, hoffset]
  have hsource : planned.window.source = planned'.window.source :=
    Registry.eq_of_label_captured hmem hmem' (congrArg Offset.origin hrows)
  rw [← hsource] at hrow' hstands' hschema'
  have hsorted := server.ordered planned.window.source.name
  have hkeys : row.compareKeys row' = .eq := by
    change (row.offset planned.window.label).compareKey (row'.offset planned'.window.label) = .eq
    rw [hrows]
    exact Std.ReflCmp.compare_self
  obtain rfl := eq_of_compare_eq hsorted hrow hrow' hkeys
  apply hstands.unique hsorted hsource _ hstands'
  rw [columns_eq_of_ends_resolveSchema hschema, columns_eq_of_ends_resolveSchema hschema']

/-! ## Runs up to the same position -/

namespace Streamer

section Runs

variable {config config' : Configuration} {database : String} {hasStore hasStore' : Bool}
  {server : CapturedServer} {store store' : OffsetMap .sqlserver} {start : Lsn}
  {resumed : Option (Offset .sqlserver)} {s s' : Streamer} {w w' : World}

/-- What one run has acknowledged before the next position of another, that one has acknowledged too. -/
theorem Polls.mem_records (hfilter : config'.tableFilter = config.tableFilter)
    (hstops : server.WithinStops (Registry.captured database config.tableFilter server.listing))
    (hpolls : Polls (Rules.fixed columns) { ofConfiguration config database hasStore with
      tracker := ⟨resumed⟩, nextFrom := start } { server, store } s w)
    (hpolls' : Polls (Rules.fixed columns) { ofConfiguration config' database hasStore' with
      tracker := ⟨resumed⟩, nextFrom := start } { server, store := store' } s' w')
    {record : ChangeRecord .sqlserver} (hrecord : record ∈ w.records)
    (hpast : record.position < s.nextFrom) (hpast' : record.position < s'.nextFrom) :
    record ∈ w'.records := by
  have hrules := Rules.lawful_fixed columns
  have hchanges : w.server.changes = server.changes := hpolls.changes_eq
  have hchanges' : w'.server.changes = server.changes := hpolls'.changes_eq
  have hacknowledged : record.offset ∈ w.acknowledged :=
    w.map_offset_records ▸ mem_map_of_mem hrecord
  obtain ⟨hchange, hbegun⟩ :=
    (hpolls.acknowledged_iff hrules (hstops.of_changes_eq hchanges) hpast).mp hacknowledged
  have hother : record.offset ∈ w'.acknowledged := by
    rw [← hfilter] at hstops hchange
    rw [hpolls'.acknowledged_iff hrules (hstops.of_changes_eq hchanges') hpast']
    exact ⟨hchange.of_changes_eq (hchanges'.trans hchanges.symm), hbegun⟩
  rw [← w'.map_offset_records, mem_map] at hother
  obtain ⟨other, hother, hoffset⟩ := hother
  have hsame := hpolls'.changeOf hrules hother
  rw [hfilter] at hsame
  rwa [(hpolls.changeOf hrules hrecord).eq_of_offset_eq (hchanges'.trans hchanges.symm) hsame
    hoffset.symm]

/-- Two runs have the same records before a position that both have come to, whatever fails in them. -/
theorem Polls.records_before_eq (hfilter : config'.tableFilter = config.tableFilter)
    (hstops : server.WithinStops (Registry.captured database config.tableFilter server.listing))
    (hpolls : Polls (Rules.fixed columns) { ofConfiguration config database hasStore with
      tracker := ⟨resumed⟩, nextFrom := start } { server, store } s w)
    (hpolls' : Polls (Rules.fixed columns) { ofConfiguration config' database hasStore' with
      tracker := ⟨resumed⟩, nextFrom := start } { server, store := store' } s' w')
    {position : Lsn} (hpast : position ≤ s.nextFrom) (hpast' : position ≤ s'.nextFrom) :
    w.records.filter (·.position < position) = w'.records.filter (·.position < position) := by
  have hrules := Rules.lawful_fixed columns
  have hascending {config : Configuration} {hasStore : Bool} {store : OffsetMap .sqlserver}
      {s : Streamer} {w : World} (hpolls : Polls (Rules.fixed columns)
        { ofConfiguration config database hasStore with
          tracker := ⟨resumed⟩, nextFrom := start } { server, store } s w) :
      (w.records.filter (·.position < position)).Pairwise fun r r' =>
        compareOn ChangeRecord.offset r r' = .lt := by
    obtain ⟨_, _, htracks⟩ := hpolls.tracks hrules (InOrder.runInvariant _) tracks_of_fresh
    have horder := htracks.holds.ascending
    rw [← World.map_offset_records, pairwise_map] at horder
    exact horder.filter _
  apply eq_of_ascending (hascending hpolls) (hascending hpolls')
  intro record
  rw [mem_filter, mem_filter]
  simp only [decide_eq_true_eq]
  constructor
  · rintro ⟨hrecord, hlt⟩
    exact ⟨hpolls.mem_records hfilter hstops hpolls' hrecord (hlt.trans_le hpast)
      (hlt.trans_le hpast'), hlt⟩
  · rintro ⟨hrecord, hlt⟩
    exact ⟨hpolls'.mem_records hfilter.symm (hfilter ▸ hstops) hpolls hrecord (hlt.trans_le hpast')
      (hlt.trans_le hpast), hlt⟩

end Runs

/-! ## Polls that succeed -/

variable {rules : Rules} {s s' : Streamer} {w w' : World}

/-- Polls one after another that all succeed without being switched off. -/
inductive CleanPolls (rules : Rules) (s : Streamer) (w : World) : Streamer → World → Prop where
  | none : CleanPolls rules s w s w
  | next {s' u stats s'' u'} (h : CleanPolls rules s w s' u)
      (hpoll : Ends rules.answers (runStep pollOnce s') u (.ok stats, s'') u') (hgoing : u.Going u') :
      CleanPolls rules s w s'' u'

theorem CleanPolls.polls (h : CleanPolls rules s w s' w') : Polls rules s w s' w' := by
  induction h with
  | none => exact .none
  | next _ hpoll _ ih => exact .next ih hpoll

/-- While changes are delivered, the capture is not switched off. -/
theorem going_delivery {key : String} {records : List (ChangeRecord .sqlserver)} :
    DeliveryInvariant World.Later key records fun _ _ => w.Going where
  later h hlater := h.of_kept hlater.toKept
  skipped _ h _ := h
  acknowledged _ h _ := h.note (by simp)
  saved {_ _ _ _ u _} _ h _ hlater := by
    have hgoing := (h.note (nofun : Event.acknowledged _ ≠ .stopped)).of_kept hlater.toKept
    exact hgoing.note (by simp)

/-- A poll that succeeds without being switched off does not move back, and it acknowledges nothing at or
behind the position that is next after it. -/
theorem delivers_of_clean (hrules : rules.Lawful) (hs : s.Knows w.server)
    {stats : Option IntervalStats}
    (hpoll : Ends rules.answers (runStep pollOnce s) w (.ok stats, s') w') (hgoing : w.Going w') :
    s.nextFrom ≤ s'.nextFrom ∧ w.Delivers (·.position < s'.nextFrom) w' := by
  have halways := always_pollOnce
    (J := fun _ stream _ _ u => w.Going u ∧ w.Delivers (· ∈ stream.drain.1) u)
    hrules.calm (fun _ _ => trivial) (fun _ => trivial) fun hopening hlater =>
      ⟨(hopening.yields hrules hs).2.2.ascending, going_delivery.and (World.Delivers.delivery (fun _ => id) _),
        .of_later hlater, (World.Delivers.refl w).of_kept hlater.toKept⟩
  cases halways.post_of_ends hpoll with
  | idle hlater => exact ⟨le_rfl, (World.Delivers.refl w).of_kept hlater.toKept⟩
  | halted _ h => exact absurd hgoing h.1.not_note_stopped
  | completed hopening _ h hnext hlater =>
      obtain ⟨hfirst, _, hyields⟩ := hopening.yields hrules hs
      have hlast := (isLeast_of_ends_increment hrules hnext).1
      apply And.intro (hfirst.trans hlast.le)
      exact (h.2.of_kept hlater.toKept).mono fun record hrecord =>
        (hyields.position_le record hrecord).trans_lt hlast

/-- Polls that succeed acknowledge nothing at or behind the position that is next after them. -/
theorem CleanPolls.delivers (hrules : rules.Lawful) {past : Offset .sqlserver → Prop}
    {sources : List CaptureInstance} {B : OffsetTracker .sqlserver → World → Prop}
    (hB : RunInvariant s.offsetKey B) (h : s.Tracks past sources B w)
    (hpolls : CleanPolls rules s w s' w') : w.Delivers (·.position < s'.nextFrom) w' := by
  induction hpolls with
  | none => exact .refl w
  | next hpolls hpoll hgoing ih =>
      obtain ⟨_, _, htracks⟩ := hpolls.polls.tracks hrules hB h
      obtain ⟨hle, hdelivers⟩ := delivers_of_clean hrules htracks.knows hpoll hgoing
      exact (ih.mono fun _ hlt => hlt.trans_le hle).trans hdelivers

/-- From a start on, all that polls which succeed have acknowledged lies before the next position. -/
theorem CleanPolls.records_before (hrules : rules.Lawful) {config : Configuration} {database : String}
    {hasStore : Bool} {server : CapturedServer} {store : OffsetMap .sqlserver} {start : Lsn}
    {resumed : Option (Offset .sqlserver)}
    (hpolls : CleanPolls rules { ofConfiguration config database hasStore with
      tracker := ⟨resumed⟩, nextFrom := start } { server, store } s w) :
    w.records.filter (·.position < s.nextFrom) = w.records := by
  obtain ⟨records, hrecords, hall⟩ :=
    hpolls.delivers hrules (InOrder.runInvariant _) tracks_of_fresh
  apply filter_eq_self.mpr
  intro record hrecord
  rw [hrecords] at hrecord
  exact decide_eq_true (hall record hrecord)

end Streamer

/-- While the log and the listing do not change, and no row of a capture instance lies behind its stop,
polls that all succeed acknowledge the same records in the same order as any others up to the same
position, however many transactions their intervals take and whatever the server says of where these
end. -/
theorem acknowledged_alike_wherever_cut {columns : TableId → List Column}
    {config config' : Configuration} {database : String} {hasStore hasStore' : Bool}
    {server : CapturedServer} {store store' : OffsetMap .sqlserver} {start : Lsn}
    {resumed : Option (Offset .sqlserver)} {s s' : Streamer} {w w' : World}
    (hfilter : config'.tableFilter = config.tableFilter)
    (hstops : server.WithinStops (Registry.captured database config.tableFilter server.listing))
    (hpolls : Streamer.CleanPolls (Rules.fixed columns)
      { Streamer.ofConfiguration config database hasStore with
        tracker := ⟨resumed⟩, nextFrom := start } { server, store } s w)
    (hpolls' : Streamer.CleanPolls (Rules.fixed columns)
      { Streamer.ofConfiguration config' database hasStore' with
        tracker := ⟨resumed⟩, nextFrom := start } { server, store := store' } s' w')
    (hend : s.nextFrom = s'.nextFrom) : w.records = w'.records := by
  have hrules := Rules.lawful_fixed columns
  have hbefore := hpolls.polls.records_before_eq hfilter hstops hpolls'.polls le_rfl hend.le
  rw [hpolls.records_before hrules, hend, hpolls'.records_before hrules] at hbefore
  exact hbefore

/-! ## A sample -/

namespace Sample

open CaptureStep Streamer

def fixedRules : Rules := Rules.fixed fun _ => schema.columns

theorem lenient : Lenient fixedRules := ⟨fun _ => rfl, fun h => h⟩

/-- An interval has one transaction only. -/
def capped : Configuration := { configuration with maxTransactions := 1 }

def begun (config : Configuration) : Streamer :=
  { Streamer.ofConfiguration config "shop" true with tracker := ⟨none⟩, nextFrom := .ofNat 2 }

/-- The row at a position was acknowledged, and its offset was saved. -/
def savedAt (w : World) (position : Nat) : World :=
  (w.note (.acknowledged (record "orders" position))).save configuration.offsetKey
    (record "orders" position).offset

def firstSaved : World := savedAt (world (.ofNat 20) []) 5

def bothSaved : World := savedAt firstSaved 15

def relisted : RegistryDiff := RegistrySnapshot.reconcile {} [source "orders"]

/-- The streamer after an interval that ended with a row. -/
def afterInterval (config : Configuration) (diff : RegistryDiff) (first last position : Nat) : Streamer :=
  { begun config with
    tracker := ⟨some (record "orders" position).offset⟩, registry := diff.snapshot
    registryStale := false, lastFrom := .ofNat first, nextFrom := .ofNat (last + 1) }

/-- All is captured up to a position, and only that is remembered. -/
theorem answers_maxLsn (w : World) :
    fixedRules.answers w (.server .maxLsn) (Except.ok (.ofNat 20) : Except CaptureError Lsn)
      { w with server := w.server.report (.ofNat 20) } := ⟨_, rfl, ⟨trivial, trivial⟩, rfl⟩

theorem ends_relist {s : Streamer} {w : World} {last : Lsn}
    (hs : s = begun configuration ∨ s = begun capped) (hw : w.server.listing = server.listing) :
    Ends fixedRules.answers (reconcileRegistry s last).run w (.ok relisted) w := by
  have hlisting : fixedRules.answers w (.server .listInstances)
      (Except.ok server.listing : Except CaptureError (List ListedInstance)) w :=
    answers_of_documented lenient
      ⟨fun rows hok => by rw [hw, Except.ok.inj hok], trivial⟩ rfl
  rcases hs with rfl | rfl <;> exact .ask hlisting (.refl _ _)

theorem not_covers_of_none (s : Streamer) (position : Nat) (hs : s.tracker = ⟨none⟩) :
    ¬ s.tracker.Covers (record "orders" position).offset := by
  rw [hs]
  rintro ⟨_, hcommitted, _⟩
  cases hcommitted

/-- The second row comes behind the first. -/
theorem not_covers_second :
    ¬ (⟨some (record "orders" 5).offset⟩ : OffsetTracker .sqlserver).Covers
      (record "orders" 15).offset := by
  rintro ⟨_, hcommitted, hcovers⟩
  cases hcommitted
  revert hcovers
  decide +kernel

/-- Both rows are in one interval. -/
theorem ends_pollOnce_whole :
    Ends fixedRules.answers (runStep pollOnce (begun configuration)) { server, store := ∅ }
      (.ok (some { first := .ofNat 2, last := .ofNat 20, windows := 1, delivered := 2, skipped := 0
                   caughtUp := true }), afterInterval configuration relisted 2 20 15)
      bothSaved := by
  have hrecords : (streamOf 2 20 (row 5) [row 15]).drain.1 =
      [record "orders" 5, record "orders" 15] := by decide +kernel
  have hfailure : (streamOf 2 20 (row 5) [row 15]).drain.2.1 = none := by decide +kernel
  have hdelivered : Ends fixedRules.answers
      (runStep (deliverRecords { resume := { resumeAfter := none } }
        [record "orders" 5, record "orders" 15]) { begun configuration with registryStale := true })
      (world (.ofNat 20) [])
      (.ok { resume := { resumeAfter := none }, delivered := 2 },
        { begun configuration with
          tracker := ⟨some (record "orders" 15).offset⟩, registryStale := true })
      bothSaved :=
    ends_deliverRecords_cons lenient rfl (not_covers_of_none _ _ rfl) rfl
      (ends_deliverRecords_cons lenient rfl not_covers_second rfl (.refl _ _))
  have hnext : (.ofNat 20 : Lsn) < .ofNat 21 ∧ ∀ p : Lsn, .ofNat 20 < p → .ofNat 21 ≤ p :=
    ⟨by decide, fun p hp => hp⟩
  have hend : Ends fixedRules.answers (intervalEnd 0 (.ofNat 2) (.ofNat 20)).run (world (.ofNat 20) [])
      (.ok (.ofNat 20)) (world (.ofNat 20) []) := .refl _ _
  apply ends_pollOnce_of lenient rfl (by decide) (answers_maxLsn _) hend (ends_relist (.inl rfl) rfl)
  apply ends_deliverInterval_of lenient rfl (ends_plan_of (.refl _ _))
    (show _ = row 5 :: [row 15] by decide)
  exact ends_deliverStream_of (s := { begun configuration with registryStale := true }) lenient
    hrecords hfailure hdelivered rfl hnext

/-- The first row alone is in one interval. -/
theorem ends_pollOnce_first :
    Ends fixedRules.answers (runStep pollOnce (begun capped)) { server, store := ∅ }
      (.ok (some { first := .ofNat 2, last := .ofNat 10, windows := 1, delivered := 1, skipped := 0
                   caughtUp := false }), afterInterval capped relisted 2 10 5)
      firstSaved := by
  have hrecords : (streamOf 2 10 (row 5) []).drain.1 = [record "orders" 5] := by decide +kernel
  have hfailure : (streamOf 2 10 (row 5) []).drain.2.1 = none := by decide +kernel
  have hnth : fixedRules.answers (world (.ofNat 20) []) (.server (.nthTransactionLsn (.ofNat 2) 1))
      (Except.ok (.ofNat 10) : Except CaptureError Lsn) (world (.ofNat 20) []) := by
    refine answers_of_documented lenient ⟨fun lsn hlsn => ?_, trivial⟩ rfl
    cases hlsn
    exact .inr (by decide)
  have hend : Ends fixedRules.answers (intervalEnd 1 (.ofNat 2) (.ofNat 20)).run (world (.ofNat 20) [])
      (.ok (.ofNat 10)) (world (.ofNat 20) []) := .ask hnth (.refl _ _)
  apply ends_pollOnce_of lenient rfl (by decide) (answers_maxLsn _) hend (ends_relist (.inr rfl) rfl)
  apply ends_deliverInterval_of lenient rfl (ends_plan_of (.refl _ _)) (show _ = row 5 :: [] by decide)
  exact ends_deliverStream_of_one lenient rfl hrecords hfailure (not_covers_of_none _ _ rfl)
    ⟨by decide, fun p hp => hp⟩

def reread : RegistryDiff := relisted.snapshot.reconcile relisted.snapshot.toList

/-- The second row alone is in the next interval. -/
theorem ends_pollOnce_second :
    Ends fixedRules.answers (runStep pollOnce (afterInterval capped relisted 2 10 5)) firstSaved
      (.ok (some { first := .ofNat 11, last := .ofNat 20, windows := 1, delivered := 1, skipped := 0
                   caughtUp := true }), afterInterval capped reread 11 20 15)
      bothSaved := by
  have hrecords : (streamOf 11 20 (row 15) []).drain.1 = [record "orders" 15] := by decide +kernel
  have hfailure : (streamOf 11 20 (row 15) []).drain.2.1 = none := by decide +kernel
  have hnth : fixedRules.answers firstSaved
      (.server (.nthTransactionLsn (.ofNat 11) 1)) (Except.ok .null : Except CaptureError Lsn)
      firstSaved := by
    refine answers_of_documented lenient ⟨fun lsn hlsn => ?_, trivial⟩ rfl
    cases hlsn
    exact .inl rfl
  have hnames : fixedRules.answers firstSaved
      (.server (.listNewInstances (.ofNat 2) (.ofNat 20)))
      (Except.ok [] : Except CaptureError (List String)) firstSaved := by
    refine answers_of_documented lenient ⟨fun names hok name => ?_, trivial⟩ rfl
    cases hok
    -- the only instance starts before the last interval
    simp only [not_mem_nil, false_iff]
    rintro ⟨listed, hlisted, _, start, hstart, _, hrange⟩
    obtain rfl := mem_singleton.mp hlisted
    cases hstart
    exact absurd hrange (by decide)
  have hreconcile : Ends fixedRules.answers
      (reconcileRegistry (afterInterval capped relisted 2 10 5) (.ofNat 20)).run firstSaved
      (.ok reread) firstSaved := by
    rw [reconcileRegistry, if_neg (by decide +kernel)]
    refine CaptureStep.ends_bind_ok.mpr ⟨[], _, ?_, CaptureStep.ends_pure.mpr ⟨rfl, rfl⟩⟩
    exact CaptureStep.ends_bind_ok.mpr
      ⟨_, _, ends_mapError_ok.mpr (ends_request.mpr hnames), .refl _ _⟩
  have hend : Ends fixedRules.answers (intervalEnd 1 (.ofNat 11) (.ofNat 20)).run
      firstSaved (.ok (.ofNat 20)) firstSaved :=
    .ask hnth (.refl _ _)
  apply ends_pollOnce_of lenient rfl (by decide) (answers_maxLsn _) hend hreconcile
  apply ends_deliverInterval_of lenient (by decide +kernel) (ends_plan_of (.refl _ _))
    (show _ = row 15 :: [] by decide)
  exact ends_deliverStream_of_one lenient rfl hrecords hfailure not_covers_second
    ⟨by decide, fun p hp => hp⟩

theorem withinStops :
    server.WithinStops (Registry.captured "shop" configuration.tableFilter server.listing) := by
  intro ci hci row _
  rw [captured_eq, mem_singleton] at hci
  subst hci
  exact .inl rfl

end Sample

open Sample in
/-- Both rows are acknowledged in one interval and in two. -/
theorem acknowledged_alike_wherever_cut_of_sample :
    ∃ w w' : World, w.records = [record "orders" 5, record "orders" 15] ∧ w.records = w'.records ∧
      Streamer.CleanPolls fixedRules (begun configuration) { server, store := ∅ }
        (afterInterval configuration relisted 2 20 15) w ∧
      Streamer.CleanPolls fixedRules (begun capped) { server, store := ∅ }
        (afterInterval capped reread 11 20 15) w' := by
  have hgoing {w w' : World} (h : w.Going w') (position : Nat) : w.Going (savedAt w' position) :=
    ((h.note (by simp)).note (by simp) : w.Going (World.note _ (.saved configuration.offsetKey _)))
  have hstart : World.Going { server, store := ∅ } (world (.ofNat 20) []) := ⟨[], rfl, not_mem_nil⟩
  have hrefl (w : World) : w.Going w := ⟨[], (append_nil _).symm, not_mem_nil⟩
  have hwhole := Streamer.CleanPolls.none.next ends_pollOnce_whole (hgoing (hgoing hstart 5) 15)
  have hcut := (Streamer.CleanPolls.none.next ends_pollOnce_first (hgoing hstart 5)).next
    ends_pollOnce_second (hgoing (hrefl _) 15)
  have hfilter : capped.tableFilter = configuration.tableFilter := rfl
  refine ⟨_, _, rfl, ?_, hwhole, hcut⟩
  exact acknowledged_alike_wherever_cut hfilter withinStops hwhole hcut rfl

end ChangeCapture
