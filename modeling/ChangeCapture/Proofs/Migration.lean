import ChangeCapture.Proofs.Forgetting
import ChangeCapture.Proofs.GrowingListings
import ChangeCapture.Proofs.Records

/-! # Moving on to a newer capture instance

While an interval is read again, a newer instance of a table may have taken over. The filter that passes
over what was committed goes by the names of the instances where position, sequence and operation are
those of the last commit, so that the change there is acknowledged again if the newer instance comes
later by its name. -/

namespace ChangeCapture

open List
open Program (Ends)

/-! ## What a change is -/

/-- What a change is, wherever it was read from. -/
def ChangeRecord.identity (record : ChangeRecord .sqlserver) :
    TableId × Lsn × Sequence .sqlserver × UInt8 :=
  (record.table, record.position, record.sequence, record.opCode)

section

variable {rules : Rules} {sources : List CaptureInstance} {server later : CapturedServer}
  {record other : ChangeRecord .sqlserver} {table : TableId} {lsn : Lsn}

theorem ChangeRecord.identity_eq_iff : record.identity = other.identity ↔
    record.table = other.table ∧ record.offset.compareKey other.offset = .eq := by
  constructor
  · intro h
    obtain ⟨htable, hposition, hsequence, hop⟩ : record.table = other.table ∧
        record.position = other.position ∧ record.sequence = other.sequence ∧
        record.opCode = other.opCode := by simpa [identity] using h
    simp [htable, Offset.compareKey, offset, hposition, hsequence, hop]
  · rintro ⟨htable, hkey⟩
    obtain ⟨hposition, hsequence, hop⟩ := Offset.eq_of_compareKey hkey
    exact Prod.ext htable (Prod.ext hposition (Prod.ext hsequence hop))

/-- Records of the same change differ in where they were read from only. -/
theorem ChangeRecord.offset_eq_of_identity_eq (h : record.identity = other.identity)
    (horigin : record.origin = other.origin) : record.offset = other.offset := by
  obtain ⟨hposition, hsequence, hop⟩ := Offset.eq_of_compareKey (identity_eq_iff.mp h).2
  exact Offset.ext hposition hsequence hop horigin

/-! ## Newest instances -/

/-- The instances of a table start at different positions. -/
def StartApart (sources : List CaptureInstance) : Prop :=
  ∀ ci ∈ sources, ∀ cj ∈ sources, ci.table = cj.table → ci.startLsn = cj.startLsn → ci = cj

theorem Planner.Newest.unique {source source' : CaptureInstance} (hapart : StartApart sources)
    (h : Planner.Newest sources table lsn source) (h' : Planner.Newest sources table lsn source') :
    source = source' := by
  apply hapart _ h.mem _ h'.mem (h.table_eq.trans h'.table_eq.symm)
  exact le_antisymm (h'.le _ h.mem h.table_eq h.started) (h.le _ h'.mem h'.table_eq h'.started)

/-- A change is read from the newest instance of its table at its position. -/
theorem ChangeOf.exists_newest (hnames : (sources.map CaptureInstance.name).Nodup)
    (h : ChangeOf rules sources server record) :
    ∃ source, Planner.Newest sources record.table record.position source ∧
      record.origin = source.label := by
  obtain ⟨hmem, hstarted, hcurrent, _, _, _, hstands⟩ := h
  have hposition := congrArg Offset.position hstands.offset_eq
  refine ⟨_, ?_, congrArg Offset.origin hstands.offset_eq⟩
  rw [hstands.table_eq]
  change Planner.Newest _ _ record.offset.position _
  rw [hposition]
  exact (Planner.newest_iff hnames hmem hstarted).mpr hcurrent

/-- Records of one change that are read from the same listing are read from the same instance. -/
theorem ChangeOf.offset_eq (hnames : (sources.map CaptureInstance.name).Nodup)
    (hapart : StartApart sources) (h : ChangeOf rules sources server record)
    (h' : ChangeOf rules sources later other) (hsame : record.identity = other.identity) :
    record.offset = other.offset := by
  obtain ⟨source, hnewest, horigin⟩ := h.exists_newest hnames
  obtain ⟨source', hnewest', horigin'⟩ := h'.exists_newest hnames
  have htable : record.table = other.table := congrArg Prod.fst hsame
  have hposition : record.position = other.position := congrArg (fun i => i.2.1) hsame
  rw [htable, hposition] at hnewest
  apply ChangeRecord.offset_eq_of_identity_eq hsame
  rw [horigin, horigin', hnewest.unique hapart hnewest']

theorem Registry.nodup_names_captured (database : String) (filter : TableFilter)
    (listing : List ListedInstance) :
    ((captured database filter listing).map CaptureInstance.name).Nodup := by
  unfold captured
  split
  · exact nodup_names_values (keyed_byName _)
  · exact .nil

/-! ## Migrations -/

/-- A later listing has one more instance of captured tables, which starts behind the others of its table
and has recorded from its start on what these have recorded. -/
structure CapturedServer.Migrates (database : String) (filter : TableFilter)
    (server later : CapturedServer) (new : CaptureInstance) : Prop where
  mem_iff : ∀ ci, ci ∈ Registry.captured database filter later.listing ↔
    ci = new ∨ ci ∈ Registry.captured database filter server.listing
  newest : ∀ ci ∈ Registry.captured database filter server.listing, ci.table = new.table →
    ci.startLsn < new.startLsn
  apart : StartApart (Registry.captured database filter server.listing)
  live : new.stopLsn.isNull
  mirrored : ∀ ci ∈ Registry.captured database filter server.listing, ci.table = new.table →
    ∀ row ∈ server.changes ci.name, new.startLsn ≤ row.startLsn →
      ∃ row' ∈ later.changes new.name, row'.compareKeys row = .eq

/-- Two change tables hold changes of the same positions, sequences and operations from some position on. -/
def CapturedServer.AgreeFrom (server : CapturedServer) (start : Lsn) (name name' : String) : Prop :=
  ((server.changes name).filter (start ≤ ·.startLsn)).map (ChangeRow.offset · "") =
    ((server.changes name').filter (start ≤ ·.startLsn)).map (ChangeRow.offset · "")

namespace CapturedServer.Migrates

variable {database : String} {filter : TableFilter} {new source : CaptureInstance}

theorem mem (h : server.Migrates database filter later new) :
    new ∈ Registry.captured database filter later.listing := (h.mem_iff new).mpr (.inl rfl)

theorem apart_later (h : server.Migrates database filter later new) :
    StartApart (Registry.captured database filter later.listing) := by
  intro ci hci cj hcj htable hstart
  rcases (h.mem_iff ci).mp hci with rfl | hci
  · rcases (h.mem_iff cj).mp hcj with rfl | hcj
    · rfl
    · exact absurd hstart.symm (h.newest cj hcj htable.symm).ne
  · rcases (h.mem_iff cj).mp hcj with rfl | hcj
    · exact absurd hstart (h.newest ci hci htable).ne
    · exact h.apart ci hci cj hcj htable hstart

/-- What is not read from the new instance is read from where it was read before. -/
theorem newest_before (h : server.Migrates database filter later new)
    (hnewest : Planner.Newest (Registry.captured database filter later.listing) table lsn source)
    (hne : source ≠ new) :
    Planner.Newest (Registry.captured database filter server.listing) table lsn source where
  mem := ((h.mem_iff source).mp hnewest.mem).resolve_left hne
  table_eq := hnewest.table_eq
  started := hnewest.started
  le other hother := hnewest.le other ((h.mem_iff other).mpr (.inr hother))

/-- From its start on the new instance owns the changes of its table. -/
theorem owns (h : server.Migrates database filter later new) (hlsn : new.startLsn ≤ lsn) :
    Planner.Owns (Registry.captured database filter later.listing) new lsn := by
  refine ⟨h.mem, hlsn, .inl h.live, fun cutoff hcut => ?_⟩
  obtain ⟨⟨other, hother, hsupersedes, _⟩, _⟩ := Planner.supersededAt?_eq_some.mp hcut
  obtain ⟨htable, hname, _, hlater⟩ := Planner.supersedes_iff.mp hsupersedes
  rcases (h.mem_iff other).mp hother with rfl | hother
  · exact absurd rfl hname
  · exact absurd hlater (h.newest other hother htable).not_gt

end CapturedServer.Migrates

/-! ## What is committed -/

/-- What was acknowledged is covered by the last commit, and what is acknowledged from then on comes
behind it. -/
theorem Offset.same_key_of_covers {c o p : Offset .sqlserver} (hcovers : c.covers o)
    (hlt : compare c p = .lt) (hsame : o.compareKey p = .eq) :
    o.compareKey c = .eq ∧ compare c.origin p.origin = .lt := by
  rcases Offset.compare_eq_lt.mp hlt with hkey | ⟨hkey, horigin⟩
  · have hbehind : o.compareKey c ≠ .gt := by
      rcases Offset.covers_iff.mp hcovers with h | ⟨h, _⟩ <;> simp [h]
    have hgt := Std.TransCmp.gt_of_eq_of_gt hsame (Std.OrientedCmp.gt_of_lt hkey)
    exact absurd hgt hbehind
  · exact ⟨Std.TransCmp.eq_trans hsame (Std.OrientedCmp.eq_symm hkey), horigin⟩

namespace Streamer

variable {s s' : Streamer} {w w' : World}

theorem Polls.mem_changes (hpolls : Polls .documented s w s' w') {name : String} {row : ChangeRow}
    (hrow : row ∈ w.server.changes name) : row ∈ w'.server.changes name := by
  induction hpolls with
  | none => exact hrow
  | next _ hpoll ih => exact Rules.mem_changes_of_leads hpoll ih

end Streamer

/-! ## Changes that are acknowledged twice -/

/-- A change of the table of a new instance was acknowledged where the last commit is, and the new instance
comes later by its label than the source of that commit. -/
def CaptureInstance.Repeats (new : CaptureInstance) (committed : Offset .sqlserver) (w : World) : Prop :=
  ∃ record ∈ w.records, record.table = new.table ∧ record.offset.compareKey committed = .eq ∧
    compare committed.origin new.label = .lt

section Repeats

variable {database : String} {filter : TableFilter} {new : CaptureInstance} {w w' : World}
  {committed : Offset .sqlserver} {done rest : List (ChangeRecord .sqlserver)}

/-- Records that were acknowledged before and after a migration are of different changes but for the one
case. -/
theorem nodup_identity (hmigrates : server.Migrates database filter later new)
    (hrecords : w'.records = w.records ++ rest)
    (hascending : w'.acknowledged.Pairwise fun o p => compare o p = .lt)
    (hdone : ∀ record ∈ w.records,
      ChangeOf rules (Registry.captured database filter server.listing) w.server record)
    (hrest : ∀ record ∈ rest,
      ChangeOf rules (Registry.captured database filter later.listing) w'.server record)
    (hcommitted : committed.origin ≠ "")
    (hcovers : ∀ record ∈ w.records, committed.covers record.offset)
    (hbehind : ∀ record ∈ rest, compare committed record.offset = .lt)
    (hnot : ¬ new.Repeats committed w) : (w'.records.map ChangeRecord.identity).Nodup := by
  have hoffsets : (w'.records.map ChangeRecord.offset).Nodup := by
    rw [w'.map_offset_records]
    exact hascending.imp fun hlt heq => by cases (heq ▸ hlt).symm.trans Std.ReflOrd.compare_self
  have hnames := Registry.nodup_names_captured database filter
  have hacross : ∀ record ∈ w.records, ∀ other ∈ rest, record.identity ≠ other.identity := by
    intro record hrecord other hother hsame
    obtain ⟨hkey, horigin⟩ := Offset.same_key_of_covers (hcovers record hrecord)
      (hbehind other hother) (ChangeRecord.identity_eq_iff.mp hsame).2
    obtain ⟨source, hnewest, hsource⟩ := (hdone record hrecord).exists_newest (hnames _)
    obtain ⟨source', hnewest', hsource'⟩ := (hrest other hother).exists_newest (hnames _)
    have htable : record.table = other.table := congrArg Prod.fst hsame
    have hposition : record.position = other.position := congrArg (fun i => i.2.1) hsame
    by_cases hnew : source' = new
    · subst hnew
      refine hnot ⟨record, hrecord, htable.trans hnewest'.table_eq.symm, hkey, ?_⟩
      exact hsource' ▸ horigin
    · -- the change would have been read from the same instance before
      have hsame' := hmigrates.newest_before hnewest' hnew
      rw [← htable, ← hposition] at hsame'
      have hoffset := ChangeRecord.offset_eq_of_identity_eq hsame
        (by rw [hsource, hsource', hnewest.unique hmigrates.apart hsame'])
      have hlt := hbehind other hother
      rw [← hoffset] at hlt
      exact Offset.not_covers_of_compare_lt hcommitted hlt (hcovers record hrecord)
  refine Nodup.map_on (fun record hrecord other hother hsame => ?_) (Nodup.of_map _ hoffsets)
  apply inj_on_of_nodup_map hoffsets hrecord hother
  rw [hrecords] at hrecord hother
  rcases mem_append.mp hrecord with hrecord | hrecord
  · rcases mem_append.mp hother with hother | hother
    · exact (hdone record hrecord).offset_eq (hnames _) hmigrates.apart (hdone other hother) hsame
    · exact absurd hsame (hacross record hrecord other hother)
  · rcases mem_append.mp hother with hother | hother
    · exact absurd hsame.symm (hacross other hother record hrecord)
    · exact (hrest record hrecord).offset_eq (hnames _) hmigrates.apart_later (hrest other hother) hsame

/-- In that one case the new instance has a change where the last commit is, which is behind it. -/
theorem CaptureInstance.Repeats.exists_change (hrepeats : new.Repeats committed w)
    (hmigrates : w.server.Migrates database filter later new)
    (hdone : ∀ record ∈ w.records,
      ChangeOf rules (Registry.captured database filter w.server.listing) w.server record)
    (hstart : new.startLsn ≤ committed.position) :
    ∃ record ∈ w.records, ∃ row ∈ later.changes new.name, record.table = new.table ∧
      row.Completes ∧ (row.offset new.label).compareKey record.offset = .eq ∧
      row.startLsn = committed.position ∧ compare committed (row.offset new.label) = .lt := by
  obtain ⟨record, hrecord, htable, hkey, horigin⟩ := hrepeats
  obtain ⟨hmem, _, _, _, hrow, _, hstands⟩ := hdone record hrecord
  have hoffset := hstands.offset_eq
  have hposition := (Offset.eq_of_compareKey hkey).1
  rw [hoffset] at hposition
  obtain ⟨row, hnew, hkeys⟩ := hmigrates.mirrored _ hmem (hstands.table_eq.symm.trans htable) _ hrow
    (hstart.trans hposition.ge)
  have hsame : (row.offset new.label).compareKey record.offset = .eq := by
    rw [hoffset]
    exact hkeys
  obtain ⟨hlsn, _, hop⟩ := Offset.eq_of_compareKey hsame
  rw [hoffset] at hlsn hop
  refine ⟨record, hrecord, row, hnew, htable, ?_, hsame, hlsn.trans hposition, ?_⟩
  · obtain ⟨operation, hof, hne⟩ := hstands.completes
    exact ⟨operation, (congrArg RowOperation.ofCode? hop).trans hof, hne⟩
  · rw [Offset.compare_eq_lt]
    exact .inr ⟨Std.OrientedCmp.eq_symm (Std.TransCmp.eq_trans hsame hkey), horigin⟩

/-- Once the new instance's copy of a change that was acknowledged is acknowledged as well, the change has
been acknowledged twice. -/
theorem not_nodup_identity {record : ChangeRecord .sqlserver} {row : ChangeRow}
    (hmigrates : server.Migrates database filter later new)
    (hrecords : w'.records = w.records ++ rest)
    (hrest : ∀ record ∈ rest,
      ChangeOf rules (Registry.captured database filter later.listing) w'.server record)
    (hcommitted : committed.origin ≠ "")
    (hcovers : ∀ record ∈ w.records, committed.covers record.offset)
    (hrecord : record ∈ w.records) (htable : record.table = new.table)
    (hkey : (row.offset new.label).compareKey record.offset = .eq)
    (hbehind : compare committed (row.offset new.label) = .lt)
    (hacknowledged : row.offset new.label ∈ w'.acknowledged) :
    ¬ (w'.records.map ChangeRecord.identity).Nodup := by
  intro hnodup
  rw [← w'.map_offset_records, mem_map] at hacknowledged
  obtain ⟨other, hother, hoffset⟩ := hacknowledged
  -- the copy lies behind the commit, so it is another record than the first one
  have huncovered : ¬ committed.covers other.offset :=
    Offset.not_covers_of_compare_lt hcommitted (hoffset ▸ hbehind)
  have hmem : other ∈ rest := by
    rw [hrecords] at hother
    exact (mem_append.mp hother).resolve_left fun hearly => huncovered (hcovers other hearly)
  obtain ⟨source, hnewest, horigin⟩ :=
    (hrest other hmem).exists_newest (Registry.nodup_names_captured _ _ _)
  have hlabel : source.label = new.label := horigin.symm.trans (congrArg Offset.origin hoffset)
  obtain rfl := Registry.eq_of_label_captured hnewest.mem hmigrates.mem hlabel
  have hsame : other.identity = record.identity :=
    ChangeRecord.identity_eq_iff.mpr ⟨hnewest.table_eq.symm.trans htable.symm, hoffset ▸ hkey⟩
  have heq := inj_on_of_nodup_map hnodup hother (hrecords ▸ mem_append_left _ hrecord) hsame
  exact huncovered (heq ▸ hcovers record hrecord)

end Repeats

end

/-- An interval that failed is read again while a new instance takes over, both instances having recorded
the same changes from its start on. No change is acknowledged twice, unless a change of the table was
acknowledged where the last commit is, and the new instance comes later by its label than the source of
that commit. Then that change is acknowledged twice once its interval is completed. -/
theorem acknowledged_twice_iff_later_label {config : Configuration} {database : String}
    {hasStore : Bool} {server later : CapturedServer} {store : OffsetMap .sqlserver} {start : Lsn}
    {resumed : Option (Offset .sqlserver)} {s s' : Streamer} {w w' : World} {new : CaptureInstance}
    {committed : Offset .sqlserver}
    (hpolls : Streamer.Polls Rules.documented
      { Streamer.ofConfiguration config database hasStore with
        tracker := ⟨resumed⟩, nextFrom := start } { server, store } s w)
    (hstale : s.registryStale = true) (hcommitted : s.tracker = ⟨some committed⟩)
    (hacknowledged : committed ∈ w.acknowledged) (hbegun : s.nextFrom ≤ committed.position)
    (hmigrates : w.server.Migrates database config.tableFilter later new)
    (hstart : new.startLsn ≤ committed.position)
    (hrest : Streamer.Polls Rules.documented s { w with server := later } s' w') :
    (¬ new.Repeats committed w → (w'.records.map ChangeRecord.identity).Nodup) ∧
      (new.Repeats committed w → committed.position < s'.nextFrom →
        ¬ (w'.records.map ChangeRecord.identity).Nodup) := by
  obtain ⟨hfresh, hextends, htracks⟩ :=
    hpolls.tracks Rules.lawful_documented (InOrder.runInvariant _) Streamer.tracks_of_fresh
  have hdatabase : s.database = database := congrArg Streamer.database hfresh
  have hfilter : s.filter = config.tableFilter := congrArg Streamer.filter hfresh
  -- what was acknowledged before the migration
  have hdone : ∀ record ∈ w.records, ChangeOf Rules.documented
      (Registry.captured database config.tableFilter w.server.listing) w.server record := by
    obtain ⟨records, hrecords, hall⟩ :=
      hpolls.delivers Rules.lawful_documented (InOrder.runInvariant _) Streamer.tracks_of_fresh
    rw [hrecords, hextends.listing]
    exact hall
  have horder := htracks.holds
  have hcovers : ∀ record ∈ w.records, committed.covers record.offset := by
    intro record hrecord
    have hmem : record.offset ∈ w.acknowledged :=
      w.map_offset_records ▸ mem_map_of_mem (f := ChangeRecord.offset) hrecord
    obtain ⟨_, hc, hcovers⟩ := horder.covered _ hmem
    rw [hcommitted] at hc
    cases hc
    exact hcovers
  have hne : committed.origin ≠ "" := by
    obtain ⟨record, _, rfl⟩ := World.mem_acknowledged.mp hacknowledged
    exact record.origin_ne_empty
  -- what is acknowledged from then on, as if nothing had been known
  subst hdatabase
  rw [← hfilter] at hmigrates hdone
  have hforgotten := Streamer.tracks_of_stale horder later
  obtain ⟨t, hforgets, hpolls'⟩ := hrest.forgetting (.stale hstale {})
  obtain ⟨_, _, htracks'⟩ :=
    hpolls'.tracks Rules.lawful_documented (InOrder.runInvariant _) hforgotten
  obtain ⟨rest, hrecords, hlater⟩ :=
    hpolls'.delivers Rules.lawful_documented (InOrder.runInvariant _) hforgotten
  replace hrecords : w'.records = w.records ++ rest := hrecords
  have hascending := htracks'.holds.ascending
  have hbehind : ∀ record ∈ rest, compare committed record.offset = .lt := by
    intro record hrecord
    rw [← World.map_offset_records, hrecords, map_append, pairwise_append] at hascending
    refine hascending.2.2 committed ?_ record.offset (mem_map_of_mem hrecord)
    rw [← w.map_offset_records] at hacknowledged
    exact hacknowledged
  constructor
  · intro hnot
    exact nodup_identity hmigrates hrecords hascending hdone hlater hne hcovers hbehind hnot
  · intro hrepeats hpast
    obtain ⟨record, hrecord, row, hrow, htable, hcompletes, hkey, hlsn, hlt⟩ :=
      hrepeats.exists_change hmigrates hdone hstart
    have hchange : HasChange (Registry.captured s.database s.filter later.listing) w'.server
        (row.offset new.label) :=
      ⟨new, row, hmigrates.owns (hlsn ▸ hstart), hrest.mem_changes hrow, hcompletes, rfl⟩
    have hnew : ¬ s.tracker.Covers (row.offset new.label) := by
      rintro ⟨_, hc, hcovers⟩
      rw [hcommitted] at hc
      cases hc
      exact Offset.not_covers_of_compare_lt hne hlt hcovers
    have hsettled := htracks'.settles (row.offset new.label) ⟨hbegun.trans_eq hlsn.symm, hnew⟩
      (.inr (hforgets.nextFrom_eq ▸ hlsn.trans_lt hpast))
    exact not_nodup_identity hmigrates hrecords hlater hne hcovers hrecord htable hkey hlt
      (hsettled.acknowledged hchange)

/-! ## A sample -/

namespace Sample

open CaptureStep Streamer

/-- A newer instance of the table. -/
def newer : CaptureInstance := { source "orders_v2" with startLsn := .ofNat 12 }

/-- The newer instance is listed, and it has recorded the second row too. -/
def migratedServer : CapturedServer where
  listing := server.listing ++
    [{ schema := "dbo", table := "orders", name := "orders_v2"
       startLsn := some [0, 0, 0, 0, 0, 0, 0, 0, 0, 12], endLsn := none
       capturedColumnList := some "[id]" }]
  changes name := if name = "orders_v2" then [row 15] else server.changes name
  reported := .ofNat 20
  ordered name := by
    split
    · decide
    · exact server.ordered name

/-- The row of the interval was acknowledged. -/
def interruptedWorld : World := (world (.ofNat 20) []).note (.acknowledged (record "orders" 15))

def interrupted : Streamer := { started with tracker := ⟨some (record "orders" 15).offset⟩ }

def foundFirst : FoundInterval :=
  { first := .ofNat 11, last := .ofNat 20, bound := .ofNat 20
    diff := started.registry.reconcile [source "orders"] }

/-- After a commit the offset could not be saved. -/
theorem ends_interrupted :
    Ends Rules.documented.answers (runStep pollOnce started) (world .null [])
      (.error .connectionClosed, interrupted) interruptedWorld := by
  have hlisting : Rules.documented.answers (world (.ofNat 20) []) (.server .listInstances)
      (Except.ok server.listing : Except CaptureError (List ListedInstance)) (world (.ofNat 20) []) :=
    answers_of_documented lenient_documented
      ⟨fun rows hok => (Except.ok.inj hok).symm, trivial⟩ rfl
  have hreconcile : Ends Rules.documented.answers (reconcileRegistry started (.ofNat 20)).run
      (world (.ofNat 20) []) (.ok (started.registry.reconcile [source "orders"]))
      (world (.ofNat 20) []) := .ask hlisting (.refl _ _)
  have hdeliver : Rules.documented.answers (world (.ofNat 20) []) (.deliver (record "orders" 15))
      (Except.ok () : Except CaptureError Unit) interruptedWorld := ⟨_, .refl _, trivial, rfl⟩
  have hsave : Rules.documented.answers interruptedWorld
      (.storage (.saveOffset configuration.offsetKey (record "orders" 15).offset))
      (Except.error .connectionClosed : Except CaptureError Unit) interruptedWorld :=
    ⟨_, .refl _, trivial, .inr ⟨rfl, _, rfl⟩⟩
  have hactive : Rules.documented.answers (world (.ofNat 20) []) .isActive true
      (world (.ofNat 20) []) := ⟨_, .refl _, trivial, rfl⟩
  have h : Around 11 20 := .inl ⟨rfl, rfl⟩
  have hrecords : (stream 11 20 15 ["orders"]).drain.1 = [record "orders" 15] := by decide +kernel
  have hdelivered : Ends Rules.documented.answers
      (runStep (deliverStream (.ofNat 11) (.ofNat 20) (.ofNat 20)
        (started.registry.reconcile [source "orders"]) 1 (stream 11 20 15 ["orders"])) started)
      (world (.ofNat 20) []) (.error .connectionClosed, interrupted) interruptedWorld := by
    unfold deliverStream
    generalize (stream 11 20 15 ["orders"]).drain = drained at hrecords
    obtain ⟨records, failure, rest⟩ := drained
    cases hrecords
    exact .ask hactive (.ask hdeliver (.ask hsave (.refl _ _)))
  have hfind : Ends Rules.documented.answers (runStep findInterval started) (world .null [])
      (.ok (some foundFirst), started) (world (.ofNat 20) []) :=
    ends_findInterval_of rfl rfl (by decide) ⟨_, .refl _, trivial, rfl⟩ hreconcile
  have hdeliver := ends_deliverInterval_of lenient_documented rfl (ends_plan h) (windowRows_around rfl h)
    hdelivered
  exact ends_pollOnce_of_found hfind hdeliver

/-! ### The next poll -/

def migratedWorld : World := { interruptedWorld with server := migratedServer }

def migratedDiff : RegistryDiff := interrupted.registry.reconcile [source "orders", newer]

/-- Behind the start of the newer instance the older one is superseded. -/
def migratedPlanned : List PlannedWindow :=
  [{ window :=
       { source := source "orders", first := .ofNat 11, last := .ofNat 20, until? := some (.ofNat 12) }
     schema },
   { window := { source := newer, first := .ofNat 12, last := .ofNat 20, until? := none }
     schema }]

def migratedStream : ChangeStream :=
  { merge :=
      { labels := migratedPlanned.map fun p => p.window.label
        pending := migratedPlanned.mapIdx fun input p =>
          { input, label := p.window.label, row := row 15, rest := { rows := [] } }
        counts := [0, 0] }
    states := migratedPlanned.map fun p => { window := p.window, schema, projection := [0] } }

theorem answers_migrated {r : ServerRequest} {answer : r.Answer}
    (hanswer : (Rules.fixed fun _ => schema.columns).Serves migratedServer r answer)
    (hafter : migratedServer.afterAnswer r answer = migratedServer) :
    Rules.documented.answers migratedWorld (.server r) answer migratedWorld :=
  answers_of_documented lenient_documented hanswer hafter

theorem ends_reconcile_migrated :
    Ends Rules.documented.answers (reconcileRegistry interrupted (.ofNat 20)).run migratedWorld
      (.ok migratedDiff) migratedWorld := by
  have hlisting : Rules.documented.answers migratedWorld (.server .listInstances)
      (Except.ok migratedServer.listing : Except CaptureError (List ListedInstance)) migratedWorld :=
    answers_migrated ⟨fun rows hok => (Except.ok.inj hok).symm, trivial⟩ rfl
  have hsources : Registry.instancesOf interrupted.database interrupted.filter migratedServer.listing =
      .ok [source "orders", newer] := by decide +kernel
  rw [reconcileRegistry, if_pos (by rfl)]
  refine CaptureStep.ends_bind_ok.mpr
    ⟨[source "orders", newer], migratedWorld, ?_, CaptureStep.ends_pure.mpr ⟨rfl, rfl⟩⟩
  exact CaptureStep.ends_bind_ok.mpr ⟨_, _, ends_mapError_ok.mpr (ends_request.mpr hlisting),
    ends_ofExcept.mpr ⟨hsources.symm, rfl⟩⟩

theorem ends_plan_migrated :
    Ends Rules.documented.answers
      (Planner.plan migratedDiff.snapshot.toList (.ofNat 11) (.ofNat 20)).run migratedWorld
      (.ok (migratedPlanned.map PlannedWindow.window)) migratedWorld := by
  have hsources : migratedDiff.snapshot.toList = [source "orders", newer] := by decide +kernel
  rw [hsources]
  refine CaptureStep.ends_bind_ok.mpr ⟨migratedPlanned.map PlannedWindow.window, _, .refl _ _,
    CaptureStep.ends_pure.mpr ⟨?_, rfl⟩⟩
  rw [mergeSort_of_pairwise (by decide +kernel)]

/-- Both instances capture the same columns of the same table. -/
theorem ends_resolve_migrated :
    Ends Rules.documented.answers
      (resolveWindows (migratedPlanned.map PlannedWindow.window)).run migratedWorld
      (.ok migratedPlanned) migratedWorld := by
  have hschema : Ends Rules.documented.answers (Registry.resolveSchema (source "orders")).run
      migratedWorld (.ok schema) migratedWorld :=
    ends_resolveSchema lenient_documented
  have hnewer : Ends Rules.documented.answers (Registry.resolveSchema newer).run migratedWorld
      (.ok schema) migratedWorld := hschema
  rw [resolveWindows, migratedPlanned, map_cons, map_cons, map_nil, mapM_cons, mapM_cons, mapM_nil]
  refine CaptureStep.ends_bind_ok.mpr
    ⟨_, _, CaptureStep.ends_bind_ok.mpr ⟨_, _, hschema, .refl _ _⟩, ?_⟩
  refine CaptureStep.ends_bind_ok.mpr ⟨_, _, ?_, .refl _ _⟩
  exact CaptureStep.ends_bind_ok.mpr
    ⟨_, _, CaptureStep.ends_bind_ok.mpr ⟨_, _, hnewer, .refl _ _⟩, .refl _ _⟩

theorem ends_start_migrated :
    Ends Rules.documented.answers (ChangeStream.start migratedPlanned).run migratedWorld
      (.ok migratedStream) migratedWorld := by
  have hchanges (window : SourceWindow) (rows : List ChangeRow)
      (h : migratedServer.windowRows window = rows) :
      Rules.documented.answers migratedWorld (.server (.changes window))
        (Except.ok { rows } : Except CaptureError (Cursor ChangeRow)) migratedWorld := by
    refine answers_migrated ⟨fun cursor hcursor => ?_, trivial⟩ rfl
    cases hcursor
    exact ⟨h ▸ prefix_rfl, fun _ => h.symm⟩
  exact .ask (hchanges _ [row 15] (by decide)) (.ask (hchanges _ [row 15] (by decide)) (.refl _ _))

/-- The streamer and the world once the interval is completed. -/
def migrated : Streamer :=
  { interrupted with
    tracker := ⟨some (record "orders_v2" 15).offset⟩, registry := migratedDiff.snapshot
    registryStale := false, lastFrom := .ofNat 11, nextFrom := .ofNat 21 }

def repeatedWorld : World :=
  (migratedWorld.note (.acknowledged (record "orders_v2" 15))).save configuration.offsetKey
    (record "orders_v2" 15).offset

/-- What is committed is not taken for the same change of the newer instance. -/
theorem not_covers_migrated : ¬ interrupted.tracker.Covers (record "orders_v2" 15).offset := by
  rintro ⟨committed, hcommitted, hcovers⟩
  cases hcommitted
  revert hcovers
  decide +kernel

theorem ends_pollOnce_migrated :
    Ends Rules.documented.answers (runStep pollOnce interrupted) migratedWorld
      (.ok (some { stats with windows := 2 }), migrated) repeatedWorld := by
  have hmax : Rules.documented.answers migratedWorld (.server .maxLsn)
      (Except.ok (.ofNat 20) : Except CaptureError Lsn) migratedWorld := ⟨_, .refl _, trivial, rfl⟩
  have hrecords : migratedStream.drain.1 = [record "orders_v2" 15] := by decide +kernel
  have hfailure : migratedStream.drain.2.1 = none := by decide +kernel
  apply ends_pollOnce_of lenient_documented rfl (by decide) hmax (.refl _ _) ends_reconcile_migrated
  rw [deliverInterval_eq]
  apply ends_bind (ends_liftStep ends_plan_migrated)
  apply ends_bind (ends_liftStep ends_resolve_migrated)
  apply ends_bind (ends_liftStep ends_start_migrated)
  exact ends_deliverStream_of_one lenient_documented rfl hrecords hfailure not_covers_migrated
    ⟨by decide, fun p hp => hp⟩

theorem polls_interrupted : Polls Rules.documented
    { Streamer.ofConfiguration configuration "shop" true with
      tracker := ⟨none⟩, nextFrom := .ofNat 11 } { server, store := ∅ } interrupted interruptedWorld :=
  .next .none ends_interrupted

theorem migrates :
    interruptedWorld.server.Migrates "shop" configuration.tableFilter migratedServer newer := by
  have hbefore : Registry.captured "shop" configuration.tableFilter
      interruptedWorld.server.listing = [source "orders"] := captured_eq
  have hlater : Registry.captured "shop" configuration.tableFilter migratedServer.listing =
      [source "orders", newer] := by decide +kernel
  constructor
  · intro ci
    rw [hbefore, hlater]
    simp [or_comm]
  · intro ci hci _
    rw [hbefore, mem_singleton] at hci
    subst hci
    decide
  · intro ci hci cj hcj _ _
    rw [hbefore, mem_singleton] at hci hcj
    exact hci.trans hcj.symm
  · rfl
  · intro ci hci _ row hrow hstart
    rw [hbefore, mem_singleton] at hci
    subst hci
    rcases mem_pair.mp hrow with rfl | rfl
    · exact absurd hstart (by decide)
    · exact ⟨row 15, mem_singleton_self _, by decide⟩

end Sample

open Sample in
/-- The second row is acknowledged from either instance. -/
theorem acknowledged_twice_iff_later_label_of_sample :
    newer.Repeats (record "orders" 15).offset interruptedWorld ∧
      ¬ (repeatedWorld.records.map ChangeRecord.identity).Nodup := by
  have hrepeats : newer.Repeats (record "orders" 15).offset interruptedWorld :=
    ⟨record "orders" 15, mem_singleton_self _, rfl, Std.ReflCmp.compare_self, by decide +kernel⟩
  have hrest : Streamer.Polls Rules.documented interrupted
      { interruptedWorld with server := migratedServer } migrated repeatedWorld :=
    .next .none ends_pollOnce_migrated
  apply And.intro hrepeats
  exact (acknowledged_twice_iff_later_label polls_interrupted rfl rfl (mem_singleton_self _)
    (by decide) migrates (by decide) hrest).2 hrepeats (by decide)

open Sample in
/-- Changes are acknowledged twice though the change tables of the instances agree. -/
theorem acknowledged_again_from_newer_instance :
    ¬ ∀ {config : Configuration} {database : String} {hasStore : Bool}
      {server later : CapturedServer} {store : OffsetMap .sqlserver} {start : Lsn}
      {resumed : Option (Offset .sqlserver)} {s s' : Streamer} {w w' : World} {new : CaptureInstance}
      {committed : Offset .sqlserver},
      Streamer.Polls Rules.documented
        { Streamer.ofConfiguration config database hasStore with
          tracker := ⟨resumed⟩, nextFrom := start } { server, store } s w →
      s.registryStale = true → s.tracker = ⟨some committed⟩ → committed ∈ w.acknowledged →
      s.nextFrom ≤ committed.position →
      w.server.Migrates database config.tableFilter later new → new.startLsn ≤ committed.position →
      (∀ ci ∈ Registry.captured database config.tableFilter later.listing, ci.table = new.table →
        later.AgreeFrom new.startLsn ci.name new.name) →
      Streamer.Polls Rules.documented s { w with server := later } s' w' →
      (w'.records.map ChangeRecord.identity).Nodup := by
  intro h
  have hlater : Registry.captured "shop" configuration.tableFilter migratedServer.listing =
      [source "orders", newer] := by decide +kernel
  have hagree : ∀ ci ∈ Registry.captured "shop" configuration.tableFilter migratedServer.listing,
      ci.table = newer.table → migratedServer.AgreeFrom newer.startLsn ci.name newer.name := by
    intro ci hci _
    rw [hlater] at hci
    rcases mem_pair.mp hci with rfl | rfl <;> rfl
  have hnodup := h polls_interrupted rfl rfl (mem_singleton_self _) (by decide) migrates (by decide)
    hagree (.next .none ends_pollOnce_migrated)
  revert hnodup
  decide +kernel

end ChangeCapture
