import ChangeCapture.Proofs.LateInstances
import ChangeCapture.Proofs.Partition
import ChangeCapture.Proofs.Stream.Standing

/-! # The records that are acknowledged

Polls acknowledge records of rows that the server has, each of which belongs to the newest instance of its
table at its position. -/

namespace ChangeCapture

open List
open Program (Ends)

/-! ## Records in a history -/

def Event.record? : Event → Option (ChangeRecord .sqlserver)
  | .acknowledged record => some record
  | _ => none

/-- The records that were acknowledged so far. -/
def World.records (w : World) : List (ChangeRecord .sqlserver) := w.history.filterMap Event.record?

namespace World

theorem map_offset_records (w : World) : w.records.map ChangeRecord.offset = w.acknowledged := by
  rw [records, map_filterMap, acknowledged, acknowledgedOffsets]
  congr 1
  funext event
  cases event <;> rfl

theorem records_note (w : World) (event : Event) :
    (w.note event).records = w.records ++ event.record?.toList := by
  rw [records, note, filterMap_append, ← records]
  cases h : event.record? <;> simp [h]

theorem records_save (w : World) (key : String) (o : Offset .sqlserver) :
    (w.save key o).records = w.records :=
  (w.records_note (.saved key o)).trans (append_nil _)

theorem Kept.records {w w' : World} (h : w.Kept w') : w'.records = w.records := by
  rw [World.records, h.history, World.records]

/-- All records that were acknowledged since have a property. -/
def Delivers (P : ChangeRecord .sqlserver → Prop) (w w' : World) : Prop :=
  ∃ later, w'.records = w.records ++ later ∧ ∀ record ∈ later, P record

namespace Delivers

variable {P P' : ChangeRecord .sqlserver → Prop} {w w' w'' : World}

theorem refl (w : World) : Delivers P w w := ⟨[], (append_nil _).symm, by simp⟩

theorem mono (h : Delivers P w w') (himp : ∀ record, P record → P' record) : Delivers P' w w' := by
  obtain ⟨later, hrecords, hall⟩ := h
  exact ⟨later, hrecords, fun record hrecord => himp record (hall record hrecord)⟩

theorem trans (h : Delivers P w w') (h' : Delivers P w' w'') : Delivers P w w'' := by
  obtain ⟨later, hrecords, hall⟩ := h
  obtain ⟨later', hrecords', hall'⟩ := h'
  refine ⟨later ++ later', by rw [hrecords', hrecords, append_assoc], fun record hrecord => ?_⟩
  exact (mem_append.mp hrecord).elim (hall record) (hall' record)

theorem of_records_eq (h : Delivers P w w') (heq : w''.records = w'.records) : Delivers P w w'' := by
  obtain ⟨later, hrecords, hall⟩ := h
  exact ⟨later, heq.trans hrecords, hall⟩

theorem of_kept (h : Delivers P w w') (hkept : w'.Kept w'') : Delivers P w w'' :=
  h.of_records_eq hkept.records

/-- Other events than an acknowledgement do not matter. -/
theorem note (h : Delivers P w w') {event : Event} (hevent : event.record? = none) :
    Delivers P w (w'.note event) :=
  h.of_records_eq ((w'.records_note event).trans (by simp [hevent]))

theorem acknowledged (h : Delivers P w w') {record : ChangeRecord .sqlserver} (hrecord : P record) :
    Delivers P w (w'.note (.acknowledged record)) := by
  obtain ⟨later, hrecords, hall⟩ := h
  refine ⟨later ++ [record], ?_, fun other hother => ?_⟩
  · rw [records_note, hrecords, append_assoc]
    rfl
  · rcases mem_append.mp hother with hother | hother
    · exact hall other hother
    · exact mem_singleton.mp hother ▸ hrecord

theorem save (h : Delivers P w w') (key : String) (o : Offset .sqlserver) :
    Delivers P w (w'.save key o) := h.of_records_eq (w'.records_save key o)

/-- While records are delivered, only such records are acknowledged. -/
theorem delivery {records : List (ChangeRecord .sqlserver)} (hrecords : ∀ record ∈ records, P record)
    (key : String) : DeliveryInvariant World.Later key records fun _ _ => w.Delivers P where
  later h hlater := h.of_kept hlater.toKept
  skipped _ h _ := h
  acknowledged hsplit h _ := h.acknowledged (hrecords _ (by simp [hsplit]))
  saved hsplit h _ hlater :=
    ((h.acknowledged (hrecords _ (by simp [hsplit]))).of_kept hlater.toKept).save key _

end Delivers

end World

/-! ## Records of rows -/

/-- The record is the change of a row that was captured. At its position no newer instance of its table
has taken over. -/
inductive ChangeOf (rules : Rules) (sources : List CaptureInstance) (server : CapturedServer)
    (record : ChangeRecord .sqlserver) : Prop where
  | intro {planned : PlannedWindow} {row : ChangeRow} (hmem : planned.window.source ∈ sources)
      (hstarted : planned.window.source.startLsn ≤ row.startLsn)
      (hcurrent : ∀ cutoff, Planner.supersededAt? planned.window.source sources = some cutoff →
        row.startLsn < cutoff)
      (hschema : ∃ v v', Ends rules.answers (Registry.resolveSchema planned.window.source).run v
        (.ok planned.schema) v')
      (hrow : row ∈ server.changes planned.window.source.name)
      (hreported : row.startLsn ≤ server.reported)
      (hstands : Stands planned (server.changes planned.window.source.name) row record)

variable {rules : Rules} {sources : List CaptureInstance} {w w' : World}

/-- What was captured stays as it is. -/
theorem ChangeOf.mono {server later : CapturedServer} (hextends : server.Extends later)
    {record : ChangeRecord .sqlserver} (h : ChangeOf rules sources server record) :
    ChangeOf rules sources later record := by
  obtain ⟨hmem, hstarted, hcurrent, hschema, hrow, hreported, hstands⟩ := h
  refine ⟨hmem, hstarted, hcurrent, hschema, (hextends.same _ _ hreported).mpr hrow,
    hreported.trans hextends.reported, hstands.congr fun before _ hbefore => ?_⟩
  exact (hextends.same _ before (hbefore.startLsn ▸ hreported)).symm

theorem OpensInterval.changeOf (hrules : rules.Lawful) {first last : Lsn} {stream : ChangeStream}
    (h : OpensInterval rules sources first last w stream w') (hlast : last ≤ w.server.reported)
    {record : ChangeRecord .sqlserver} (hrecord : record ∈ stream.drain.1) :
    ChangeOf rules sources w.server record := by
  obtain ⟨planned, row, hwindow, hschema, hrow, howns, hstands⟩ := h.stands hrules hlast hrecord
  obtain ⟨hmem, hfirst, hupper⟩ := CapturedServer.mem_windowRows.mp hrow
  have hstarted := (le_max_left _ _).trans (hwindow.lower.trans hfirst)
  have hreported := (hwindow.last_eq ▸ hupper).trans hlast
  refine ⟨hwindow.mem, hstarted, fun cutoff hcut => ?_, hschema, hmem, hreported, hstands⟩
  exact SourceWindow.owns_iff.mp howns cutoff (hwindow.until_eq.trans hcut)

namespace Streamer

variable {past : Offset .sqlserver → Prop} {B : OffsetTracker .sqlserver → World → Prop}
  {s s' : Streamer} {result : Except CaptureError (Option IntervalStats)}

theorem Opening.changeOf (hrules : rules.Lawful) {last : Lsn} {diff : RegistryDiff}
    {stream : ChangeStream} (h : Opening rules s w last diff stream w') (hs : s.Knows w.server)
    {record : ChangeRecord .sqlserver} (hrecord : record ∈ stream.drain.1) :
    ChangeOf rules (Registry.captured s.database s.filter w.server.listing) w'.server record := by
  obtain ⟨v, latest, _, hvw', _, hlast, hlatest, _, hopens⟩ := h.lawful hrules hs
  rw [Registry.captured, hlatest]
  exact (hopens.changeOf hrules hlast hrecord).mono hvw'

/-- Since a stream was opened, the log has grown, and changes of captured rows were acknowledged. -/
structure Acknowledging (rules : Rules) (sources : List CaptureInstance) (w v u : World) : Prop where
  server : v.server.Extends u.server
  delivers : w.Delivers (ChangeOf rules sources v.server) u

theorem Acknowledging.delivery {key : String} {v : World} {records : List (ChangeRecord .sqlserver)}
    (hrecords : ∀ record ∈ records, ChangeOf rules sources v.server record) :
    DeliveryInvariant World.Later key records fun _ _ => Acknowledging rules sources w v where
  later h hlater := ⟨h.server.trans hlater.server, h.delivers.of_kept hlater.toKept⟩
  skipped _ h _ := h
  acknowledged hsplit h _ := ⟨h.server, h.delivers.acknowledged (hrecords _ (by simp [hsplit]))⟩
  saved hsplit h _ hlater :=
    ⟨h.server.trans hlater.server,
      ((h.delivers.acknowledged (hrecords _ (by simp [hsplit]))).of_kept hlater.toKept).save key _⟩

/-- A poll acknowledges changes of captured rows only. -/
theorem delivers_of_ends_pollOnce (hrules : rules.Lawful) (hs : s.Knows w.server)
    (hsources : sources = Registry.captured s.database s.filter w.server.listing)
    (hpoll : Ends rules.answers (runStep pollOnce s) w (result, s') w') :
    w.Delivers (ChangeOf rules sources w'.server) w' := by
  subst hsources
  have halways := always_pollOnce
    (J := fun v _ _ _ => Acknowledging rules (Registry.captured s.database s.filter w.server.listing) w v)
    hrules.calm (fun _ _ => trivial) (fun _ => trivial) fun hopening hlater =>
      ⟨(hopening.yields hrules hs).2.2.ascending,
        Acknowledging.delivery fun _ hrecord => hopening.changeOf hrules hs hrecord,
        .refl _, (World.Delivers.refl w).of_kept hlater.toKept⟩
  have hdone {v u : World}
      (h : Acknowledging rules (Registry.captured s.database s.filter w.server.listing) w v u) :
      w.Delivers (ChangeOf rules (Registry.captured s.database s.filter w.server.listing) u.server) u :=
    h.delivers.mono fun _ hrecord => hrecord.mono h.server
  cases halways.post_of_ends hpoll with
  | idle hlater => exact (World.Delivers.refl w).of_kept hlater.toKept
  | unopened hlater => exact (World.Delivers.refl w).of_kept hlater.toKept
  | broken _ h => exact hdone h
  | halted _ h => exact (hdone h).note rfl
  | unfinished _ h => exact hdone h
  | completed _ _ h _ hlater =>
      exact ((hdone h).of_kept hlater.toKept).mono fun _ hrecord => hrecord.mono hlater.server

/-- Any number of polls acknowledge changes of captured rows only. -/
theorem Polls.delivers (hrules : rules.Lawful) (hB : RunInvariant s.offsetKey B)
    (h : s.Tracks past sources B w) (hpolls : Polls rules s w s' w') :
    w.Delivers (ChangeOf rules sources w'.server) w' := by
  induction hpolls with
  | none => exact .refl w
  | next hpolls hpoll ih =>
      obtain ⟨_, _, htracks⟩ := hpolls.tracks hrules hB h
      have hextends := hrules.extends_of_leads hpoll
      exact (ih.mono fun _ hrecord => hrecord.mono hextends).trans
        (delivers_of_ends_pollOnce hrules htracks.knows htracks.sources_eq hpoll)

end Streamer

end ChangeCapture
