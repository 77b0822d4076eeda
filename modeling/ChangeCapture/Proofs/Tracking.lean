import ChangeCapture.Proofs.Commits

/-! # Nothing is passed over

On a lawful server every change that lies before the next position, or that what is committed covers, was
acknowledged. A poll keeps this up wherever it ends. -/

namespace ChangeCapture

open List
open Program (Ends)

/-- The offsets of the records that were acknowledged so far. -/
def World.acknowledged (w : World) : List (Offset .sqlserver) := acknowledgedOffsets w.history

theorem World.mem_acknowledged {w : World} {o : Offset .sqlserver} :
    o ∈ w.acknowledged ↔ ∃ record, .acknowledged record ∈ w.history ∧ record.offset = o := by
  rw [World.acknowledged, acknowledgedOffsets, mem_filterMap]
  constructor
  · rintro ⟨event, hevent, ho⟩
    cases event with
    | acknowledged record => exact ⟨record, hevent, Option.some.inj ho⟩
    | saved | stopped | began | crashed => cases ho
  · rintro ⟨record, hrecord, rfl⟩
    exact ⟨_, hrecord, rfl⟩

theorem World.acknowledged_note (w : World) (event : Event) :
    (w.note event).acknowledged = w.acknowledged ++ event.acknowledged?.toList := by
  rw [World.acknowledged, World.note, acknowledgedOffsets_append]
  cases h : event.acknowledged? <;> simp [acknowledgedOffsets, World.acknowledged, h]

theorem World.acknowledged_subset_note (w : World) (event : Event) :
    w.acknowledged ⊆ (w.note event).acknowledged := by
  rw [World.acknowledged_note]
  exact subset_append_left _ _

theorem World.acknowledged_save (w : World) (key : String) (o : Offset .sqlserver) :
    (w.save key o).acknowledged = w.acknowledged := by
  rw [World.acknowledged, World.save]
  exact (w.acknowledged_note (.saved key o)).trans (append_nil _)

theorem World.Kept.acknowledged {w w' : World} (h : w.Kept w') :
    w'.acknowledged = w.acknowledged := by
  rw [World.acknowledged, h.history, World.acknowledged]

/-! ## Settled offsets -/

/-- The position was captured, and if there is a change of this offset, it was acknowledged. -/
structure Settled (sources : List CaptureInstance) (w : World) (o : Offset .sqlserver) : Prop where
  reported : o.position ≤ w.server.reported
  acknowledged : HasChange sources w.server o → o ∈ w.acknowledged

theorem Settled.mono {sources : List CaptureInstance} {w w' : World} {o : Offset .sqlserver}
    (h : Settled sources w o) (hextends : w.server.Extends w'.server)
    (hsubset : w.acknowledged ⊆ w'.acknowledged) : Settled sources w' o :=
  ⟨h.reported.trans hextends.reported,
    fun hchange => hsubset (h.acknowledged ((hextends.hasChange h.reported).mp hchange))⟩

/-- Of the offsets in question, those that are committed or lie before the next position are settled. -/
def Settles (past : Offset .sqlserver → Prop) (sources : List CaptureInstance)
    (tracker : OffsetTracker .sqlserver) (nextFrom : Lsn) (w : World) : Prop :=
  ∀ o, past o → tracker.Covers o ∨ o.position < nextFrom → Settled sources w o

section Settles

variable {past : Offset .sqlserver → Prop} {sources : List CaptureInstance}
  {tracker : OffsetTracker .sqlserver} {nextFrom : Lsn} {w w' : World}

theorem Settles.mono (h : Settles past sources tracker nextFrom w)
    (hextends : w.server.Extends w'.server) (hsubset : w.acknowledged ⊆ w'.acknowledged) :
    Settles past sources tracker nextFrom w' :=
  fun o ho hcovered => (h o ho hcovered).mono hextends hsubset

theorem Settles.later (h : Settles past sources tracker nextFrom w) (hlater : w.Later w') :
    Settles past sources tracker nextFrom w' :=
  h.mono hlater.server (hlater.toKept.acknowledged ▸ Subset.refl _)

theorem Settles.note (h : Settles past sources tracker nextFrom w) (event : Event) :
    Settles past sources tracker nextFrom (w.note event) :=
  h.mono (.refl _) (w.acknowledged_subset_note event)

end Settles

/-! ## Reading an interval -/

/-- What is known of the changes of an interval: they are captured and in order, every change of the
interval is among them, or a failure comes before it. -/
structure Yields (sources : List CaptureInstance) (first last : Lsn) (v : World)
    (records : List (ChangeRecord .sqlserver)) (complete : Prop) : Prop where
  captured : last ≤ v.server.reported
  ascending : (records.map ChangeRecord.offset).Pairwise fun o p => compare o p = .lt
  position_le : ∀ record ∈ records, record.position ≤ last
  covers : ∀ {o}, HasChange sources v.server o → first ≤ o.position → o.position ≤ last →
    o ∈ records.map ChangeRecord.offset ∨
      ¬ complete ∧ ∀ record ∈ records, compare record.offset o = .lt

/-- While the changes of an interval are delivered, those that are done are acknowledged. -/
structure Reading (past : Offset .sqlserver → Prop) (sources : List CaptureInstance) (first : Lsn)
    (v : World) (done : List (ChangeRecord .sqlserver)) (tracker : OffsetTracker .sqlserver)
    (w : World) : Prop where
  server : v.server.Extends w.server
  settles : Settles past sources tracker first w
  done : ∀ record ∈ done, past record.offset → HasChange sources v.server record.offset →
    record.offset ∈ w.acknowledged

namespace Reading

variable {past : Offset .sqlserver → Prop} {sources : List CaptureInstance} {first last : Lsn}
  {v w w' : World} {records done rest : List (ChangeRecord .sqlserver)} {complete : Prop}
  {record : ChangeRecord .sqlserver} {tracker : OffsetTracker .sqlserver}

theorem mono (h : Reading past sources first v done tracker w)
    (hextends : w.server.Extends w'.server) (hsubset : w.acknowledged ⊆ w'.acknowledged) :
    Reading past sources first v done tracker w' :=
  ⟨h.server.trans hextends, h.settles.mono hextends hsubset,
    fun record hrecord hpast hchange => hsubset (h.done record hrecord hpast hchange)⟩

theorem later (h : Reading past sources first v done tracker w) (hlater : w.Later w') :
    Reading past sources first v done tracker w' :=
  h.mono hlater.server (hlater.toKept.acknowledged ▸ Subset.refl _)

theorem save (h : Reading past sources first v done tracker w) {key : String}
    {o : Offset .sqlserver} : Reading past sources first v done tracker (w.save key o) :=
  h.mono (.refl _) (w.acknowledged_save key o ▸ Subset.refl _)

/-- A change that was committed before was acknowledged before. -/
theorem skipped (hyields : Yields sources first last v records complete)
    (hrecords : records = done ++ record :: rest) (h : Reading past sources first v done tracker w)
    (hcovers : tracker.Covers record.offset) :
    Reading past sources first v (done ++ [record]) tracker w := by
  refine ⟨h.server, h.settles, fun record' hrecord hpast hchange => ?_⟩
  rcases mem_append.mp hrecord with hrecord | hrecord
  · exact h.done record' hrecord hpast hchange
  · cases mem_singleton.mp hrecord
    have hposition := (hyields.position_le record (by simp [hrecords])).trans hyields.captured
    exact (h.settles _ hpast (.inl hcovers)).acknowledged ((h.server.hasChange hposition).mpr hchange)

/-- After a change was acknowledged, all that its offset covers is settled. -/
theorem acknowledged (hyields : Yields sources first last v records complete)
    (hrecords : records = done ++ record :: rest) (h : Reading past sources first v done tracker w) :
    Reading past sources first v (done ++ [record]) ⟨some record.offset⟩
      (w.note (.acknowledged record)) := by
  have hsubset := w.acknowledged_subset_note (.acknowledged record)
  have hnow : record.offset ∈ (w.note (.acknowledged record)).acknowledged := by
    rw [World.acknowledged_note]
    exact mem_append_right _ mem_cons_self
  have hmem : record ∈ records := by simp [hrecords]
  refine ⟨h.server, fun o hpast hcovered => ?_, fun record' hrecord hpast hchange => ?_⟩
  · by_cases hfirst : o.position < first
    · exact (h.settles o hpast (.inr hfirst)).mono (.refl _) hsubset
    · obtain ⟨committed, hcommitted, hcovers⟩ := hcovered.resolve_right hfirst
      cases hcommitted
      have hlast : o.position ≤ last :=
        (Offset.position_le_of_covers hcovers).trans (hyields.position_le record hmem)
      have hcaptured := hlast.trans hyields.captured
      refine ⟨hcaptured.trans h.server.reported, fun hchange => ?_⟩
      have hchange := (h.server.hasChange hcaptured).mp hchange
      rcases hyields.covers hchange (not_lt.mp hfirst) hlast with ho | ⟨_, hbefore⟩
      · rw [hrecords, map_append, map_cons, mem_append, mem_cons] at ho
        rcases ho with ho | rfl | ho
        · obtain ⟨before, hbefore, rfl⟩ := mem_map.mp ho
          exact hsubset (h.done before hbefore hpast hchange)
        · exact hnow
        · -- what comes later in the interval is not covered
          have hascending := hyields.ascending
          rw [hrecords, map_append, map_cons] at hascending
          have hlt := (pairwise_cons.mp (pairwise_append.mp hascending).2.1).1 o ho
          exact absurd hcovers (Offset.not_covers_of_compare_lt record.origin_ne_empty hlt)
      · exact absurd hcovers
          (Offset.not_covers_of_compare_lt record.origin_ne_empty (hbefore record hmem))
  · rcases mem_append.mp hrecord with hrecord | hrecord
    · exact hsubset (h.done record' hrecord hpast hchange)
    · cases mem_singleton.mp hrecord
      exact hnow

/-- When all changes of an interval are done, everything before the next position is settled. -/
theorem finish (hyields : Yields sources first last v records complete) (hcomplete : complete)
    (h : Reading past sources first v records tracker w) {nextFrom : Lsn}
    (hnext : ∀ p, last < p → nextFrom ≤ p) : Settles past sources tracker nextFrom w := by
  intro o hpast hcovered
  rcases hcovered with hcovers | hbefore
  · exact h.settles o hpast (.inl hcovers)
  · by_cases hfirst : o.position < first
    · exact h.settles o hpast (.inr hfirst)
    · have hlast : o.position ≤ last := not_lt.mp fun hlt => absurd hbefore (not_lt.mpr (hnext _ hlt))
      have hcaptured := hlast.trans hyields.captured
      refine ⟨hcaptured.trans h.server.reported, fun hchange => ?_⟩
      have hchange := (h.server.hasChange hcaptured).mp hchange
      rcases hyields.covers hchange (not_lt.mp hfirst) hlast with ho | ⟨hfailed, _⟩
      · obtain ⟨record, hrecord, rfl⟩ := mem_map.mp ho
        exact h.done record hrecord hpast hchange
      · exact absurd hcomplete hfailed

end Reading

end ChangeCapture
