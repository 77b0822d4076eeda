import ChangeCapture.Proofs.Resuming
import ChangeCapture.Proofs.Steps

/-! # Delivering changes

What holds while changes are passed over, handed over, committed and saved one by one holds after any
number of them. -/

namespace ChangeCapture

open List

/-! ## What is passed over -/

/-- The filter knows what is committed, or nothing that is left was committed. -/
def ResumeFilter.Ready (filter : ResumeFilter .sqlserver) (tracker : OffsetTracker .sqlserver)
    (records : List (ChangeRecord .sqlserver)) : Prop :=
  filter.resumeAfter = tracker.committed ∨
    filter.resumeAfter = none ∧ ∀ record ∈ records, ¬ tracker.Covers record.offset

section Filter

variable {filter : ResumeFilter .sqlserver} {tracker : OffsetTracker .sqlserver}
  {record : ChangeRecord .sqlserver} {records : List (ChangeRecord .sqlserver)}

/-- A change is passed over when it was committed. -/
theorem ResumeFilter.Ready.step (h : filter.Ready tracker (record :: records)) :
    (filter.step record.offset).1 = true ∧ tracker.Covers record.offset ∧
        (filter.step record.offset).2.Ready tracker records ∨
      (filter.step record.offset).1 = false ∧ ¬ tracker.Covers record.offset ∧
        (filter.step record.offset).2.resumeAfter = none := by
  unfold ResumeFilter.step
  cases hresume : filter.resumeAfter with
  | none =>
      refine .inr ⟨rfl, ?_, hresume⟩
      rcases h with h | ⟨_, h⟩
      · rintro ⟨committed, hc, _⟩
        rw [← h, hresume] at hc
        cases hc
      · exact h record mem_cons_self
  | some committed =>
      have hcommitted : tracker.committed = some committed := by
        rcases h with h | ⟨h, _⟩
        · rw [← h, hresume]
        · rw [hresume] at h
          cases h
      dsimp only
      split
      · rename_i hcovers
        exact .inl ⟨rfl, ⟨committed, hcommitted, hcovers⟩, .inl hcommitted.symm⟩
      · rename_i hcovers
        refine .inr ⟨rfl, ?_, rfl⟩
        rintro ⟨current, hc, hcurrent⟩
        rw [hcommitted] at hc
        cases hc
        exact hcovers hcurrent

/-- A filter that knows what is committed lets through what it does not cover, and anything after. -/
theorem ResumeFilter.step_of_not_covers {o : Offset .sqlserver} (h : ¬ tracker.Covers o) :
    ({ resumeAfter := tracker.committed } : ResumeFilter .sqlserver).step o =
      (false, { resumeAfter := none }) := by
  unfold ResumeFilter.step
  cases hcommitted : tracker.committed with
  | none => rfl
  | some committed => exact if_neg fun hcovers => h ⟨committed, hcommitted, hcovers⟩

/-- After a commit nothing that comes later is covered. -/
theorem ResumeFilter.ready_of_ascending (hfilter : filter.resumeAfter = none)
    (h : ((record :: records).map ChangeRecord.offset).Pairwise fun o p => compare o p = .lt) :
    filter.Ready ⟨some record.offset⟩ records := by
  refine .inr ⟨hfilter, fun later hlater => ?_⟩
  rintro ⟨committed, hc, hcovers⟩
  cases hc
  have hlt := (pairwise_cons.mp h).1 later.offset (mem_map_of_mem hlater)
  exact Offset.not_covers_of_compare_lt record.origin_ne_empty hlt hcovers

end Filter

/-! ## The loop -/

/-- What holds of the changes that are done, of what is committed and of the world, whatever becomes of
the next change. -/
structure DeliveryInvariant (related : World → World → Prop) (key : String)
    (records : List (ChangeRecord .sqlserver))
    (J : List (ChangeRecord .sqlserver) → OffsetTracker .sqlserver → World → Prop) : Prop where
  later : ∀ {done tracker w w'}, J done tracker w → related w w' → J done tracker w'
  skipped : ∀ {done record rest tracker w}, records = done ++ record :: rest → J done tracker w →
    tracker.Covers record.offset → J (done ++ [record]) tracker w
  acknowledged : ∀ {done record rest tracker w}, records = done ++ record :: rest →
    J done tracker w → ¬ tracker.Covers record.offset →
    J (done ++ [record]) ⟨some record.offset⟩ (w.note (.acknowledged record))
  saved : ∀ {done record rest tracker w v}, records = done ++ record :: rest →
    J done tracker w → ¬ tracker.Covers record.offset →
    related (w.note (.acknowledged record)) v →
    J (done ++ [record]) ⟨some record.offset⟩ (v.save key record.offset)

theorem DeliveryInvariant.and {related : World → World → Prop} {key : String}
    {records : List (ChangeRecord .sqlserver)}
    {J J' : List (ChangeRecord .sqlserver) → OffsetTracker .sqlserver → World → Prop}
    (h : DeliveryInvariant related key records J) (h' : DeliveryInvariant related key records J') :
    DeliveryInvariant related key records fun done tracker w => J done tracker w ∧ J' done tracker w where
  later hJ hlater := ⟨h.later hJ.1 hlater, h'.later hJ.2 hlater⟩
  skipped hsplit hJ hcovers := ⟨h.skipped hsplit hJ.1 hcovers, h'.skipped hsplit hJ.2 hcovers⟩
  acknowledged hsplit hJ hnew := ⟨h.acknowledged hsplit hJ.1 hnew, h'.acknowledged hsplit hJ.2 hnew⟩
  saved hsplit hJ hnew hlater := ⟨h.saved hsplit hJ.1 hnew hlater, h'.saved hsplit hJ.2 hnew hlater⟩

/-- What holds of what is committed and of the world, whatever is acknowledged and saved. -/
structure RunInvariant (key : String) (B : OffsetTracker .sqlserver → World → Prop) : Prop where
  kept : ∀ {tracker w w'}, B tracker w → w.Kept w' → B tracker w'
  stopped : ∀ {tracker w}, B tracker w → B tracker (w.note .stopped)
  acknowledged : ∀ {record tracker w}, B tracker w → ¬ tracker.Covers record.offset →
    B ⟨some record.offset⟩ (w.note (.acknowledged record))
  saved : ∀ {record tracker w v}, B tracker w → ¬ tracker.Covers record.offset →
    (w.note (.acknowledged record)).Kept v →
    B ⟨some record.offset⟩ (v.save key record.offset)

theorem RunInvariant.delivery {key : String} {B : OffsetTracker .sqlserver → World → Prop}
    (hB : RunInvariant key B) {related : World → World → Prop}
    (hkept : ∀ {w w'}, related w w' → w.Kept w') (records : List (ChangeRecord .sqlserver)) :
    DeliveryInvariant related key records fun _ => B where
  later h hlater := hB.kept h (hkept hlater)
  skipped _ h _ := h
  acknowledged _ h hnew := hB.acknowledged h hnew
  saved _ h hnew hlater := hB.saved h hnew (hkept hlater)

namespace Streamer

variable {rules : Rules} {related : World → World → Prop} {inv : World → Prop} {s : Streamer}
  {records : List (ChangeRecord .sqlserver)}
  {J : List (ChangeRecord .sqlserver) → OffsetTracker .sqlserver → World → Prop}

theorem always_commitRecord (hcalm : rules.Calm related)
    (hJ : DeliveryInvariant related s.offsetKey records J)
    (hinv : ∀ {done tracker w}, J done tracker w → inv w)
    {done rest : List (ChangeRecord .sqlserver)} {record : ChangeRecord .sqlserver}
    (hrecords : records = done ++ record :: rest) {tracker : OffsetTracker .sqlserver} {w : World}
    (h : J done tracker w) (hnew : ¬ tracker.Covers record.offset) :
    StepAlways rules.answers inv (fun result s' w' =>
      match result with
      | .ok _ => s' = { s with tracker := ⟨some record.offset⟩ } ∧
          J (done ++ [record]) ⟨some record.offset⟩ w'
      | .error _ => ∃ done tracker, s' = { s with tracker } ∧ J done tracker w')
      (commitRecord record) { s with tracker } w := by
  unfold commitRecord
  refine always_bind (always_deliver hcalm (hinv h) (fun v hlater => ?_) fun e v hlater => ?_)
  · have hbefore := hJ.later h hlater
    have hack := hJ.acknowledged hrecords hbefore hnew
    refine always_bind (always_get ?_)
    refine always_bind (always_ofExcept ?_)
    rw [OffsetTracker.commit_of_not_covers hnew]
    refine always_bind (always_set ?_)
    dsimp only
    split
    · refine always_saveOffset hcalm (hinv hack) (fun r v' hlater => ?_) fun e v' hlater => ?_
      · cases r with
        | ok u => exact ⟨rfl, hJ.saved hrecords hbefore hnew hlater⟩
        | error e => exact ⟨_, _, rfl, hJ.saved hrecords hbefore hnew hlater⟩
      · exact ⟨_, _, rfl, hJ.later hack hlater⟩
    · exact always_pure ⟨rfl, hack⟩
  · exact ⟨done, tracker, rfl, hJ.later h hlater⟩

/-- How the delivery of changes ends: it fails, the capture is found switched off, or all changes are
done. -/
inductive Delivered (records : List (ChangeRecord .sqlserver))
    (J : List (ChangeRecord .sqlserver) → OffsetTracker .sqlserver → World → Prop) :
    Except CaptureError DeliveryProgress → OffsetTracker .sqlserver → World → Prop where
  | failed {e done tracker w} (h : J done tracker w) : Delivered records J (.error e) tracker w
  | stopped {progress done tracker w} (h : J done tracker w) (hstopped : progress.stopped = true) :
      Delivered records J (.ok progress) tracker (w.note .stopped)
  | finished {progress tracker w} (h : J records tracker w) (hgoing : progress.stopped = false) :
      Delivered records J (.ok progress) tracker w

theorem always_deliverRecords (s : Streamer) (hcalm : rules.Calm related)
    (hJ : DeliveryInvariant related s.offsetKey records J)
    (hinv : ∀ {done tracker w}, J done tracker w → inv w)
    (progress : DeliveryProgress) (hgoing : progress.stopped = false)
    {done rest : List (ChangeRecord .sqlserver)} (hrecords : records = done ++ rest)
    (hascending : (rest.map ChangeRecord.offset).Pairwise fun o p => compare o p = .lt)
    (tracker : OffsetTracker .sqlserver) (hready : progress.resume.Ready tracker rest) {w : World}
    (h : J done tracker w) :
    StepAlways rules.answers inv (fun result s' w' =>
        ∃ tracker, s' = { s with tracker } ∧ Delivered records J result tracker w')
      (deliverRecords progress rest) { s with tracker } w := by
  induction rest generalizing done progress tracker w with
  | nil =>
      rw [append_nil] at hrecords
      exact always_pure ⟨tracker, rfl, .finished (hrecords ▸ h) hgoing⟩
  | cons record rest ih =>
      have hnext : records = (done ++ [record]) ++ rest := by simp [hrecords]
      unfold deliverRecords
      dsimp only
      rcases hready.step with ⟨hskip, hcovers, hready⟩ | ⟨hkeep, hnew, hfilter⟩
      · rw [if_pos hskip]
        exact ih { progress with resume := (progress.resume.step record.offset).2 } hgoing hnext
          hascending.of_cons tracker hready (hJ.skipped hrecords h hcovers)
      · rw [if_neg (by simp [hkeep])]
        refine always_bind (always_isActive hcalm (hinv h) (fun v hlater => ?_) fun v hlater => ?_)
        · refine always_bind ((always_commitRecord hcalm hJ hinv hrecords (hJ.later h hlater)
            hnew).mono fun r s' w' hcommit => ?_)
          cases r with
          | ok u =>
              obtain ⟨rfl, hcommit⟩ := hcommit
              exact ih { progress with
                  resume := (progress.resume.step record.offset).2
                  delivered := progress.delivered + 1 } hgoing hnext hascending.of_cons
                ⟨some record.offset⟩ (ResumeFilter.ready_of_ascending hfilter hascending) hcommit
          | error e =>
              obtain ⟨done', tracker, rfl, hfailed⟩ := hcommit
              exact ⟨tracker, rfl, .failed hfailed⟩
        · exact always_pure ⟨tracker, rfl, .stopped (hJ.later h hlater) rfl⟩

end Streamer

end ChangeCapture
