import ChangeCapture.Offset.Tracker
import ChangeCapture.Proofs.Order
import ChangeCapture.Record.Basic

/-! # Committing and resuming

Offsets in strict order can be committed one after another, and a filter that resumes after one of them
lets through what comes behind it. -/

namespace ChangeCapture

open List

/-! ## What is committed -/

/-- The committed offset covers another. -/
def OffsetTracker.Covers {b : Backend} (tracker : OffsetTracker b) (o : Offset b) : Prop :=
  ∃ committed, tracker.committed = some committed ∧ committed.covers o

theorem OffsetTracker.commit_of_not_covers {b : Backend} {tracker : OffsetTracker b} {o : Offset b}
    (h : ¬ tracker.Covers o) : tracker.commit o = .ok ⟨some o⟩ := by
  unfold commit
  cases hc : tracker.committed with
  | none => rfl
  | some committed => exact if_neg fun hcovers => h ⟨committed, hc, hcovers⟩

theorem ChangeRecord.origin_ne_empty {b : Backend} (record : ChangeRecord b) :
    record.origin ≠ "" := by
  intro h
  simp [origin, sourceLabel] at h
  exact absurd h.1.2 (by decide)

/-! ## Offsets in order -/

section Ascending

variable {b : Backend} {offsets : List (Offset b)}

/-- What a filter lets through. -/
def ResumeFilter.remaining (filter : ResumeFilter b) : List (Offset b) → List (Offset b)
  | [] => []
  | o :: rest =>
      let (skip, filter) := filter.step o
      if skip then filter.remaining rest else o :: filter.remaining rest

theorem ResumeFilter.remaining_of_none {filter : ResumeFilter b} (h : filter.resumeAfter = none)
    (offsets : List (Offset b)) : filter.remaining offsets = offsets := by
  induction offsets with
  | nil => rfl
  | cons o rest ih =>
      have hstep : filter.step o = (false, filter) := by simp [step, h]
      simp [remaining, hstep, ih]

/-- What comes behind an offset in ascending order is not covered by it. -/
theorem OffsetTracker.not_covers_of_ascending {o : Offset b}
    (h : (o :: offsets).Pairwise fun o p => compare o p = .lt) (horigin : o.origin ≠ "") :
    ∀ p ∈ offsets, ¬ (⟨some o⟩ : OffsetTracker b).Covers p := by
  rintro p hp ⟨committed, hcommitted, hcovers⟩
  cases hcommitted
  exact Offset.not_covers_of_compare_lt horigin ((pairwise_cons.mp h).1 p hp) hcovers

theorem OffsetTracker.foldlM_commit (h : offsets.Pairwise fun o p => compare o p = .lt)
    (horigin : ∀ o ∈ offsets, o.origin ≠ "") (tracker : OffsetTracker b)
    (hnew : ∀ o ∈ offsets, ¬ tracker.Covers o) :
    offsets.foldlM commit tracker = .ok ⟨offsets.getLast?.or tracker.committed⟩ := by
  induction offsets generalizing tracker with
  | nil => rfl
  | cons o rest ih =>
      obtain ⟨hnow, hlater⟩ := forall_mem_cons.mp horigin
      rw [foldlM_cons, commit_of_not_covers (hnew o mem_cons_self)]
      refine (ih h.of_cons hlater ⟨some o⟩ (not_covers_of_ascending h hnow)).trans ?_
      cases hlast : rest.getLast? <;> simp [getLast?_cons, hlast]

/-- A filter that resumes after one of the offsets lets through those that come later. -/
theorem ResumeFilter.remaining_of_ascending {before after : List (Offset b)} {o : Offset b}
    (h : (before ++ o :: after).Pairwise fun o p => compare o p = .lt) (horigin : o.origin ≠ "")
    (skipped : Nat) :
    ({ resumeAfter := some o, skipped } : ResumeFilter b).remaining (before ++ o :: after) =
      after := by
  have hskip {p : Offset b} (hp : o.covers p) (skipped : Nat) (rest : List (Offset b)) :
      ({ resumeAfter := some o, skipped } : ResumeFilter b).remaining (p :: rest) =
        ({ resumeAfter := some o, skipped := skipped + 1 } : ResumeFilter b).remaining rest := by
    simp [remaining, step, hp]
  induction before generalizing skipped with
  | nil =>
      rw [nil_append, hskip Offset.covers_self]
      cases after with
      | nil => rfl
      | cons p after =>
          have hlt := (pairwise_cons.mp h).1 p mem_cons_self
          have hnot : ¬ o.covers p := Offset.not_covers_of_compare_lt horigin hlt
          simp [remaining, step, hnot, remaining_of_none]
  | cons p before ih =>
      obtain ⟨hp, hrest⟩ := pairwise_cons.mp h
      rw [cons_append, hskip (Offset.covers_of_compare_lt (hp o (by simp)))]
      exact ih hrest (skipped + 1)

end Ascending

end ChangeCapture
