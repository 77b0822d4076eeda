import ChangeCapture.Proofs.Resuming

/-! # Replays

After a restart the changes of an interval come again. Those that were committed are a first part of
them, which is passed over, and what comes behind can be committed. -/

namespace ChangeCapture

open List

variable {b : Backend}

/-! ## Passing over -/

namespace ResumeFilter

/-- What a filter says of each of some changes in their order, and what remains of it. -/
def run (filter : ResumeFilter b) : List (Offset b) → List Bool × ResumeFilter b
  | [] => ([], filter)
  | o :: rest =>
      let (skip, next) := filter.step o
      let (skips, last) := next.run rest
      (skip :: skips, last)

/-- A filter that is not armed lets everything through. -/
theorem run_of_none (skipped : Nat) (offsets : List (Offset b)) :
    ({ resumeAfter := none, skipped } : ResumeFilter b).run offsets =
      (offsets.map fun _ => false, { resumeAfter := none, skipped }) := by
  induction offsets with
  | nil => rfl
  | cons o rest ih => simp [run, step, ih]

theorem run_of_covered {c o : Offset b} (h : c.covers o) (skipped : Nat) (rest : List (Offset b)) :
    ({ resumeAfter := some c, skipped } : ResumeFilter b).run (o :: rest) =
      let (skips, last) := ({ resumeAfter := some c, skipped := skipped + 1 } : ResumeFilter b).run rest
      (true :: skips, last) := by
  simp [run, step, h]

/-- The first change that is not covered disarms a filter for good. -/
theorem run_of_not_covered {c o : Offset b} (h : ¬ c.covers o) (skipped : Nat)
    (rest : List (Offset b)) :
    ({ resumeAfter := some c, skipped } : ResumeFilter b).run (o :: rest) =
      (false :: rest.map fun _ => false, { resumeAfter := none, skipped }) := by
  simp [run, step, h, run_of_none]

/-- Of any changes, the longest first part that is covered is passed over. -/
theorem run_append {c : Offset b} {before after : List (Offset b)} (hbefore : ∀ o ∈ before, c.covers o)
    (hafter : ∀ o ∈ after.head?, ¬ c.covers o) (skipped : Nat) :
    (({ resumeAfter := some c, skipped } : ResumeFilter b).run (before ++ after)).1 =
        before.map (fun _ => true) ++ after.map (fun _ => false) ∧
      (({ resumeAfter := some c, skipped } : ResumeFilter b).run (before ++ after)).2.skipped =
        skipped + before.length := by
  induction before generalizing skipped with
  | nil =>
      cases after with
      | nil => exact ⟨rfl, rfl⟩
      | cons o after => simp [run_of_not_covered (hafter o rfl)]
  | cons o before ih =>
      obtain ⟨ho, hbefore⟩ := forall_mem_cons.mp hbefore
      obtain ⟨hskips, hskipped⟩ := ih hbefore (skipped + 1)
      rw [cons_append, run_of_covered ho]
      simp only [hskips, hskipped, map_cons, cons_append, length_cons, true_and]
      omega

end ResumeFilter

/-- In ascending order, the changes that an offset covers come before all others. -/
theorem Offset.exists_covered_append {c : Offset b} {offsets : List (Offset b)}
    (h : offsets.Pairwise fun o p => compare o p = .lt) :
    ∃ before after, offsets = before ++ after ∧ (∀ o ∈ before, c.covers o) ∧
      ∀ o ∈ after, ¬ c.covers o := by
  induction offsets with
  | nil => exact ⟨[], [], rfl, by simp, by simp⟩
  | cons o rest ih =>
      obtain ⟨ho, hrest⟩ := pairwise_cons.mp h
      by_cases hc : c.covers o
      · obtain ⟨before, after, rfl, hbefore, hafter⟩ := ih hrest
        exact ⟨o :: before, after, rfl, forall_mem_cons.mpr ⟨hc, hbefore⟩, hafter⟩
      · refine ⟨[], o :: rest, rfl, by simp, forall_mem_cons.mpr ⟨hc, fun p hp hcovers => hc ?_⟩⟩
        exact covers_of_covers_of_lt hcovers (ho p hp)

/-! ## Calls of a tracker -/

namespace OffsetTracker

/-- A call that commits an offset. The tracker is a state that the call may replace. -/
def commitCall (o : Offset b) : ExceptT CaptureError (StateM (OffsetTracker b)) Unit := do
  let tracker ← get
  set (← ExceptT.mk (pure (tracker.commit o)))

/-- The offsets that are accepted when some are committed one after another, and the tracker then. -/
def accepted (tracker : OffsetTracker b) : List (Offset b) → List (Offset b) × OffsetTracker b
  | [] => ([], tracker)
  | o :: rest =>
      match (commitCall o).run.run tracker with
      | (.error _, next) => next.accepted rest
      | (.ok _, next) =>
          let (offsets, last) := next.accepted rest
          (o :: offsets, last)

variable {tracker : OffsetTracker b} {o : Offset b} {rest : List (Offset b)}

theorem run_commitCall (tracker : OffsetTracker b) (o : Offset b) :
    (commitCall o).run.run tracker =
      match tracker.commit o with
      | .ok next => (.ok (), next)
      | .error e => (.error e, tracker) := by
  change (ExceptT.bindCont (m := StateM (OffsetTracker b)) set (tracker.commit o)).run tracker = _
  cases tracker.commit o <;> rfl

/-- What is committed already is rejected, and the tracker stays. -/
theorem commitCall_of_covers (h : tracker.Covers o) :
    ∃ e, (commitCall o).run.run tracker = (.error e, tracker) := by
  obtain ⟨c, hc, hcovers⟩ := h
  have hcommit : tracker.commit o =
      .error (.invalidPosition s!"Offset {o} does not advance past committed {c}") := by
    rw [commit, hc]
    exact if_pos hcovers
  exact ⟨_, by rw [run_commitCall, hcommit]⟩

/-- All else is accepted. -/
theorem commitCall_of_not_covers (h : ¬ tracker.Covers o) :
    (commitCall o).run.run tracker = (.ok (), ⟨some o⟩) := by
  rw [run_commitCall, commit_of_not_covers h]

theorem accepted_of_covers (h : tracker.Covers o) :
    tracker.accepted (o :: rest) = tracker.accepted rest := by
  obtain ⟨e, he⟩ := commitCall_of_covers h
  rw [accepted, he]

theorem accepted_of_not_covers (h : ¬ tracker.Covers o) :
    tracker.accepted (o :: rest) =
      (o :: (accepted ⟨some o⟩ rest).1, (accepted ⟨some o⟩ rest).2) := by
  rw [accepted, commitCall_of_not_covers h]

/-- Whatever is committed in whatever order, what is accepted goes up strictly from what was committed
before, and its last is what is committed then. -/
theorem ascending_accepted (tracker : OffsetTracker b) (offsets : List (Offset b)) :
    (tracker.committed.toList ++ (tracker.accepted offsets).1).Pairwise
        (fun o p => compare o p = .lt) ∧
      (tracker.accepted offsets).2.committed =
        (tracker.accepted offsets).1.getLast?.or tracker.committed := by
  induction offsets generalizing tracker with
  | nil => cases hc : tracker.committed <;> simp [accepted, hc]
  | cons o rest ih =>
      by_cases h : tracker.Covers o
      · rw [accepted_of_covers h]
        exact ih tracker
      · obtain ⟨hascending, hlast⟩ := ih ⟨some o⟩
        rw [accepted_of_not_covers h]
        refine ⟨?_, ?_⟩
        · cases hc : tracker.committed with
          | none => exact hascending
          | some c =>
              -- what comes after `o` comes after all that `o` comes after
              have hlt : compare c o = .lt :=
                Offset.compare_lt_of_not_covers fun hcovers => h ⟨c, hc, hcovers⟩
              refine pairwise_cons.mpr ⟨forall_mem_cons.mpr ⟨hlt, fun p hp => ?_⟩, hascending⟩
              exact Std.TransCmp.lt_trans hlt ((pairwise_cons.mp hascending).1 p hp)
        · rw [hlast]
          cases hl : (accepted ⟨some o⟩ rest).1.getLast? <;> simp [getLast?_cons, hl]

/-- Offsets in ascending order are all accepted, if nothing that is committed covers them. -/
theorem accepted_of_ascending (h : rest.Pairwise fun o p => compare o p = .lt)
    (horigin : ∀ o ∈ rest, o.origin ≠ "") (hnew : ∀ o ∈ rest, ¬ tracker.Covers o) :
    (tracker.accepted rest).1 = rest := by
  induction rest generalizing tracker with
  | nil => rfl
  | cons o rest ih =>
      obtain ⟨hnow, hlater⟩ := forall_mem_cons.mp horigin
      rw [accepted_of_not_covers (hnew o mem_cons_self)]
      exact congrArg (o :: ·) (ih h.of_cons hlater (not_covers_of_ascending h hnow))

end OffsetTracker

/-! ## Replays -/

/-- A filter that resumes after an offset divides changes into those that it passes over, which the
offset covers, and those behind, which can be committed after it. -/
structure Offset.Divides (c : Offset b) (offsets before after : List (Offset b)) : Prop where
  split : offsets = before ++ after
  covered : ∀ o ∈ before, c.covers o
  new : ∀ o ∈ after, ¬ c.covers o
  skips : (({ resumeAfter := some c } : ResumeFilter b).run offsets).1 =
    before.map (fun _ => true) ++ after.map (fun _ => false)
  skipped : (({ resumeAfter := some c } : ResumeFilter b).run offsets).2.skipped = before.length
  accepted : (OffsetTracker.accepted ⟨some c⟩ after).1 = after

/-- Every offset divides changes of sources that come in ascending order. Whatever is committed in
whatever order, what is accepted goes up strictly from what was committed before, and its last is
committed then; a commit is rejected exactly if what is committed covers it, and leaves that as it is. -/
theorem divides_and_accepts {offsets : List (Offset b)}
    (hascending : offsets.Pairwise fun o p => compare o p = .lt)
    (horigin : ∀ o ∈ offsets, o.origin ≠ "") (c : Offset b) :
    (∃ before after, c.Divides offsets before after) ∧
    ∀ (tracker : OffsetTracker b) (calls : List (Offset b)),
      (tracker.committed.toList ++ (tracker.accepted calls).1).Pairwise
          (fun o p => compare o p = .lt) ∧
        (tracker.accepted calls).2.committed =
          (tracker.accepted calls).1.getLast?.or tracker.committed ∧
        ∀ o, tracker.Covers o ∧
            (∃ e, (OffsetTracker.commitCall o).run.run tracker = (.error e, tracker)) ∨
          ¬ tracker.Covers o ∧ (OffsetTracker.commitCall o).run.run tracker = (.ok (), ⟨some o⟩) := by
  refine ⟨?_, fun tracker calls => ?_⟩
  · obtain ⟨before, after, rfl, hcovered, hnew⟩ := Offset.exists_covered_append (c := c) hascending
    obtain ⟨hskips, hskipped⟩ :=
      ResumeFilter.run_append hcovered (fun o ho => hnew o (mem_of_mem_head? ho)) 0
    refine ⟨before, after, rfl, hcovered, hnew, hskips, by simpa using hskipped, ?_⟩
    refine OffsetTracker.accepted_of_ascending (pairwise_append.mp hascending).2.1
      (fun o ho => horigin o (mem_append_right _ ho)) ?_
    rintro o ho ⟨committed, hcommitted, hcovers⟩
    cases hcommitted
    exact hnew o ho hcovers
  · obtain ⟨hup, hlast⟩ := tracker.ascending_accepted calls
    refine ⟨hup, hlast, fun o => ?_⟩
    by_cases h : tracker.Covers o
    · exact .inl ⟨h, OffsetTracker.commitCall_of_covers h⟩
    · exact .inr ⟨h, OffsetTracker.commitCall_of_not_covers h⟩

/-! ## A sample -/

namespace Sample

/-- The offset of a change that was read from a redo log. -/
def redoOffset (scn : Nat) (op : UInt8) (origin : String) : Offset .oracle :=
  { position := .ofNat scn, sequence := Sequence.ofUInt64 1, op, origin }

end Sample

open Sample in
/-- An offset without a source lies before the changes of both threads at its position, and covers them. -/
theorem divides_and_accepts_of_sample :
    let offsets := [redoOffset 5 2 "a", redoOffset 5 2 "b", redoOffset 5 3 "a", redoOffset 6 2 "a"]
    let c := redoOffset 5 2 ""
    (∀ o ∈ offsets, compare c o = .lt) ∧ (offsets.Pairwise fun o p => compare o p = .lt) ∧
      (∀ o ∈ offsets, o.origin ≠ "") ∧
      (({ resumeAfter := some c } : ResumeFilter .oracle).run offsets).1 = [true, true, false, false] ∧
      ∃ before after, c.Divides offsets before after := by
  intro offsets c
  have hascending : offsets.Pairwise fun o p => compare o p = .lt := by decide
  have horigin : ∀ o ∈ offsets, o.origin ≠ "" := by decide
  exact ⟨by decide, hascending, horigin, by decide, (divides_and_accepts hascending horigin c).1⟩

end ChangeCapture
