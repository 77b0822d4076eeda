import ChangeCapture.Merge
import Mathlib.Data.List.Nodup

/-! # Draining a merge -/

namespace ChangeCapture.Merge

open List MergeRow
open Std (TransCmp OrientedCmp LawfulEqOrd)

variable {α : Type} [MergeRow α]

/-! ## Single steps -/

omit [MergeRow α] in
theorem cursor_eq_of_next {cursor rest : Cursor α} {row : α}
    (h : cursor.next = .ok (some (row, rest))) : cursor = { rest with rows := row :: rest.rows } := by
  unfold Cursor.next at h
  split at h
  · rename_i hrows
    cases h
    rw [← hrows]
  · split at h <;> cases h

omit [MergeRow α] in
theorem cursor_eq_of_next_none {cursor : Cursor α} (h : cursor.next = .ok none) :
    cursor = ⟨[], none⟩ := by
  obtain ⟨rows, failure⟩ := cursor
  cases rows <;> cases failure <;> simp_all [Cursor.next]

theorem refill_eq_none {p : PendingRow α} :
    refill p = .ok none ↔ p.rest.rows = [] ∧ p.rest.failure = none := by
  unfold refill Cursor.next
  cases p.rest.rows with
  | nil => cases p.rest.failure <;> simp
  | cons row rows =>
      simp only [reduceCtorEq, false_and, iff_false]
      split <;> simp

theorem refill_eq_some {p q : PendingRow α} :
    refill p = .ok (some q) ↔
      p.rest.rows = q.row :: q.rest.rows ∧ compareKeys q.row p.row = .gt ∧
        q = { p with row := q.row, rest := { p.rest with rows := q.rest.rows } } := by
  unfold refill Cursor.next
  cases hrows : p.rest.rows with
  | nil => cases p.rest.failure <;> simp
  | cons row rows =>
      simp only
      split
      · rename_i hgt
        constructor
        · intro h
          cases h
          exact ⟨rfl, hgt, rfl⟩
        · rintro ⟨hcons, _, hq⟩
          obtain ⟨rfl, rfl⟩ := List.cons.inj hcons
          exact congrArg (Except.ok ∘ some) hq.symm
      · rename_i hgt
        simp only [reduceCtorEq, false_iff]
        rintro ⟨hcons, hgt', _⟩
        obtain ⟨rfl, rfl⟩ := List.cons.inj hcons
        exact hgt hgt'

/-- What is pending after a row was given, if its input could be read on. -/
inductive Advanced (p : PendingRow α) (pending : List (PendingRow α)) :
    List (PendingRow α) → Prop where
  | exhausted (h : refill p = .ok none) : Advanced p pending pending
  | refilled {q} (h : refill p = .ok (some q)) : Advanced p pending (insert q pending)

theorem next_eq_some {merge rest : Merge α} {x : Nat × α} (h : merge.next = (.ok (some x), rest)) :
    ∃ p pending, merge.pending = p :: pending ∧ x = (p.input, p.row) ∧
      Advanced p pending rest.pending ∧ merge.failure = none ∧ rest.failure = none ∧
      rest.labels = merge.labels := by
  unfold next at h
  split at h
  · cases h
  · rename_i hf
    split at h
    · cases h
    · rename_i p pending hp
      dsimp only at h
      split at h
      · cases h
      · rename_i hr
        cases h
        exact ⟨p, pending, hp, rfl, .exhausted hr, hf, hf, rfl⟩
      · rename_i q hr
        cases h
        exact ⟨p, pending, hp, rfl, .refilled hr, hf, hf, rfl⟩

theorem next_eq_none {merge rest : Merge α} (h : merge.next = (.ok none, rest)) :
    merge.pending = [] ∧ merge.failure = none ∧ rest = merge := by
  unfold next at h
  split at h
  · cases h
  · rename_i hf
    split at h
    · rename_i hp
      cases h
      exact ⟨hp, hf, rfl⟩
    · dsimp only at h
      split at h <;> cases h

/-! ## All rows -/

/-- The rows up to the end or the first failure, and the failure. -/
def drain (merge : Merge α) : List (Nat × α) × Option CaptureError :=
  match _h : merge.next with
  | (.error e, _) => ([], some e)
  | (.ok none, _) => ([], none)
  | (.ok (some x), rest) => (x :: (drain rest).1, (drain rest).2)
termination_by merge.remaining
decreasing_by all_goals exact remaining_lt_of_next_eq _h

theorem drain_of_next_error {merge rest : Merge α} {e : CaptureError}
    (h : merge.next = (.error e, rest)) : merge.drain = ([], some e) := by
  rw [drain]
  split <;> simp_all

theorem drain_of_next_none {merge rest : Merge α} (h : merge.next = (.ok none, rest)) :
    merge.drain = ([], none) := by
  rw [drain]
  split <;> simp_all

theorem drain_of_next_some {merge rest : Merge α} {x : Nat × α}
    (h : merge.next = (.ok (some x), rest)) :
    merge.drain = (x :: rest.drain.1, rest.drain.2) := by
  rw [drain]
  split <;> simp_all

/-- The merge gives some rows one after another, and `last` is what it is then. -/
inductive Gives : Merge α → List (Nat × α) → Merge α → Prop where
  | nil (merge) : Gives merge [] merge
  | cons {merge x rest rows last} (h : merge.next = (.ok (some x), rest)) :
      Gives rest rows last → Gives merge (x :: rows) last

theorem exists_gives_drain (merge : Merge α) :
    ∃ last, Gives merge merge.drain.1 last ∧
      (merge.drain.2 = none → last.next = (.ok none, last)) := by
  fun_induction drain merge with
  | case1 merge => exact ⟨merge, .nil merge, by simp⟩
  | case2 merge rest hn =>
      obtain ⟨_, _, rfl⟩ := next_eq_none hn
      exact ⟨rest, .nil rest, fun _ => hn⟩
  | case3 merge x rest hn ih =>
      obtain ⟨last, hgives, hlast⟩ := ih
      exact ⟨last, .cons hn hgives, hlast⟩

theorem Gives.isPrefix {merge last : Merge α} {rows : List (Nat × α)} (h : Gives merge rows last) :
    rows <+: merge.drain.1 := by
  induction h with
  | nil => exact nil_prefix
  | cons hn _ ih =>
      rw [drain_of_next_some hn]
      exact (prefix_cons_inj _).mpr ih

/-! ## The order of pending rows -/

section Order

variable [TransCmp (compareKeys (α := α))]

instance : TransCmp fun p q : PendingRow α => compareKeys p.row q.row where
  eq_swap := OrientedCmp.eq_swap
  isLE_trans := TransCmp.isLE_trans

instance : TransCmp (comparePending (α := α)) :=
  inferInstanceAs (TransCmp (compareLex (fun p q : PendingRow α => compareKeys p.row q.row)
    (compareLex (compareOn PendingRow.label) (compareOn PendingRow.input))))

omit [TransCmp (compareKeys (α := α))] in
theorem input_eq_of_comparePending {p q : PendingRow α} (h : comparePending p q = .eq) :
    p.input = q.input := by
  rw [comparePending, Ordering.then_eq_eq, Ordering.then_eq_eq] at h
  exact LawfulEqOrd.eq_of_compare h.2.2

/-- The row after another in one input comes after it. -/
theorem comparePending_refill {p q : PendingRow α} (h : refill p = .ok (some q)) :
    comparePending p q = .lt := by
  have hkeys : compareKeys p.row q.row = .lt := OrientedCmp.lt_of_gt (refill_eq_some.mp h).2.1
  rw [comparePending, hkeys, Ordering.lt_then]

omit [TransCmp (compareKeys (α := α))] in
theorem insert_perm (p : PendingRow α) (pending : List (PendingRow α)) :
    insert p pending ~ p :: pending := by
  induction pending with
  | nil => rfl
  | cons q rest ih =>
      unfold insert
      split
      · rfl
      · exact (ih.cons q).trans (Perm.swap p q rest)

omit [TransCmp (compareKeys (α := α))] in
theorem Advanced.mem {p q : PendingRow α} {pending rest : List (PendingRow α)}
    (h : Advanced p pending rest) (hq : q ∈ rest) : q ∈ pending ∨ refill p = .ok (some q) := by
  cases h with
  | exhausted => exact .inl hq
  | @refilled r hr =>
      rcases mem_cons.mp ((insert_perm r pending).mem_iff.mp hq) with rfl | hq
      · exact .inr hr
      · exact .inl hq

omit [TransCmp (compareKeys (α := α))] in
theorem Advanced.of_mem {p q : PendingRow α} {pending rest : List (PendingRow α)}
    (h : Advanced p pending rest) (hq : q ∈ pending) : q ∈ rest := by
  cases h with
  | exhausted => exact hq
  | @refilled r => exact (insert_perm r pending).mem_iff.mpr (mem_cons_of_mem r hq)

/-- Pending rows of different inputs in ascending order. -/
structure Ascending (pending : List (PendingRow α)) : Prop where
  pairwise : pending.Pairwise fun p q => comparePending p q = .lt
  distinct : (pending.map PendingRow.input).Nodup

theorem Ascending.insert {p : PendingRow α} {pending : List (PendingRow α)} (h : Ascending pending)
    (hp : p.input ∉ pending.map PendingRow.input) : Ascending (insert p pending) := by
  refine ⟨?_, ((insert_perm p pending).map _).nodup_iff.mpr (nodup_cons.mpr ⟨hp, h.distinct⟩)⟩
  replace h := h.pairwise
  induction pending with
  | nil => simp [Merge.insert]
  | cons q rest ih =>
      obtain ⟨hq, hrest⟩ := pairwise_cons.mp h
      obtain ⟨hne, hp⟩ : p.input ≠ q.input ∧ p.input ∉ rest.map PendingRow.input := by
        simpa using hp
      unfold Merge.insert
      split
      · rename_i hlt
        refine pairwise_cons.mpr ⟨?_, h⟩
        intro r hr
        rcases mem_cons.mp hr with rfl | hr
        · exact hlt
        · exact TransCmp.lt_trans hlt (hq r hr)
      · rename_i hnlt
        refine pairwise_cons.mpr ⟨?_, ih hp hrest⟩
        intro r hr
        rcases mem_cons.mp ((insert_perm p rest).mem_iff.mp hr) with rfl | hr
        · cases hcmp : comparePending q r with
          | lt => rfl
          | eq => exact absurd (input_eq_of_comparePending hcmp).symm hne
          | gt => exact absurd (OrientedCmp.lt_of_gt hcmp) hnlt
        · exact hq r hr

theorem Ascending.advanced {p : PendingRow α} {pending rest : List (PendingRow α)}
    (h : Ascending (p :: pending)) (ha : Advanced p pending rest) : Ascending rest := by
  have hpending : Ascending pending :=
    ⟨(pairwise_cons.mp h.pairwise).2, (nodup_cons.mp (by simpa using h.distinct)).2⟩
  cases ha with
  | exhausted => exact hpending
  | @refilled q hq =>
      have hinput : q.input = p.input := by rw [(refill_eq_some.mp hq).2.2]
      exact hpending.insert (hinput ▸ (nodup_cons.mp (by simpa using h.distinct)).1)

/-- What is pending after a row was given comes after that row. -/
theorem Ascending.lt_of_advanced {p q : PendingRow α} {pending rest : List (PendingRow α)}
    (h : Ascending (p :: pending)) (ha : Advanced p pending rest) (hq : q ∈ rest) :
    comparePending p q = .lt := by
  rcases ha.mem hq with hq | hr
  · exact (pairwise_cons.mp h.pairwise).1 q hq
  · exact comparePending_refill hr

end Order

end ChangeCapture.Merge
