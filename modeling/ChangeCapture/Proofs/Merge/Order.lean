import ChangeCapture.Proofs.Merge.Draining

/-! # The order of a merge

Whatever the cursors yield, the rows that a merge gives before its first failure are in strictly
ascending order of key, label and input. -/

namespace ChangeCapture.Merge

open List MergeRow
open Std (TransCmp LawfulEqOrd)

variable {α : Type}

/-! ## Opening -/

/-- The first rows of some inputs, the first of which has a given index. -/
inductive Primed : Nat → List (MergeInput α) → List (PendingRow α) → Prop where
  | nil (index) : Primed index [] []
  | empty {index input inputs pending} (h : input.cursor.next = .ok none) :
      Primed (index + 1) inputs pending → Primed index (input :: inputs) pending
  | row {index input inputs pending row rest} (h : input.cursor.next = .ok (some (row, rest))) :
      Primed (index + 1) inputs pending →
      Primed index (input :: inputs) ({ input := index, label := input.label, row, rest } :: pending)

theorem primed_of_prime {index : Nat} {inputs : List (MergeInput α)} {pending : List (PendingRow α)}
    (h : prime index inputs = .ok pending) : Primed index inputs pending := by
  induction inputs generalizing index pending with
  | nil =>
      cases h
      exact .nil index
  | cons input inputs ih =>
      unfold prime at h
      split at h
      · cases h
      · rename_i hnext
        exact .empty hnext (ih h)
      · rename_i row rest hnext
        cases hrest : prime (index + 1) inputs with
        | error e =>
            rw [hrest] at h
            cases h
        | ok others =>
            rw [hrest] at h
            cases h
            exact .row hnext (ih hrest)

theorem Primed.prime_eq {index : Nat} {inputs : List (MergeInput α)} {pending : List (PendingRow α)}
    (h : Primed index inputs pending) : prime index inputs = .ok pending := by
  induction h with
  | nil => rfl
  | empty hnext _ ih => rw [prime, hnext, ih]
  | row hnext _ ih =>
      rw [prime, hnext, ih]
      rfl

/-- A pending row is the first one of its input. -/
theorem Primed.input_eq {index : Nat} {inputs : List (MergeInput α)} {pending : List (PendingRow α)}
    (h : Primed index inputs pending) :
    ∀ p ∈ pending, ∃ i, p.input = index + i ∧
      inputs[i]? = some ⟨p.label, { p.rest with rows := p.row :: p.rest.rows }⟩ := by
  induction h with
  | nil => simp
  | empty _ _ ih =>
      intro p hp
      obtain ⟨i, hi, hget⟩ := ih p hp
      exact ⟨i + 1, by omega, hget⟩
  | @row index input inputs pending row rest hnext _ ih =>
      intro p hp
      rcases mem_cons.mp hp with rfl | hp
      · refine ⟨0, rfl, ?_⟩
        rw [getElem?_cons_zero, ← cursor_eq_of_next hnext]
      · obtain ⟨i, hi, hget⟩ := ih p hp
        exact ⟨i + 1, by omega, hget⟩

/-- The first row of each input is pending. -/
theorem Primed.mem_pending {index : Nat} {inputs : List (MergeInput α)}
    {pending : List (PendingRow α)} (h : Primed index inputs pending) {i : Nat}
    {input : MergeInput α} (hi : inputs[i]? = some input) :
    input.cursor.next = .ok none ∨ ∃ row rest, input.cursor.next = .ok (some (row, rest)) ∧
      { input := index + i, label := input.label, row, rest } ∈ pending := by
  induction h generalizing i with
  | nil => simp at hi
  | @empty index head inputs pending hnext _ ih =>
      cases i with
      | zero =>
          cases hi
          exact .inl hnext
      | succ i => simpa [Nat.add_right_comm, Nat.add_assoc] using ih hi
  | @row index head inputs pending row rest hnext _ ih =>
      cases i with
      | zero =>
          cases hi
          exact .inr ⟨row, rest, hnext, mem_cons_self⟩
      | succ i =>
          rcases ih hi with h | ⟨row', rest', h, hmem⟩
          · exact .inl h
          · refine .inr ⟨row', rest', h, mem_cons_of_mem _ ?_⟩
            rwa [← Nat.add_assoc, Nat.add_right_comm]

theorem Primed.distinct {index : Nat} {inputs : List (MergeInput α)} {pending : List (PendingRow α)}
    (h : Primed index inputs pending) : (pending.map PendingRow.input).Nodup := by
  induction h with
  | nil => simp
  | empty _ _ ih => exact ih
  | @row index input inputs pending row rest _ hrest ih =>
      refine nodup_cons.mpr ⟨?_, ih⟩
      intro hmem
      obtain ⟨p, hp, hinput⟩ := mem_map.mp hmem
      obtain ⟨i, hi, _⟩ := hrest.input_eq p hp
      change p.input = index at hinput
      omega

variable [MergeRow α]

theorem start_eq_ok {inputs : List (MergeInput α)} {merge : Merge α} :
    start inputs = .ok merge ↔
      ∃ pending, Primed 0 inputs pending ∧
        merge = { labels := inputs.map MergeInput.label, pending := pending.foldr insert []
                  counts := inputs.map fun _ => 0 } := by
  unfold start
  constructor
  · intro h
    cases hprime : prime 0 inputs with
    | error e =>
        rw [hprime] at h
        cases h
    | ok pending =>
        rw [hprime] at h
        cases h
        exact ⟨pending, primed_of_prime hprime, rfl⟩
  · rintro ⟨pending, hprimed, rfl⟩
    rw [hprimed.prime_eq]
    rfl

theorem foldr_insert_perm (pending : List (PendingRow α)) :
    pending.foldr insert [] ~ pending := by
  induction pending with
  | nil => rfl
  | cons p pending ih => exact (insert_perm p _).trans (ih.cons p)

/-! ## Merges in order -/

variable [TransCmp (compareKeys (α := α))]

theorem ascending_foldr_insert {pending : List (PendingRow α)}
    (h : (pending.map PendingRow.input).Nodup) : Ascending (pending.foldr insert []) := by
  induction pending with
  | nil => exact ⟨.nil, nodup_nil⟩
  | cons p pending ih =>
      obtain ⟨hp, hrest⟩ := nodup_cons.mp h
      exact (ih hrest).insert (fun hmem => hp (((foldr_insert_perm pending).map _).mem_iff.mp hmem))

/-- The pending rows are in order and have the labels of their inputs. -/
structure Sound (merge : Merge α) : Prop where
  ascending : Ascending merge.pending
  labelled : ∀ p ∈ merge.pending, merge.label p.input = p.label

theorem sound_start {inputs : List (MergeInput α)} {merge : Merge α}
    (h : start inputs = .ok merge) : merge.Sound := by
  obtain ⟨pending, hprimed, rfl⟩ := start_eq_ok.mp h
  refine ⟨ascending_foldr_insert hprimed.distinct, fun p hp => ?_⟩
  obtain ⟨i, hi, hget⟩ := hprimed.input_eq p ((foldr_insert_perm pending).mem_iff.mp hp)
  rw [Nat.zero_add] at hi
  simp [label, hi, hget]

theorem Sound.next {merge rest : Merge α} {x : Nat × α} (h : merge.Sound)
    (hn : merge.next = (.ok (some x), rest)) : rest.Sound := by
  obtain ⟨p, pending, hp, _, ha, _, _, hlabels⟩ := next_eq_some hn
  obtain ⟨hascending, hlabelled⟩ := h
  rw [hp] at hascending hlabelled
  refine ⟨hascending.advanced ha, fun q hq => ?_⟩
  rw [label, hlabels]
  rcases ha.mem hq with hq | hr
  · exact hlabelled q (mem_cons_of_mem p hq)
  · rw [(refill_eq_some.mp hr).2.2]
    exact hlabelled p mem_cons_self

/-! ## The order of the rows -/

/-- Rows of inputs go by key, then by the label of the input, then by its index. -/
def compareGiven (labels : List String) (x y : Nat × α) : Ordering :=
  (compareKeys x.2 y.2).then
    ((compare (labels.getD x.1 "") (labels.getD y.1 "")).then (compare x.1 y.1))

omit [TransCmp (compareKeys (α := α))] in
theorem compareGiven_of_keys {labels : List String} {i j : Nat} {r s : α}
    (h : compareKeys r s = .lt) : compareGiven labels (i, r) (j, s) = .lt := by
  rw [compareGiven, h, Ordering.lt_then]

omit [TransCmp (compareKeys (α := α))] in
theorem compareGiven_eq {merge : Merge α} {p q : PendingRow α} (hp : merge.label p.input = p.label)
    (hq : merge.label q.input = q.label) :
    compareGiven merge.labels (p.input, p.row) (q.input, q.row) = comparePending p q := by
  rw [compareGiven, comparePending, ← hp, ← hq, label, label]

omit [TransCmp (compareKeys (α := α))] in
/-- Rows of inputs with different labels go by key and label alone. -/
theorem lt_of_distinct_labels {labels : List String} (hdistinct : labels.Nodup) {x y : Nat × α}
    (hx : x.1 < labels.length) (hy : y.1 < labels.length) (h : compareGiven labels x y = .lt) :
    (compareKeys x.2 y.2).then (compare (labels.getD x.1 "") (labels.getD y.1 "")) = .lt := by
  rw [compareGiven, ← Ordering.then_assoc, Ordering.then_eq_lt] at h
  refine h.resolve_right fun ⟨heq, hinput⟩ => ?_
  -- equal labels belong to one input, which is not before itself
  have hlabel := LawfulEqOrd.eq_of_compare (Ordering.then_eq_eq.mp heq).2
  simp only [getD_eq_getElem?_getD, getElem?_eq_getElem hx, getElem?_eq_getElem hy,
    Option.getD_some] at hlabel
  rw [hdistinct.getElem_inj_iff] at hlabel
  rw [hlabel, Std.ReflOrd.compare_self] at hinput
  cases hinput

/-- What lies before all pending rows lies before all rows that are given. -/
theorem Sound.drain_gt {merge : Merge α} (h : merge.Sound) {p : PendingRow α}
    (hp : merge.label p.input = p.label) (hlt : ∀ q ∈ merge.pending, comparePending p q = .lt) :
    ∀ y ∈ merge.drain.1, compareGiven merge.labels (p.input, p.row) y = .lt := by
  fun_induction drain merge with
  | case1 | case2 => simp
  | case3 merge x rest hn ih =>
      obtain ⟨q, pending, hpending, rfl, ha, _, _, hlabels⟩ := next_eq_some hn
      obtain ⟨hascending, hlabelled⟩ := h
      rw [hpending] at hascending hlabelled hlt
      have hq : comparePending p q = .lt := hlt q mem_cons_self
      intro y hy
      rcases mem_cons.mp hy with rfl | hy
      · rwa [compareGiven_eq hp (hlabelled q mem_cons_self)]
      · rw [← hlabels]
        refine ih (Sound.next ⟨hpending ▸ hascending, hpending ▸ hlabelled⟩ hn) ?_ ?_ y hy
        · rwa [label, hlabels]
        · exact fun r hr => TransCmp.lt_trans hq (hascending.lt_of_advanced ha hr)

/-- The rows come in strictly ascending order. -/
theorem Sound.drain_ascending {merge : Merge α} (h : merge.Sound) :
    merge.drain.1.Pairwise fun x y => compareGiven merge.labels x y = .lt := by
  fun_induction drain merge with
  | case1 | case2 => exact .nil
  | case3 merge x rest hn ih =>
      obtain ⟨p, pending, hpending, rfl, ha, _, _, hlabels⟩ := next_eq_some hn
      have hrest : rest.Sound := h.next hn
      rw [← hlabels]
      refine pairwise_cons.mpr ⟨hrest.drain_gt (p := p) ?_ ?_, ih hrest⟩
      · rw [label, hlabels]
        exact h.labelled p (hpending ▸ mem_cons_self)
      · exact fun q hq => (hpending ▸ h.ascending).lt_of_advanced ha hq

end ChangeCapture.Merge
