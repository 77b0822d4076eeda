import ChangeCapture.Proofs.Merge.Order

/-! # What a merge gives

Every row that is given was read from its input. A row of an input that is not given comes after all
rows that are, and only a failure keeps it back. -/

namespace ChangeCapture

/-- The cursor yields all of some rows, or as many of them as come before its failure. -/
structure Cursor.Reads {α : Type} (cursor : Cursor α) (rows : List α) : Prop where
  isPrefix : cursor.rows <+: rows
  complete : cursor.failure = none → cursor.rows = rows

namespace Merge

open List MergeRow
open Std (TransCmp OrientedCmp ReflCmp)

variable {α : Type}

/-! ## Where rows come from -/

/-- The pending row and what lies behind it were read from its input. -/
def Drawn (inputs : List (MergeInput α)) (p : PendingRow α) : Prop :=
  ∃ input, inputs[p.input]? = some input ∧ p.row :: p.rest.rows <:+ input.cursor.rows

variable [MergeRow α]

theorem Drawn.refill {inputs : List (MergeInput α)} {p q : PendingRow α} (h : Drawn inputs p)
    (hq : refill p = .ok (some q)) : Drawn inputs q := by
  obtain ⟨hrows, _, hq⟩ := refill_eq_some.mp hq
  obtain ⟨input, hget, hsuffix⟩ := h
  refine ⟨input, by rwa [hq], ?_⟩
  rw [← hrows]
  exact (suffix_cons p.row _).trans hsuffix

theorem drawn_start {inputs : List (MergeInput α)} {merge : Merge α}
    (h : start inputs = .ok merge) : ∀ p ∈ merge.pending, Drawn inputs p := by
  obtain ⟨pending, hprimed, rfl⟩ := start_eq_ok.mp h
  intro p hp
  obtain ⟨i, hi, hget⟩ := hprimed.input_eq p ((foldr_insert_perm pending).mem_iff.mp hp)
  rw [Nat.zero_add] at hi
  exact ⟨_, hi ▸ hget, suffix_rfl⟩

/-- The rows that are given are rows of the inputs. -/
theorem mem_of_mem_drain {inputs : List (MergeInput α)} {merge : Merge α}
    (h : ∀ p ∈ merge.pending, Drawn inputs p) :
    ∀ x ∈ merge.drain.1, ∃ input, inputs[x.1]? = some input ∧ x.2 ∈ input.cursor.rows := by
  fun_induction drain merge with
  | case1 | case2 => simp
  | case3 merge x rest hn ih =>
      obtain ⟨p, pending, hpending, rfl, ha, _⟩ := next_eq_some hn
      rw [hpending] at h
      intro x hx
      rcases mem_cons.mp hx with rfl | hx
      · obtain ⟨input, hget, hsuffix⟩ := h p mem_cons_self
        exact ⟨input, hget, hsuffix.subset mem_cons_self⟩
      · refine ih (fun q hq => ?_) x hx
        rcases ha.mem hq with hq | hr
        · exact h q (mem_cons_of_mem p hq)
        · exact (h p mem_cons_self).refill hr

/-! ## What is still to come -/

/-- What lies behind the pending row reads the rest of the rows of its input. -/
def Follows (full : Nat → List α) (p : PendingRow α) : Prop :=
  ∃ done rest, full p.input = done ++ p.row :: rest ∧ p.rest.Reads rest

theorem Follows.refill {full : Nat → List α} {p q : PendingRow α} (h : Follows full p)
    (hq : refill p = .ok (some q)) : Follows full q := by
  obtain ⟨hrows, _, hq⟩ := refill_eq_some.mp hq
  obtain ⟨done, rest, hfull, hreads⟩ := h
  obtain ⟨cut, hcut⟩ := hrows ▸ hreads.isPrefix
  refine ⟨done ++ [p.row], q.rest.rows ++ cut, ?_, prefix_append _ _, fun hnone => ?_⟩
  · rw [show q.input = p.input by rw [hq], hfull, ← hcut]
    simp
  · have hcomplete := hreads.complete (by rw [← hnone, hq])
    rw [hrows, ← hcut] at hcomplete
    exact (cons.inj hcomplete).2

theorem follows_start {inputs : List (MergeInput α)} {merge : Merge α} {full : Nat → List α}
    (h : start inputs = .ok merge)
    (hfull : ∀ i (input : MergeInput α), inputs[i]? = some input → input.cursor.Reads (full i)) :
    ∀ p ∈ merge.pending, Follows full p := by
  obtain ⟨pending, hprimed, rfl⟩ := start_eq_ok.mp h
  intro p hp
  obtain ⟨i, hi, hget⟩ := hprimed.input_eq p ((foldr_insert_perm pending).mem_iff.mp hp)
  rw [Nat.zero_add] at hi
  obtain ⟨⟨cut, hcut⟩, hcomplete⟩ := hfull i _ hget
  refine ⟨[], p.rest.rows ++ cut, ?_, prefix_append _ _, fun hnone => ?_⟩
  · rw [hi, ← hcut]
    rfl
  · have := hcomplete hnone
    rw [← hcut] at this
    exact (cons.inj this).2

/-- The row is the pending one or comes after it. -/
def Upcoming (p : PendingRow α) (row : α) : Prop := row = p.row ∨ compareKeys p.row row = .lt

section Order

variable [TransCmp (compareKeys (α := α))] {full : Nat → List α}

/-- After the pending row, every row of its input is still to come, if the input can be read on. -/
theorem Upcoming.refill {p : PendingRow α} {row : α}
    (hsorted : (full p.input).Pairwise fun r s => compareKeys r s = .lt) (h : Follows full p)
    (hrow : row ∈ full p.input) (hlt : compareKeys p.row row = .lt)
    {pending rest : List (PendingRow α)} (ha : Advanced p pending rest) :
    ∃ q ∈ rest, q.input = p.input ∧ Upcoming q row := by
  obtain ⟨done, later, hfull, hreads⟩ := h
  rw [hfull, pairwise_append, pairwise_cons] at hsorted
  obtain ⟨_, ⟨_, hlater⟩, hdone⟩ := hsorted
  have hmem : row ∈ later := by
    rcases mem_append.mp (hfull ▸ hrow) with hmem | hmem
    · have hgt := hdone row hmem p.row mem_cons_self
      cases (OrientedCmp.gt_of_lt hlt).symm.trans hgt
    · rcases mem_cons.mp hmem with rfl | hmem
      · cases hlt.symm.trans ReflCmp.compare_self
      · exact hmem
  cases ha with
  | exhausted hr =>
      obtain ⟨hrows, hnone⟩ := refill_eq_none.mp hr
      rw [← hreads.complete hnone, hrows] at hmem
      cases hmem
  | @refilled q hr =>
      obtain ⟨hrows, _, hq⟩ := refill_eq_some.mp hr
      refine ⟨q, (insert_perm q pending).mem_iff.mpr mem_cons_self, by rw [hq], ?_⟩
      obtain ⟨cut, rfl⟩ := hreads.isPrefix
      rw [hrows, cons_append] at hmem hlater
      rcases mem_cons.mp hmem with rfl | hmem
      · exact .inl rfl
      · exact .inr ((pairwise_cons.mp hlater).1 row hmem)

instance (labels : List String) : TransCmp (compareGiven (α := α) labels) :=
  haveI : TransCmp fun x y : Nat × α => compareKeys x.2 y.2 :=
    { eq_swap := OrientedCmp.eq_swap, isLE_trans := TransCmp.isLE_trans }
  inferInstanceAs (TransCmp (compareLex (fun x y : Nat × α => compareKeys x.2 y.2)
    (compareLex (compareOn fun x => labels.getD x.1 "") (compareOn Prod.fst))))

/-- A row that is still to come is given now, or it lies behind the given one and is still to come. -/
theorem Sound.upcoming_next {merge : Merge α} (h : merge.Sound)
    (hsorted : ∀ i, (full i).Pairwise fun r s => compareKeys r s = .lt)
    (hfull : ∀ p ∈ merge.pending, Follows full p) {p₀ : PendingRow α}
    {pending rest : List (PendingRow α)} (hpending : merge.pending = p₀ :: pending)
    (ha : Advanced p₀ pending rest) {p : PendingRow α} (hp : p ∈ merge.pending) {row : α}
    (hrow : row ∈ full p.input) (hup : Upcoming p row) :
    (p.input, row) = (p₀.input, p₀.row) ∨
      compareGiven merge.labels (p₀.input, p₀.row) (p.input, row) = .lt ∧
        ∃ q ∈ rest, q.input = p.input ∧ Upcoming q row := by
  have hfollows : Follows full p := hfull p hp
  obtain ⟨hascending, hlabelled⟩ := h
  rw [hpending] at hascending hlabelled hp
  have hlabel : merge.label p₀.input = p₀.label := hlabelled p₀ mem_cons_self
  rcases mem_cons.mp hp with rfl | hp
  · rcases hup with rfl | hlt
    · exact .inl rfl
    · exact .inr ⟨compareGiven_of_keys hlt, Upcoming.refill (hsorted _) hfollows hrow hlt ha⟩
  · have hbefore : compareGiven merge.labels (p₀.input, p₀.row) (p.input, p.row) = .lt := by
      rw [compareGiven_eq hlabel (hlabelled p (mem_cons_of_mem p₀ hp))]
      exact (pairwise_cons.mp hascending.pairwise).1 p hp
    refine .inr ⟨?_, p, ha.of_mem hp, rfl, hup⟩
    rcases hup with rfl | hlt
    · exact hbefore
    · exact TransCmp.lt_trans hbefore (compareGiven_of_keys hlt)

/-- A row that is still to come is given, or a failure comes before it. -/
theorem Sound.drain_upcoming {merge : Merge α} (h : merge.Sound)
    (hsorted : ∀ i, (full i).Pairwise fun r s => compareKeys r s = .lt)
    (hfull : ∀ p ∈ merge.pending, Follows full p) {p : PendingRow α} (hp : p ∈ merge.pending)
    {row : α} (hrow : row ∈ full p.input) (hup : Upcoming p row) :
    (p.input, row) ∈ merge.drain.1 ∨ merge.drain.2.isSome ∧
      ∀ x ∈ merge.drain.1, compareGiven merge.labels x (p.input, row) = .lt := by
  fun_induction drain merge generalizing p with
  | case1 => exact .inr ⟨rfl, by simp⟩
  | case2 merge rest hn =>
      rw [(next_eq_none hn).1] at hp
      cases hp
  | case3 merge x rest hn ih =>
      obtain ⟨p₀, pending, hpending, rfl, ha, _, _, hlabels⟩ := next_eq_some hn
      have hfollows : ∀ q ∈ rest.pending, Follows full q := by
        intro q hq
        rcases ha.mem hq with hq | hr
        · exact hfull q (hpending ▸ mem_cons_of_mem p₀ hq)
        · exact (hfull p₀ (hpending ▸ mem_cons_self)).refill hr
      rcases h.upcoming_next hsorted hfull hpending ha hp hrow hup with heq | ⟨hlt, q, hq, hinput, hq'⟩
      · exact .inl (heq ▸ mem_cons_self)
      · rw [← hinput] at hrow hlt ⊢
        rcases ih (h.next hn) hfollows hq hrow hq' with hmem | ⟨hfailed, hbefore⟩
        · exact .inl (mem_cons_of_mem _ hmem)
        · refine .inr ⟨hfailed, fun y hy => ?_⟩
          rcases mem_cons.mp hy with rfl | hy
          · exact hlt
          · exact hlabels ▸ hbefore y hy

/-- Every row of the inputs is given, or a failure comes before it. -/
theorem drain_covers {inputs : List (MergeInput α)} {merge : Merge α}
    (h : start inputs = .ok merge)
    (hsorted : ∀ i, (full i).Pairwise fun r s => compareKeys r s = .lt)
    (hreads : ∀ i (input : MergeInput α), inputs[i]? = some input → input.cursor.Reads (full i))
    {i : Nat} (hi : i < inputs.length) {row : α} (hrow : row ∈ full i) :
    (i, row) ∈ merge.drain.1 ∨ merge.drain.2.isSome ∧
      ∀ x ∈ merge.drain.1, compareGiven merge.labels x (i, row) = .lt := by
  have hsound : merge.Sound := sound_start h
  have hfollows : ∀ p ∈ merge.pending, Follows full p := follows_start h hreads
  obtain ⟨pending, hprimed, rfl⟩ := start_eq_ok.mp h
  have hget : inputs[i]? = some inputs[i] := getElem?_eq_getElem hi
  have hcursor := hreads i inputs[i] hget
  rcases hprimed.mem_pending hget with hnext | ⟨first, rest, hnext, hp⟩
  · -- an input without rows that has not failed has no row to give
    rw [cursor_eq_of_next_none hnext] at hcursor
    rw [← hcursor.complete rfl] at hrow
    cases hrow
  · rw [Nat.zero_add] at hp
    rw [cursor_eq_of_next hnext] at hcursor
    obtain ⟨cut, hcut⟩ := hcursor.isPrefix
    rw [cons_append] at hcut
    refine hsound.drain_upcoming hsorted hfollows ((foldr_insert_perm pending).mem_iff.mpr hp)
      hrow ?_
    rcases mem_cons.mp (hcut ▸ hrow) with rfl | hmem
    · exact .inl rfl
    · exact .inr ((pairwise_cons.mp (hcut ▸ hsorted i)).1 row hmem)

end Order

end Merge

end ChangeCapture
