import ChangeCapture.Proofs.Merge.Completeness
import ChangeCapture.Proofs.Order

/-! # Merges without failures

When no cursor fails and each yields its rows in strict order, a merge gives the rows of all its inputs
in the order of key, label and input, and then nothing for ever. -/

namespace ChangeCapture

open List MergeRow
open Std (TransCmp OrientedCmp)

variable {α : Type} [MergeRow α]

/-- All rows of the cursor can be read, and they are in strict order. -/
structure Cursor.Orderly (cursor : Cursor α) : Prop where
  failure : cursor.failure = none
  ascending : cursor.rows.Pairwise fun r s => compareKeys r s = .lt

/-- All rows behind the pending one can be read, and they go on in strict order. -/
structure PendingRow.Orderly (p : PendingRow α) : Prop where
  failure : p.rest.failure = none
  ascending : (p.row :: p.rest.rows).Pairwise fun r s => compareKeys r s = .lt

namespace Merge

/-! ## Counting -/

/-- The rows of one input among those that were given. -/
def ofInput (i : Nat) (rows : List (Nat × α)) : List α :=
  (rows.filter fun x => x.1 = i).map Prod.snd

omit [MergeRow α] in
theorem mem_ofInput {i : Nat} {rows : List (Nat × α)} {row : α} :
    row ∈ ofInput i rows ↔ (i, row) ∈ rows := by
  simp [ofInput]

omit [MergeRow α] in
theorem ofInput_cons_self (i : Nat) (row : α) (rows : List (Nat × α)) :
    ofInput i ((i, row) :: rows) = row :: ofInput i rows := by
  simp [ofInput]

omit [MergeRow α] in
theorem ofInput_cons_of_ne {i j : Nat} (hne : j ≠ i) (row : α) (rows : List (Nat × α)) :
    ofInput j ((i, row) :: rows) = ofInput j rows := by
  simp [ofInput, hne.symm]

theorem counts_next {merge rest : Merge α} {x : Nat × α} (h : merge.next = (.ok (some x), rest)) :
    rest.counts = merge.counts.modify x.1 (· + 1) := by
  unfold next at h
  split at h
  · cases h
  · split at h
    · cases h
    · dsimp only at h
      split at h <;> cases h <;> rfl

/-- Every row that is given counts for its input. -/
theorem Gives.rowsFrom_eq {merge last : Merge α} {rows : List (Nat × α)} (h : Gives merge rows last)
    {i : Nat} (hi : i < merge.counts.length) :
    last.rowsFrom i = merge.rowsFrom i + (ofInput i rows).length := by
  induction h with
  | nil => rfl
  | @cons merge x rest rows last hn _ ih =>
      have hcounts := counts_next hn
      have hrest : rest.rowsFrom i = merge.rowsFrom i + if x.1 = i then 1 else 0 := by
        simp only [rowsFrom, hcounts, getD_eq_getElem?_getD, getElem?_modify]
        rw [getElem?_eq_getElem hi]
        split <;> simp
      rw [ih (by rwa [hcounts, length_modify]), hrest]
      by_cases hx : x.1 = i
      · simp [ofInput, hx]
        omega
      · simp [ofInput, hx]

/-! ## Opening and reading -/

theorem exists_start {inputs : List (MergeInput α)}
    (h : ∀ input ∈ inputs, input.cursor.Orderly) : ∃ merge, start inputs = .ok merge := by
  have hprime (index : Nat) : ∃ pending, prime index inputs = .ok pending := by
    induction inputs generalizing index with
    | nil => exact ⟨[], rfl⟩
    | cons input inputs ih =>
        obtain ⟨hinput, hinputs⟩ := forall_mem_cons.mp h
        obtain ⟨pending, hpending⟩ := ih hinputs (index + 1)
        unfold prime Cursor.next
        cases input.cursor.rows with
        | nil => exact ⟨pending, by simp [hinput.failure, hpending]⟩
        | cons row rows => exact ⟨_, by simp only [hpending]; rfl⟩
  obtain ⟨pending, hpending⟩ := hprime 0
  exact ⟨_, start_eq_ok.mpr ⟨pending, primed_of_prime hpending, rfl⟩⟩

theorem orderly_of_start {inputs : List (MergeInput α)} {merge : Merge α}
    (h : ∀ input ∈ inputs, input.cursor.Orderly) (hstart : start inputs = .ok merge) :
    ∀ p ∈ merge.pending, p.Orderly := by
  obtain ⟨pending, hprimed, rfl⟩ := start_eq_ok.mp hstart
  intro p hp
  obtain ⟨i, _, hget⟩ := hprimed.input_eq p ((foldr_insert_perm pending).mem_iff.mp hp)
  have horderly := h _ (mem_of_getElem? hget)
  exact ⟨horderly.failure, horderly.ascending⟩

variable [TransCmp (compareKeys (α := α))]

/-- A pending row is followed by an orderly one or by none. -/
theorem exists_refill {p : PendingRow α} (h : p.Orderly) :
    ∃ found, refill p = .ok found ∧ ∀ q ∈ found, q.Orderly := by
  obtain ⟨hfailure, hrows⟩ := h
  cases hrest : p.rest.rows with
  | nil => exact ⟨none, refill_eq_none.mpr ⟨hrest, hfailure⟩, by simp⟩
  | cons row rows =>
      rw [hrest, pairwise_cons] at hrows
      have hgt : compareKeys row p.row = .gt := OrientedCmp.gt_of_lt (hrows.1 row mem_cons_self)
      refine ⟨some { p with row, rest := { p.rest with rows } },
        refill_eq_some.mpr ⟨hrest, hgt, rfl⟩, fun q hq => ?_⟩
      cases hq
      exact ⟨hfailure, hrows.2⟩

theorem next_ne_error {merge rest : Merge α} {e : CaptureError} (hfailure : merge.failure = none)
    (h : ∀ p ∈ merge.pending, p.Orderly) : merge.next ≠ (.error e, rest) := by
  intro hn
  unfold next at hn
  rw [hfailure] at hn
  dsimp only at hn
  split at hn
  · cases hn
  · rename_i p pending hpending
    obtain ⟨found, hfound, _⟩ := exists_refill (h p (by simp [hpending]))
    rw [hfound] at hn
    cases found <;> cases hn

theorem drain_failure_eq_none {merge : Merge α} (hfailure : merge.failure = none)
    (h : ∀ p ∈ merge.pending, p.Orderly) : merge.drain.2 = none := by
  fun_induction drain merge with
  | case1 merge e rest hn => exact absurd hn (next_ne_error hfailure h)
  | case2 => rfl
  | case3 merge x rest hn ih =>
      obtain ⟨p, pending, hpending, _, ha, _, hrest, _⟩ := next_eq_some hn
      obtain ⟨found, hfound, horderly⟩ := exists_refill (h p (by simp [hpending]))
      refine ih hrest fun q hq => ?_
      rcases ha.mem hq with hq | hq
      · exact h q (by simp [hpending, hq])
      · cases hfound.symm.trans hq
        exact horderly q rfl

/-! ## The rows of all inputs -/

/-- The rows are those of all inputs, tagged with the indices of the inputs, in the order of key, label
and input. -/
structure Unites (inputs : List (MergeInput α)) (rows : List (Nat × α)) : Prop where
  ascending : rows.Pairwise fun x y => compareGiven (inputs.map MergeInput.label) x y = .lt
  input_lt : ∀ x ∈ rows, x.1 < inputs.length
  ofInput_eq : ∀ (i : Nat) (input : MergeInput α), inputs[i]? = some input →
    ofInput i rows = input.cursor.rows

theorem unites_drain {inputs : List (MergeInput α)} {merge : Merge α}
    (h : ∀ input ∈ inputs, input.cursor.Orderly) (hstart : start inputs = .ok merge)
    (hend : merge.drain.2 = none) : Unites inputs merge.drain.1 := by
  obtain ⟨pending, hprimed, hmerge⟩ := start_eq_ok.mp hstart
  have hlabels : merge.labels = inputs.map MergeInput.label := by rw [hmerge]
  have hascending := hlabels ▸ (sound_start hstart).drain_ascending
  have hdrawn := mem_of_mem_drain (drawn_start hstart)
  refine ⟨hascending, fun x hx => ?_, fun i input hi => ?_⟩
  · obtain ⟨input, hget, _⟩ := hdrawn x hx
    exact (List.getElem?_eq_some_iff.mp hget).1
  · have hinput := h input (mem_of_getElem? hi)
    let full (j : Nat) : List α := (inputs[j]?.map fun input => input.cursor.rows).getD []
    have hfull (j : Nat) (input' : MergeInput α) (hj : inputs[j]? = some input') :
        full j = input'.cursor.rows := by simp [full, hj]
    have hsorted (j : Nat) : (full j).Pairwise fun r s => compareKeys r s = .lt := by
      cases hj : inputs[j]? with
      | none => simp [full, hj]
      | some input' => exact hfull j input' hj ▸ (h input' (mem_of_getElem? hj)).ascending
    refine @eq_of_ascending α compareKeys _ _ _ ?_ hinput.ascending fun row => ?_
    · -- rows of one input differ in their keys only
      refine pairwise_map.mpr ((hascending.filter _).imp_of_mem fun {x y} hx hy hlt => ?_)
      simp only [mem_filter, decide_eq_true_eq] at hx hy
      simpa [compareGiven, hx.2, hy.2] using hlt
    · rw [mem_ofInput]
      constructor
      · intro hrow
        obtain ⟨input', hget, hmem⟩ := hdrawn _ hrow
        cases hi.symm.trans hget
        exact hmem
      · intro hrow
        have hcovers := drain_covers hstart hsorted
          (fun j input' hj => ⟨hfull j input' hj ▸ prefix_rfl, fun _ => (hfull j input' hj).symm⟩)
          (List.getElem?_eq_some_iff.mp hi).1 (hfull i input hi ▸ hrow)
        exact hcovers.resolve_right (by simp [hend])

/-! ## The order of the inputs -/

/-- The rows with the labels of their inputs. -/
def labelled (inputs : List (MergeInput α)) (rows : List (Nat × α)) : List (String × α) :=
  rows.map fun x => ((inputs.map MergeInput.label).getD x.1 "", x.2)

/-- Labelled rows go by key and then by label. -/
def compareLabelled (x y : String × α) : Ordering :=
  (compareKeys x.2 y.2).then (compare x.1 y.1)

instance : TransCmp (compareLabelled (α := α)) :=
  haveI : TransCmp fun x y : String × α => compareKeys x.2 y.2 :=
    { eq_swap := OrientedCmp.eq_swap, isLE_trans := TransCmp.isLE_trans }
  inferInstanceAs (TransCmp (compareLex (fun x y : String × α => compareKeys x.2 y.2)
    (compareOn Prod.fst)))

namespace Unites

variable {inputs inputs' : List (MergeInput α)} {rows rows' : List (Nat × α)}

omit [TransCmp (compareKeys (α := α))] in
theorem mem_labelled (h : Unites inputs rows) (a : String × α) :
    a ∈ labelled inputs rows ↔ ∃ input ∈ inputs, a.1 = input.label ∧ a.2 ∈ input.cursor.rows := by
  rw [labelled, mem_map]
  constructor
  · rintro ⟨⟨i, row⟩, hx, rfl⟩
    obtain ⟨input, hi⟩ : ∃ input, inputs[i]? = some input :=
      ⟨_, getElem?_eq_getElem (h.input_lt _ hx)⟩
    refine ⟨input, mem_of_getElem? hi, by simp [hi], ?_⟩
    rw [← h.ofInput_eq i _ hi]
    exact mem_ofInput.mpr hx
  · rintro ⟨input, hinput, hlabel, hrow⟩
    obtain ⟨i, hi⟩ := mem_iff_getElem?.mp hinput
    refine ⟨(i, a.2), mem_ofInput.mp (h.ofInput_eq i input hi ▸ hrow), ?_⟩
    simp [hi, ← hlabel]

omit [TransCmp (compareKeys (α := α))] in
theorem labelled_ascending (h : Unites inputs rows)
    (hlabels : (inputs.map MergeInput.label).Nodup) :
    (labelled inputs rows).Pairwise fun a b => compareLabelled a b = .lt := by
  refine pairwise_map.mpr (h.ascending.imp_of_mem fun {x y} hx hy hlt => ?_)
  exact lt_of_distinct_labels hlabels (by simpa using h.input_lt x hx)
    (by simpa using h.input_lt y hy) hlt

/-- With different labels the order of the inputs does not matter. -/
theorem labelled_eq (h : Unites inputs rows) (h' : Unites inputs' rows') (hperm : inputs' ~ inputs)
    (hlabels : (inputs.map MergeInput.label).Nodup) : labelled inputs' rows' = labelled inputs rows := by
  have hlabels' : (inputs'.map MergeInput.label).Nodup := (hperm.map _).nodup_iff.mpr hlabels
  refine eq_of_ascending (h'.labelled_ascending hlabels') (h.labelled_ascending hlabels) fun a => ?_
  rw [h'.mem_labelled, h.mem_labelled]
  simp only [hperm.mem_iff]

end Unites

/-! ## Draining without failures -/

/-- The merge of some inputs gives exactly some rows and then, as `last`, nothing for ever. -/
def Drains (inputs : List (MergeInput α)) (rows : List (Nat × α)) (last : Merge α) : Prop :=
  ∃ merge, start inputs = .ok merge ∧ Gives merge rows last ∧ last.next = (.ok none, last)

theorem exists_drains {inputs : List (MergeInput α)} (h : ∀ input ∈ inputs, input.cursor.Orderly) :
    ∃ rows last, Drains inputs rows last ∧ Unites inputs rows ∧
      ∀ i < inputs.length, last.rowsFrom i = (ofInput i rows).length := by
  obtain ⟨merge, hstart⟩ := exists_start h
  obtain ⟨last, hgives, hlast⟩ := exists_gives_drain merge
  obtain ⟨pending, _, hmerge⟩ := start_eq_ok.mp hstart
  have hend : merge.drain.2 = none :=
    drain_failure_eq_none (by rw [hmerge]) (orderly_of_start h hstart)
  refine ⟨_, last, ⟨merge, hstart, hgives, hlast hend⟩, unites_drain h hstart hend, fun i hi => ?_⟩
  rw [hgives.rowsFrom_eq (by simpa [hmerge] using hi)]
  simp [rowsFrom, hmerge, hi]

/-- When the cursors of all inputs are orderly, their merge gives all their rows in order and counts them,
and then nothing for ever. If the labels are different, the labelled rows are the same in whatever order
the inputs are listed. -/
theorem drains_in_order {inputs : List (MergeInput α)}
    (h : ∀ input ∈ inputs, input.cursor.Orderly) :
    ∃ rows last, Drains inputs rows last ∧
      rows.Pairwise (fun x y => compareGiven (inputs.map MergeInput.label) x y = .lt) ∧
      (∀ x ∈ rows, x.1 < inputs.length) ∧
      (∀ (i : Nat) (input : MergeInput α), inputs[i]? = some input →
        ofInput i rows = input.cursor.rows ∧ last.rowsFrom i = input.cursor.rows.length) ∧
      ((inputs.map MergeInput.label).Nodup → ∀ inputs', inputs' ~ inputs →
        ∃ rows' last', Drains inputs' rows' last' ∧ labelled inputs' rows' = labelled inputs rows) := by
  obtain ⟨rows, last, hdrains, hunites, hcounts⟩ := exists_drains h
  refine ⟨rows, last, hdrains, hunites.ascending, hunites.input_lt, fun i input hi => ?_,
    fun hlabels inputs' hperm => ?_⟩
  · have hrows := hunites.ofInput_eq i input hi
    exact ⟨hrows, hrows ▸ hcounts i (List.getElem?_eq_some_iff.mp hi).1⟩
  · obtain ⟨rows', last', hdrains', hunites', _⟩ :=
      exists_drains fun input hinput => h input (hperm.mem_iff.mp hinput)
    exact ⟨rows', last', hdrains', hunites.labelled_eq hunites' hperm hlabels⟩

namespace Sample

def row (position : Nat) : ChangeRow :=
  { startLsn := .ofNat position, seqval := .ofNat 1, operation := 2, values := [] }

/-- Two inputs that share a key, and one without rows. -/
def inputs : List (MergeInput ChangeRow) :=
  [⟨"orders", { rows := [row 5, row 15] }⟩, ⟨"items", { rows := [row 5, row 7] }⟩,
    ⟨"customers", { rows := [] }⟩]

theorem orderly_inputs : ∀ input ∈ inputs, input.cursor.Orderly := by
  simp only [inputs, forall_mem_cons]
  exact ⟨⟨rfl, by decide⟩, ⟨rfl, by decide⟩, ⟨rfl, by decide⟩, by simp⟩

end Sample

open Sample in
theorem drains_in_order_of_sample :
    ∃ rows last, Drains inputs rows last ∧ ofInput 1 rows = [row 5, row 7] ∧ last.rowsFrom 1 = 2 ∧
      ∃ rows' last', Drains inputs.reverse rows' last' ∧
        labelled inputs.reverse rows' = labelled inputs rows := by
  obtain ⟨rows, last, hdrains, _, _, hinputs, horder⟩ := drains_in_order orderly_inputs
  obtain ⟨hrows, hcount⟩ := hinputs 1 _ rfl
  exact ⟨rows, last, hdrains, hrows, hcount, horder (by decide) _ (reverse_perm inputs)⟩

end Merge

end ChangeCapture
