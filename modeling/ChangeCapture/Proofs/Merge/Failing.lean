import ChangeCapture.Proofs.Merge.Union

/-! # Merges that fail

A merge fails when it cannot read on behind the row that it is about to give. What was given until then
are first rows of the inputs in order, the row is lost, and the merge stays failed. -/

namespace ChangeCapture

open List MergeRow
open Std (TransCmp OrientedCmp ReflCmp)

variable {α : Type} [MergeRow α]

/-- Behind some rows that were given and one that was not, the cursor cannot be read on: it fails there,
or the key of the next row is not greater. -/
inductive Cursor.Breaks (cursor : Cursor α) (given : List α) (lost : α) : String → Prop where
  | failed {e} (hrows : cursor.rows = given ++ [lost]) (h : cursor.failure = some e) :
      Breaks cursor given lost e.message
  | notAdvanced {row rest} (hrows : cursor.rows = given ++ lost :: row :: rest)
      (h : compareKeys row lost ≠ .gt) : Breaks cursor given lost (Merge.keyNotAdvanced row lost)

namespace Merge

/-! ## Failures -/

theorem breaks_of_refill {p : PendingRow α} {message : String} (h : refill p = .error message)
    (given : List α) :
    Cursor.Breaks ⟨given ++ p.row :: p.rest.rows, p.rest.failure⟩ given p.row message := by
  unfold refill Cursor.next at h
  cases hrows : p.rest.rows with
  | nil =>
      rw [hrows] at h
      cases hfailure : p.rest.failure with
      | none => simp [hfailure] at h
      | some e =>
          simp only [hfailure, Except.error.injEq] at h
          subst h
          exact .failed rfl rfl
  | cons row rest =>
      rw [hrows] at h
      simp only at h
      split at h
      · cases h
      · rename_i hkeys
        cases h
        exact .notAdvanced rfl hkeys

/-- A merge that did not fail before fails with its least pending row. -/
theorem next_eq_error {merge rest : Merge α} {e : CaptureError} (hfailure : merge.failure = none)
    (h : merge.next = (.error e, rest)) :
    ∃ p pending message, merge.pending = p :: pending ∧ refill p = .error message ∧
      e = readFailure (p.label, message) ∧ rest.failure = some (p.label, message) := by
  unfold next at h
  rw [hfailure] at h
  dsimp only at h
  split at h
  · cases h
  · rename_i p pending hpending
    split at h
    · rename_i message hrefill
      cases h
      exact ⟨p, pending, message, hpending, hrefill, rfl, rfl⟩
    · cases h
    · cases h

theorem next_of_failure {merge : Merge α} {failure : String × String}
    (h : merge.failure = some failure) : merge.next = (.error (readFailure failure), merge) := by
  unfold next
  rw [h]

/-- Whatever it failed of, a merge stays as it is and fails again. -/
theorem next_of_next_error {merge rest : Merge α} {e : CaptureError}
    (h : merge.next = (.error e, rest)) : rest.next = (.error e, rest) := by
  cases hfailure : merge.failure with
  | none =>
      obtain ⟨_, _, _, _, _, rfl, hfailed⟩ := next_eq_error hfailure h
      exact next_of_failure hfailed
  | some failure =>
      have hnext := next_of_failure hfailure
      rw [hnext] at h
      cases h
      exact hnext

/-- The merge after some more calls. -/
def after (merge : Merge α) : Nat → Merge α
  | 0 => merge
  | calls + 1 => merge.next.2.after calls

theorem after_of_failure {merge : Merge α} {failure : String × String}
    (h : merge.failure = some failure) (calls : Nat) : merge.after calls = merge := by
  induction calls with
  | zero => rfl
  | succ calls ih => rw [after, next_of_failure h, ih]

omit [MergeRow α] in
theorem cursor_eq_of_next_error {cursor : Cursor α} {e : CaptureError}
    (h : cursor.next = .error e) : cursor = ⟨[], some e⟩ := by
  obtain ⟨rows, failure⟩ := cursor
  cases rows <;> cases failure <;> simp_all [Cursor.next]

omit [MergeRow α] in
theorem prime_eq_error {index : Nat} {inputs : List (MergeInput α)} {e : CaptureError}
    (h : prime index inputs = .error e) :
    ∃ input ∈ inputs, ∃ cause, input.cursor = ⟨[], some cause⟩ ∧
      e = .streamRead input.label cause.message := by
  induction inputs generalizing index with
  | nil => cases h
  | cons input inputs ih =>
      have hlater (h : prime (index + 1) inputs = .error e) :
          ∃ input' ∈ input :: inputs, ∃ cause, input'.cursor = ⟨[], some cause⟩ ∧
            e = .streamRead input'.label cause.message := by
        obtain ⟨failed, hmem, hfailed⟩ := ih h
        exact ⟨failed, mem_cons_of_mem _ hmem, hfailed⟩
      unfold prime at h
      split at h
      · rename_i cause hnext
        cases h
        exact ⟨input, mem_cons_self, cause, cursor_eq_of_next_error hnext, rfl⟩
      · exact hlater h
      · cases hrest : prime (index + 1) inputs with
        | ok pending =>
            rw [hrest] at h
            cases h
        | error e' =>
            rw [hrest] at h
            cases h
            exact hlater hrest

/-- A merge can only be opened if the first row of each input, if there is one, can be fetched. -/
theorem prime_of_start_error {inputs : List (MergeInput α)} {e : CaptureError}
    (h : start inputs = .error e) : prime 0 inputs = .error e := by
  unfold start at h
  cases hprime : prime 0 inputs with
  | ok pending =>
      rw [hprime] at h
      cases h
  | error e' =>
      rw [hprime] at h
      cases h
      rfl

/-! ## How far a merge has come -/

omit [MergeRow α] in
theorem ofInput_append (i : Nat) (rows rows' : List (Nat × α)) :
    ofInput i (rows ++ rows') = ofInput i rows ++ ofInput i rows' := by
  simp [ofInput]

omit [MergeRow α] in
theorem ofInput_concat_self (i : Nat) (row : α) (rows : List (Nat × α)) :
    ofInput i (rows ++ [(i, row)]) = ofInput i rows ++ [row] := by
  rw [ofInput_append, ofInput_cons_self]
  rfl

omit [MergeRow α] in
theorem ofInput_concat_of_ne {i j : Nat} (hne : j ≠ i) (row : α) (rows : List (Nat × α)) :
    ofInput j (rows ++ [(i, row)]) = ofInput j rows := by
  rw [ofInput_append, ofInput_cons_of_ne hne]
  exact append_nil _

/-- The pending row comes directly behind the rows of its input that were given. -/
def Continues (inputs : List (MergeInput α)) (rows : List (Nat × α)) (p : PendingRow α) : Prop :=
  ∃ input, inputs[p.input]? = some input ∧ input.label = p.label ∧
    input.cursor = ⟨ofInput p.input rows ++ p.row :: p.rest.rows, p.rest.failure⟩

/-- A merge that has given some rows: each input goes on with its pending row, or all its rows were
given. -/
structure Reached (inputs : List (MergeInput α)) (rows : List (Nat × α)) (merge : Merge α) : Prop where
  sound : merge.Sound
  failure_eq : merge.failure = none
  labels_eq : merge.labels = inputs.map MergeInput.label
  input_lt : ∀ x ∈ rows, x.1 < inputs.length
  continues : ∀ p ∈ merge.pending, Continues inputs rows p
  exhausted : ∀ (i : Nat) (input : MergeInput α), inputs[i]? = some input →
    (∀ p ∈ merge.pending, p.input ≠ i) → input.cursor = ⟨ofInput i rows, none⟩

variable {inputs : List (MergeInput α)} {rows : List (Nat × α)} {merge rest last : Merge α}

theorem Continues.refill {p q : PendingRow α} (h : Continues inputs rows p)
    (hq : refill p = .ok (some q)) : Continues inputs (rows ++ [(p.input, p.row)]) q := by
  obtain ⟨input, hget, hlabel, hcursor⟩ := h
  obtain ⟨hrows, _, hq⟩ := refill_eq_some.mp hq
  refine ⟨input, by rwa [hq], by rwa [hq], ?_⟩
  rw [hcursor, hrows, show q.input = p.input by rw [hq], show q.rest.failure = p.rest.failure by rw [hq],
    ofInput_concat_self, append_assoc]
  rfl

omit [MergeRow α] in
theorem Continues.of_ne {p : PendingRow α} {i : Nat} {row : α} (h : Continues inputs rows p)
    (hne : p.input ≠ i) : Continues inputs (rows ++ [(i, row)]) p := by
  obtain ⟨input, hget, hlabel, hcursor⟩ := h
  exact ⟨input, hget, hlabel, by rwa [ofInput_concat_of_ne hne]⟩

theorem Advanced.refill_eq {p : PendingRow α} {pending rest : List (PendingRow α)}
    (h : Advanced p pending rest) :
    refill p = .ok none ∨ ∃ q ∈ rest, refill p = .ok (some q) := by
  cases h with
  | exhausted h => exact .inl h
  | @refilled q h => exact .inr ⟨q, (insert_perm q pending).mem_iff.mpr mem_cons_self, h⟩

section Order

variable [TransCmp (compareKeys (α := α))]

theorem reached_start (h : start inputs = .ok merge) : Reached inputs [] merge := by
  have hsound := sound_start h
  obtain ⟨pending, hprimed, rfl⟩ := start_eq_ok.mp h
  refine ⟨hsound, rfl, rfl, by simp, fun p hp => ?_, fun i input hi hnone => ?_⟩
  · obtain ⟨i, hi, hget⟩ := hprimed.input_eq p ((foldr_insert_perm pending).mem_iff.mp hp)
    rw [Nat.zero_add] at hi
    exact ⟨_, hi ▸ hget, rfl, rfl⟩
  · rcases hprimed.mem_pending hi with hnext | ⟨row, rest, _, hp⟩
    · exact cursor_eq_of_next_none hnext
    · exact absurd (Nat.zero_add i) (hnone _ ((foldr_insert_perm pending).mem_iff.mpr hp))

theorem Reached.next (h : Reached inputs rows merge) {x : Nat × α}
    (hn : merge.next = (.ok (some x), rest)) : Reached inputs (rows ++ [x]) rest := by
  obtain ⟨p, pending, hpending, rfl, ha, _, hfailure, hlabels⟩ := next_eq_some hn
  have hp : Continues inputs rows p := h.continues p (hpending ▸ mem_cons_self)
  have hdistinct := hpending ▸ h.sound.ascending.distinct
  have hne {q : PendingRow α} (hq : q ∈ pending) : q.input ≠ p.input := fun heq =>
    (nodup_cons.mp hdistinct).1 (mem_map.mpr ⟨q, hq, heq⟩)
  refine ⟨h.sound.next hn, hfailure, hlabels.trans h.labels_eq, fun x hx => ?_, fun q hq => ?_,
    fun i input hi hnone => ?_⟩
  · rcases mem_append.mp hx with hx | hx
    · exact h.input_lt x hx
    · obtain ⟨input, hget, _⟩ := hp
      cases mem_singleton.mp hx
      exact (List.getElem?_eq_some_iff.mp hget).1
  · rcases ha.mem hq with hq | hr
    · exact (h.continues q (hpending ▸ mem_cons_of_mem p hq)).of_ne (hne hq)
    · exact hp.refill hr
  · by_cases hself : i = p.input
    · -- nothing is pending any more of the input that gave the row
      subst hself
      obtain ⟨input', hget, _, hcursor⟩ := hp
      cases hi.symm.trans hget
      rcases ha.refill_eq with hr | ⟨q, hq, hr⟩
      · obtain ⟨hrows, hend⟩ := refill_eq_none.mp hr
        rw [hcursor, hrows, hend, ofInput_concat_self]
      · exact absurd (by rw [(refill_eq_some.mp hr).2.2]) (hnone q hq)
    · rw [ofInput_concat_of_ne hself]
      refine h.exhausted i input hi fun q hq => ?_
      rw [hpending] at hq
      rcases mem_cons.mp hq with rfl | hq
      · exact Ne.symm hself
      · exact hnone q (ha.of_mem hq)

theorem Reached.gives {given : List (Nat × α)} (h : Reached inputs given merge)
    (hgives : Gives merge rows last) : Reached inputs (given ++ rows) last := by
  induction hgives generalizing given with
  | nil => rwa [append_nil]
  | @cons merge x rest rows last hn _ ih =>
      rw [append_cons]
      exact ih (h.next hn)

omit [TransCmp (compareKeys (α := α))] in
/-- An input goes on with its pending row, or all its rows were given. -/
theorem Reached.cursor_eq (h : Reached inputs rows merge) {i : Nat} {input : MergeInput α}
    (hi : inputs[i]? = some input) :
    input.cursor = ⟨ofInput i rows, none⟩ ∨ ∃ p ∈ merge.pending, p.input = i ∧
      input.cursor = ⟨ofInput i rows ++ p.row :: p.rest.rows, p.rest.failure⟩ := by
  by_cases hp : ∃ p ∈ merge.pending, p.input = i
  · obtain ⟨p, hp, rfl⟩ := hp
    obtain ⟨input', hget, _, hcursor⟩ := h.continues p hp
    cases hi.symm.trans hget
    exact .inr ⟨p, hp, rfl, hcursor⟩
  · exact .inl (h.exhausted i input hi fun p hmem hinput => hp ⟨p, hmem, hinput⟩)

omit [TransCmp (compareKeys (α := α))] in
/-- Of each input its first rows were given. -/
theorem Reached.ofInput_prefix (h : Reached inputs rows merge) {i : Nat} {input : MergeInput α}
    (hi : inputs[i]? = some input) : ofInput i rows <+: input.cursor.rows := by
  rcases h.cursor_eq hi with hcursor | ⟨p, _, _, hcursor⟩
  · have hrows : input.cursor.rows = ofInput i rows := congrArg Cursor.rows hcursor
    exact hrows ▸ prefix_rfl
  · have hrows : input.cursor.rows = ofInput i rows ++ p.row :: p.rest.rows :=
      congrArg Cursor.rows hcursor
    exact hrows ▸ prefix_append _ _

/-- Nothing that is pending comes before the least pending row. -/
theorem Reached.isLE_pending (h : Reached inputs rows merge) {p q : PendingRow α}
    {pending : List (PendingRow α)} (hpending : merge.pending = p :: pending)
    (hq : q ∈ merge.pending) :
    (compareGiven (inputs.map MergeInput.label) (p.input, p.row) (q.input, q.row)).isLE := by
  have hascending := h.sound.ascending.pairwise
  rw [← h.labels_eq, compareGiven_eq (h.sound.labelled p (hpending ▸ mem_cons_self))
    (h.sound.labelled q hq)]
  rw [hpending] at hq hascending
  rcases mem_cons.mp hq with rfl | hq
  · exact ReflCmp.isLE_rfl
  · rw [(pairwise_cons.mp hascending).1 q hq]
    rfl

omit [TransCmp (compareKeys (α := α))] in
theorem isLE_compareGiven_of_keys {labels : List String} {i : Nat} {r s : α}
    (h : (compareKeys r s).isLE) : (compareGiven labels (i, r) (i, s)).isLE := by
  simpa [compareGiven] using h

/-- If all inputs are sorted, the rows before the least pending one were given. -/
theorem Reached.mem_of_lt (h : Reached inputs rows merge)
    (hsorted : ∀ input ∈ inputs, input.cursor.rows.Pairwise fun r s => (compareKeys r s).isLE)
    {p : PendingRow α} {pending : List (PendingRow α)} (hpending : merge.pending = p :: pending)
    {i : Nat} {input : MergeInput α} (hi : inputs[i]? = some input) {row : α}
    (hrow : row ∈ input.cursor.rows)
    (hlt : compareGiven (inputs.map MergeInput.label) (i, row) (p.input, p.row) = .lt) :
    (i, row) ∈ rows := by
  have hinput := hsorted input (mem_of_getElem? hi)
  rw [← mem_ofInput]
  rcases h.cursor_eq hi with hcursor | ⟨q, hq, rfl, hcursor⟩
  · rwa [hcursor] at hrow
  · rw [hcursor] at hrow hinput
    refine (mem_append.mp hrow).resolve_right fun hlater => ?_
    -- what is still to come of the input is not less than the least pending row
    have hkeys : (compareKeys q.row row).isLE := by
      rcases mem_cons.mp hlater with rfl | hlater
      · exact ReflCmp.isLE_rfl
      · exact (pairwise_cons.mp (pairwise_append.mp hinput).2.1).1 row hlater
    have hle := TransCmp.isLE_trans (h.isLE_pending hpending hq) (isLE_compareGiven_of_keys hkeys)
    rw [OrientedCmp.gt_of_lt hlt] at hle
    cases hle

/-! ## Failing -/

/-- The rows that a merge gives before it fails are in strictly ascending order, and of each input they are
its first rows. If opening fails, the first row of some input could not be fetched. If reading fails, some
input could not be read on behind its next row: that row is not given, but all rows before it are if the
inputs are sorted. Then every later call fails alike. -/
theorem gives_until_failure (inputs : List (MergeInput α)) :
    (∀ {e}, start inputs = .error e →
      ∃ input ∈ inputs, ∃ cause, input.cursor = ⟨[], some cause⟩ ∧
        e = .streamRead input.label cause.message) ∧
    ∀ {merge last : Merge α} {rows : List (Nat × α)}, start inputs = .ok merge → Gives merge rows last →
      rows.Pairwise (fun x y => compareGiven (inputs.map MergeInput.label) x y = .lt) ∧
      (∀ x ∈ rows, x.1 < inputs.length) ∧
      (∀ (i : Nat) input, inputs[i]? = some input → ofInput i rows <+: input.cursor.rows) ∧
      ∀ {e failed}, last.next = (.error e, failed) →
        (∃ (i : Nat) (input : MergeInput α) (lost : α) (message : String), inputs[i]? = some input ∧
          input.cursor.Breaks (ofInput i rows) lost message ∧ e = .streamRead input.label message ∧
          ((∀ input ∈ inputs, input.cursor.rows.Pairwise fun r s => (compareKeys r s).isLE) →
            ∀ (j : Nat) (input' : MergeInput α) (row : α), inputs[j]? = some input' →
              row ∈ input'.cursor.rows →
              compareGiven (inputs.map MergeInput.label) (j, row) (i, lost) = .lt → (j, row) ∈ rows)) ∧
        ∀ calls, (failed.after calls).next.1 = .error e := by
  refine ⟨fun h => prime_eq_error (prime_of_start_error h), fun hstart hgives => ?_⟩
  have hreached : Reached inputs _ _ := (reached_start hstart).gives hgives
  rw [nil_append] at hreached
  refine ⟨?_, hreached.input_lt, fun i input hi => hreached.ofInput_prefix hi, fun hn => ⟨?_, ?_⟩⟩
  · have hascending := (sound_start hstart).drain_ascending
    rw [(reached_start hstart).labels_eq] at hascending
    exact hascending.sublist hgives.isPrefix.sublist
  · obtain ⟨p, pending, message, hpending, hrefill, he, _⟩ := next_eq_error hreached.failure_eq hn
    obtain ⟨input, hget, hlabel, hcursor⟩ := hreached.continues p (hpending ▸ mem_cons_self)
    refine ⟨p.input, input, p.row, message, hget, ?_, by rw [he, hlabel]; rfl,
      fun hsorted j input' row hj hrow hlt => hreached.mem_of_lt hsorted hpending hj hrow hlt⟩
    rw [hcursor]
    exact breaks_of_refill hrefill _
  · obtain ⟨p, _, message, _, _, he, hfailed⟩ := next_eq_error hreached.failure_eq hn
    intro calls
    rw [after_of_failure hfailed, next_of_failure hfailed, he]

end Order

namespace Sample

/-- The second input repeats a key. -/
def broken : List (MergeInput ChangeRow) :=
  [⟨"orders", { rows := [row 5, row 15] }⟩, ⟨"items", { rows := [row 7, row 7] }⟩]

def opened : Merge ChangeRow :=
  { labels := ["orders", "items"]
    pending := [⟨0, "orders", row 5, { rows := [row 15] }⟩, ⟨1, "items", row 7, { rows := [row 7] }⟩]
    counts := [0, 0] }

theorem sorted_broken :
    ∀ input ∈ broken, input.cursor.rows.Pairwise fun r s => (compareKeys r s).isLE := by decide

theorem start_broken : start broken = .ok opened := rfl

theorem gives_opened : Gives opened [(0, row 5)] opened.next.2 := .cons rfl (.nil _)

/-- The first row of the second input cannot be fetched. -/
def closed : List (MergeInput ChangeRow) :=
  [⟨"orders", { rows := [row 5] }⟩, ⟨"items", { rows := [], failure := some .connectionClosed }⟩]

end Sample

open Sample in
theorem gives_until_failure_of_sample :
    (∃ e input, start closed = .error e ∧ input ∈ closed ∧ ∃ message, e = .streamRead input.label message) ∧
    start broken = .ok opened ∧ Gives opened [(0, row 5)] opened.next.2 ∧
    ∃ e failed, opened.next.2.next = (.error e, failed) ∧
      (∃ (i : Nat) (lost : ChangeRow), (∃ input message, broken[i]? = some input ∧
        input.cursor.Breaks (ofInput i [(0, row 5)]) lost message) ∧
        ∀ (j : Nat) input' row', broken[j]? = some input' → row' ∈ input'.cursor.rows →
          compareGiven ["orders", "items"] (j, row') (i, lost) = .lt → (j, row') ∈ [(0, row 5)]) ∧
      ∀ calls, (failed.after calls).next.1 = .error e := by
  constructor
  · obtain ⟨input, hinput, _, _, he⟩ := (gives_until_failure closed).1 rfl
    exact ⟨_, input, rfl, hinput, _, he⟩
  · obtain ⟨_, _, _, hfails⟩ := (gives_until_failure broken).2 start_broken gives_opened
    obtain ⟨⟨i, input, lost, message, hinput, hbreaks, _, hbefore⟩, hlasts⟩ := hfails rfl
    exact ⟨start_broken, gives_opened, _, _, rfl, ⟨i, lost, ⟨input, message, hinput, hbreaks⟩,
      hbefore sorted_broken⟩, hlasts⟩

end Merge

end ChangeCapture
