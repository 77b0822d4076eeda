import ChangeCapture.Cursor

/-! # Merging labelled cursors -/

namespace ChangeCapture

/-! ## Rows and inputs -/

/-- Rows that are merged in the order of their keys. -/
class MergeRow (α : Type) where
  /-- The order of the keys of two rows. -/
  compareKeys : α → α → Ordering
  /-- The key of a row in reports. -/
  describeKey : α → String

/-- A cursor and the label of its source. -/
structure MergeInput (α : Type) where
  label : String
  cursor : Cursor α

/-- A row that was fetched from an input and not yet given out, and the cursor behind it. -/
structure PendingRow (α : Type) where
  /-- The index of the input. -/
  input : Nat
  label : String
  row : α
  rest : Cursor α

/-- A merge in progress. Each input that is not exhausted has one pending row, and these are in
ascending order. -/
structure Merge (α : Type) where
  /-- The labels of the inputs. -/
  labels : List String
  pending : List (PendingRow α)
  /-- How many rows each input has given. -/
  counts : List Nat
  /-- The label and message of a failure, after which no row is given any more. -/
  failure : Option (String × String) := none

namespace Merge

variable {α : Type} [MergeRow α]

open MergeRow

/-! ## Order -/

/-- Pending rows go by key, then by label, then by the index of the input. -/
def comparePending (p q : PendingRow α) : Ordering :=
  (compareKeys p.row q.row).then ((compare p.label q.label).then (compare p.input q.input))

/-- Inserts a pending row into an ascending list. -/
def insert (p : PendingRow α) : List (PendingRow α) → List (PendingRow α)
  | [] => [p]
  | q :: rest => if comparePending p q = .lt then p :: q :: rest else q :: insert p rest

/-! ## Failures -/

def readFailure (failure : String × String) : CaptureError :=
  .streamRead failure.1 failure.2

/-- The report of a row whose key is not greater than that of the row before it. -/
def keyNotAdvanced (row last : α) : String :=
  s!"row key {describeKey row} does not advance past {describeKey last}"

/-- The merge after a failure of an input. -/
def poison (merge : Merge α) (label message : String) : Merge α :=
  { merge with pending := [], failure := some (label, message) }

/-! ## Opening -/

/-- Fetches the first row of each input in order. -/
def prime : Nat → List (MergeInput α) → Except CaptureError (List (PendingRow α))
  | _, [] => .ok []
  | index, input :: inputs =>
      match input.cursor.next with
      | .error e => .error (.streamRead input.label e.message)
      | .ok none => prime (index + 1) inputs
      | .ok (some (row, rest)) => do
          let pending ← prime (index + 1) inputs
          return { input := index, label := input.label, row, rest } :: pending

def start (inputs : List (MergeInput α)) : Except CaptureError (Merge α) := do
  let pending ← prime 0 inputs
  return { labels := inputs.map MergeInput.label
           pending := pending.foldr insert []
           counts := inputs.map fun _ => 0 }

/-! ## Reading -/

/-- The number of rows that are pending or behind pending rows. -/
def rowsLeft : List (PendingRow α) → Nat
  | [] => 0
  | p :: pending => p.rest.rows.length + 1 + rowsLeft pending

/-- The number of rows that are still to be given or fetched. -/
def remaining (merge : Merge α) : Nat := rowsLeft merge.pending

/-- Fetches the row of an input after the row `p` that was given. -/
def refill (p : PendingRow α) : Except String (Option (PendingRow α)) :=
  match p.rest.next with
  | .error e => .error e.message
  | .ok none => .ok none
  | .ok (some (row, rest)) =>
      if compareKeys row p.row = .gt then .ok (some { p with row, rest })
      else .error (keyNotAdvanced row p.row)

/-- The least pending row with the index of its input. The row after it in that input is fetched first:
if that fails the row is lost and the merge stays failed. -/
def next (merge : Merge α) : Except CaptureError (Option (Nat × α)) × Merge α :=
  match merge.failure with
  | some failure => (.error (readFailure failure), merge)
  | none =>
      match merge.pending with
      | [] => (.ok none, merge)
      | p :: pending =>
          let counted := { merge with counts := merge.counts.modify p.input (· + 1) }
          match refill p with
          | .error message =>
              (.error (readFailure (p.label, message)), counted.poison p.label message)
          | .ok none => (.ok (some (p.input, p.row)), { counted with pending })
          | .ok (some q) =>
              (.ok (some (p.input, p.row)), { counted with pending := insert q pending })

def label (merge : Merge α) (input : Nat) : String := merge.labels.getD input ""

/-- The number of rows that an input has given. -/
def rowsFrom (merge : Merge α) (input : Nat) : Nat := merge.counts.getD input 0

/-! ## Progress -/

theorem rowsLeft_insert (p : PendingRow α) (pending : List (PendingRow α)) :
    rowsLeft (insert p pending) = p.rest.rows.length + 1 + rowsLeft pending := by
  induction pending with
  | nil => rfl
  | cons q rest ih =>
      unfold insert
      split
      · rfl
      · simp only [rowsLeft, ih]
        omega

theorem rows_refill {p q : PendingRow α} (h : refill p = .ok (some q)) :
    q.rest.rows.length < p.rest.rows.length := by
  unfold refill at h
  split at h
  · simp at h
  · simp at h
  · rename_i row rest hnext
    split at h
    · cases h
      unfold Cursor.next at hnext
      split at hnext
      · rename_i r rows hrows
        simp at hnext
        obtain ⟨_, rfl⟩ := hnext
        simp [hrows]
      · split at hnext <;> simp at hnext
    · simp at h

/-- Each row that is given leaves fewer. -/
theorem remaining_next {merge : Merge α} {row : Nat × α}
    (h : merge.next.1 = .ok (some row)) : merge.next.2.remaining < merge.remaining := by
  unfold next at h ⊢
  split at h
  · simp at h
  · rename_i hf
    split at h
    · simp at h
    · rename_i p pending hp
      dsimp only at h ⊢
      split at h
      · simp at h
      · simp only [remaining, hp, rowsLeft]
        omega
      · rename_i q hq
        have := rows_refill hq
        simp only [remaining, hp, rowsLeft_insert, rowsLeft]
        omega

theorem remaining_lt_of_next_eq {merge rest : Merge α} {row : Nat × α}
    (h : merge.next = (.ok (some row), rest)) : rest.remaining < merge.remaining := by
  have hfst : merge.next.1 = .ok (some row) := by rw [h]
  have hlt := remaining_next hfst
  rwa [h] at hlt

end Merge

end ChangeCapture
