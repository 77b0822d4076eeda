import ChangeCapture.Statement.Basic
import ChangeCapture.Text.Blank
import ChangeCapture.Text.Search

/-! # Reading words of a statement -/

namespace ChangeCapture.Statement

/-- The bytes that a text takes in UTF-8. -/
def byteLength : List Char → Nat
  | [] => 0
  | c :: rest => c.utf8Size + byteLength rest

/-- What is left of a statement, and the bytes before it. -/
structure Input where
  offset : Nat
  rest : List Char
  deriving DecidableEq, Repr

namespace Input

/-! ## Characters -/

def fault (input : Input) (reason : Reason) : Fault := { reason, offset := input.offset }

/-- Goes on past `taken`, after which `rest` follows. -/
def advance (input : Input) (taken rest : List Char) : Input :=
  { offset := input.offset + byteLength taken, rest }

/-- Goes on to the first character that is no blank of ASCII. -/
def skipBlanks (input : Input) : Input :=
  input.advance (input.rest.takeWhile Text.isAsciiBlank) (input.rest.dropWhile Text.isAsciiBlank)

theorem length_skipBlanks_le (input : Input) : input.skipBlanks.rest.length ≤ input.rest.length :=
  (List.dropWhile_sublist _).length_le

/-- The input after a character, if it comes next. -/
def eat? (input : Input) (c : Char) : Option Input :=
  match input.rest with
  | d :: rest => if d = c then some (input.advance [d] rest) else none
  | [] => none

theorem length_eat_lt {input next : Input} {c : Char} (h : input.eat? c = some next) :
    next.rest.length < input.rest.length := by
  cases hr : input.rest with
  | nil => simp [eat?, hr] at h
  | cons d rest =>
      simp only [eat?, hr] at h
      split at h
      · cases h
        simp [advance]
      · simp at h

def expect (input : Input) (c : Char) : Except Fault Input :=
  match input.eat? c with
  | some next => .ok next
  | none => .error (input.fault (.expected c.toString))

theorem length_expect_lt {input next : Input} {c : Char} (h : input.expect c = .ok next) :
    next.rest.length < input.rest.length := by
  unfold expect at h
  split at h
  · cases h
    exact length_eat_lt ‹_›
  · simp at h

/-! ## Keywords -/

/-- A character that can go on a word. -/
def isWordChar (c : Char) : Bool := c.isAlphanum || c == '_'

/-- The text after a keyword in any case that stands at the front as a whole word. -/
def afterKeyword? (keyword : String) (text : List Char) : Option (List Char) :=
  let word := keyword.toList
  if Text.lowerAscii (text.take word.length) = word then
    let rest := text.drop word.length
    if rest.head?.any isWordChar then none else some rest
  else none

theorem length_afterKeyword_le {keyword : String} {text rest : List Char}
    (h : afterKeyword? keyword text = some rest) : rest.length ≤ text.length := by
  simp only [afterKeyword?] at h
  split at h
  · split at h
    · simp at h
    · cases h
      simp
  · simp at h

/-- The input after a keyword, if it comes next. -/
def eatKeyword? (input : Input) (keyword : String) : Option Input :=
  (afterKeyword? keyword input.rest).map fun rest =>
    input.advance (input.rest.take keyword.toList.length) rest

theorem length_eatKeyword_le {input next : Input} {keyword : String}
    (h : input.eatKeyword? keyword = some next) : next.rest.length ≤ input.rest.length := by
  obtain ⟨rest, hrest, rfl⟩ := Option.map_eq_some_iff.mp h
  exact length_afterKeyword_le hrest

def expectKeyword (input : Input) (keyword : String) : Except Fault Input :=
  match input.eatKeyword? keyword with
  | some next => .ok next
  | none => .error (input.fault (.expected keyword))

theorem length_expectKeyword_le {input next : Input} {keyword : String}
    (h : input.expectKeyword keyword = .ok next) : next.rest.length ≤ input.rest.length := by
  unfold expectKeyword at h
  split at h
  · cases h
    exact length_eatKeyword_le ‹_›
  · simp at h

/-! ## Identifiers -/

/-- A name in double quotes. It may hold everything but a double quote. -/
def identifier (input : Input) : Except Fault (String × Input) :=
  match input.expect '"' with
  | .error fault => .error fault
  | .ok opened =>
      let name := opened.rest.takeWhile (· != '"')
      match opened.rest.dropWhile (· != '"') with
      | [] => .error (opened.fault .unterminatedIdentifier)
      | _ :: rest =>
          if name.isEmpty then .error (opened.fault .emptyIdentifier)
          else .ok (String.ofList name, opened.advance (name ++ ['"']) rest)

theorem length_identifier_lt {input next : Input} {name : String}
    (h : input.identifier = .ok (name, next)) : next.rest.length < input.rest.length := by
  unfold identifier at h
  split at h
  · simp at h
  · rename_i opened hopened
    have hlt := length_expect_lt hopened
    simp only at h
    split at h
    · simp at h
    · rename_i c rest hrest
      split at h
      · simp at h
      · cases h
        have hle := (List.dropWhile_sublist (l := opened.rest) (· != '"')).length_le
        rw [hrest] at hle
        simp [advance] at hle ⊢
        omega

end Input

end ChangeCapture.Statement
