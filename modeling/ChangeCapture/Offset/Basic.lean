import ChangeCapture.Position.Sequence

/-! # Offsets of changes -/

namespace ChangeCapture

/-- The place of a change among all changes: its position, its sequence there, the code of its
operation and the label of the source it was read from. An empty origin stands for every source. -/
@[ext] structure Offset (b : Backend) where
  position : Position b
  sequence : Sequence b
  op : UInt8
  origin : String
  deriving DecidableEq

namespace Offset

variable {b : Backend}

/-! ## Order -/

/-- Position, sequence and operation compared in this order. -/
def compareKey (o p : Offset b) : Ordering :=
  (compare o.position p.position).then
    ((compare o.sequence p.sequence).then (compare o.op p.op))

instance : Ord (Offset b) := ⟨fun o p => (o.compareKey p).then (compare o.origin p.origin)⟩

/-- A change at `other` is at or before this offset. Without an origin this offset covers every
source at its position, sequence and operation. -/
def covers (o other : Offset b) : Bool :=
  match other.compareKey o with
  | .lt => true
  | .gt => false
  | .eq => o.origin.isEmpty || (compare other.origin o.origin).isLE

/-! ## Text -/

/-- Position, sequence, operation and, unless it is empty, the origin, with colons between them. -/
def render (o : Offset b) : String :=
  let key := s!"{o.position.toHex}:{o.sequence.encode}:{o.op.toNat}"
  if o.origin.isEmpty then key else s!"{key}:{o.origin}"

instance : ToString (Offset b) := ⟨render⟩

/-- The text before the first colon and, if there is one, the text after it. -/
def splitColon : List Char → List Char × Option (List Char)
  | [] => ([], none)
  | c :: rest =>
      if c = ':' then ([], some rest)
      else
        let (head, tail) := splitColon rest
        (c :: head, tail)

/-- At most four fields; the last of four holds the remaining colons. -/
def fields (text : List Char) : List (List Char) := go 3 text
where
  go : Nat → List Char → List (List Char)
    | 0, text => [text]
    | n + 1, text =>
        match splitColon text with
        | (head, none) => [head]
        | (head, some rest) => head :: go n rest

/-- The failure of a text that is no offset. -/
def malformed (text : String) : CaptureError := .invalidPosition s!"Malformed offset '{text}'"

def parse (text : String) : Except CaptureError (Offset b) :=
  match fields text.toList with
  | position :: sequence :: op :: origin => do
      let position ← Position.ofHex (String.ofList position)
      let sequence ← Sequence.decode (String.ofList sequence)
      match Text.readNat? 255 op with
      | none => .error (malformed text)
      | some op =>
          return { position, sequence, op := UInt8.ofNat op, origin := String.ofList origin.flatten }
  | _ => .error (malformed text)

end Offset

end ChangeCapture
