import ChangeCapture.Error
import ChangeCapture.Json.Number

/-! # Reading records from JSON text -/

namespace ChangeCapture.Json

/-! ## Any value -/

/-- The number of arrays and objects that may enclose one another. -/
def maxDepth : Nat := 127

mutual

/-- The value of a tree with at most `depth` levels. -/
def Tree.toJson? : Nat → Tree → Option Json
  | _, .null => some .null
  | _, .bool b => some (.bool b)
  | _, .number token => token.toJson?
  | _, .string s => s.map .string
  | 0, .array _ => none
  | depth + 1, .array items => (itemsToJson? depth items).map .array
  | 0, .object _ => none
  | depth + 1, .object members => (membersToJson? depth members).map ofMembers

def itemsToJson? : Nat → List Tree → Option (List Json)
  | _, [] => some []
  | depth, item :: rest => do
      let value ← Tree.toJson? depth item
      let values ← itemsToJson? depth rest
      return value :: values

def membersToJson? : Nat → List (Option String × Tree) → Option (List (String × Json))
  | _, [] => some []
  | depth, (name, item) :: rest => do
      let name ← name
      let value ← Tree.toJson? depth item
      let values ← membersToJson? depth rest
      return (name, value) :: values

end

/-! ## Plain fields -/

def Tree.toString? : Tree → Option String
  | .string s => s
  | _ => none

def Tree.toBool? : Tree → Option Bool
  | .bool b => some b
  | _ => none

/-- An integer in a closed range. -/
def Tree.toIntIn? (low high : Int) : Tree → Option Int
  | .number token => token.toInt?.filter fun n => low ≤ n && n ≤ high
  | _ => none

def Tree.toInt64? : Tree → Option Int := Tree.toIntIn? Text.minInt64 Text.maxInt64

def Tree.toUInt64? (tree : Tree) : Option Nat := (tree.toIntIn? 0 (UInt64.size - 1 : Nat)).map Int.toNat

def Tree.toUInt32? (tree : Tree) : Option Nat := (tree.toIntIn? 0 (UInt32.size - 1 : Nat)).map Int.toNat

def Tree.toList? {α : Type} (item : Tree → Option α) : Tree → Option (List α)
  | .array items => items.mapM item
  | _ => none

/-- Null stands for no value. -/
def Tree.toOption? {α : Type} (value : Tree → Option α) : Tree → Option (Option α)
  | .null => some none
  | tree => (value tree).map some

/-- One of some names, as a string or as the only member of an object, with the value null. -/
def Tree.toChoice? {α : Type} (choices : List (String × α)) : Tree → Option α
  | .string (some name) => choices.lookup name
  | .object [(some name, .null)] => choices.lookup name
  | _ => none

/-! ## Records -/

/-- The fields of a record. -/
abbrev Fields := List (String × Tree)

/-- The fields of a record whose field names are given. They are the members of an object, where other
members do not count and no field may be given twice, or the items of an array in the order of the
names, of which the last `optional` may be missing. -/
def Tree.toFields? (names : List String) (optional : Nat) : Tree → Option Fields
  | .object members => do
      let named ← members.mapM fun m => m.1.map fun name => (name, m.2)
      let fields := named.filter fun m => names.contains m.1
      if (fields.map Prod.fst).Nodup then some fields else none
  | .array items =>
      if items.length ≤ names.length ∧ names.length ≤ items.length + optional then
        some (names.zip items)
      else none
  | _ => none

/-- A field that must be there. -/
def Fields.get? {α : Type} (fields : Fields) (name : String) (value : Tree → Option α) : Option α :=
  (fields.lookup name).bind value

/-- A field that may be missing or null. -/
def Fields.getOption? {α : Type} (fields : Fields) (name : String) (value : Tree → Option α) :
    Option (Option α) :=
  match fields.lookup name with
  | none => some none
  | some tree => tree.toOption? value

/-- Reads a record from a text. -/
def decodeText {α : Type} (value : Tree → Option α) (text : String) : Except CaptureError α :=
  match (Tree.parse? text).bind value with
  | some a => .ok a
  | none => .error .json

end ChangeCapture.Json
