import ChangeCapture.Decimal.Binary64

/-! # JSON values -/

namespace ChangeCapture

open Decimal (Binary64)

/-- A JSON value. Integers are told apart from numbers with a fraction. -/
inductive Json where
  | null
  | bool (value : Bool)
  | integer (value : Int)
  | float (value : Binary64)
  | string (value : String)
  | array (items : List Json)
  | object (members : List (String × Json))
  deriving Repr

namespace Json

/-! ## Objects -/

/-- Sets a member of an object whose names ascend; a member of the same name is replaced. -/
def insertMember (name : String) (value : Json) : List (String × Json) → List (String × Json)
  | [] => [(name, value)]
  | (n, v) :: rest =>
      match compare name n with
      | .lt => (name, value) :: (n, v) :: rest
      | .eq => (name, value) :: rest
      | .gt => (n, v) :: insertMember name value rest

/-- The object of some members with its names in ascending order. Of members of one name the last
counts. -/
def ofMembers (members : List (String × Json)) : Json :=
  .object (members.foldl (fun object m => insertMember m.1 m.2 object) [])

end Json

end ChangeCapture
