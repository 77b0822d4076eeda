/-! # Kinds of changes -/

namespace ChangeCapture

/-- What happened to a row. -/
inductive ChangeKind where
  | insert
  | update
  | delete
  /-- The row was there when the table was first read. -/
  | snapshot
  deriving DecidableEq, Repr

namespace ChangeKind

def all : List ChangeKind := [.insert, .update, .delete, .snapshot]

/-- The name in reports. -/
def label : ChangeKind → String
  | .insert => "INSERT"
  | .update => "UPDATE"
  | .delete => "DELETE"
  | .snapshot => "SNAPSHOT"

/-- The name in events. -/
def eventName : ChangeKind → String
  | .insert => "Insert"
  | .update => "Update"
  | .delete => "Delete"
  | .snapshot => "Snapshot"

/-- The row was changed, and not only read. -/
def isModification (kind : ChangeKind) : Bool := kind ≠ .snapshot

end ChangeKind

end ChangeCapture
