import ChangeCapture.Position.Lsn
import ChangeCapture.Position.Scn

/-! # The order of changes at one position -/

namespace ChangeCapture

/-- What tells apart the changes that share a position: on SQL Server a log sequence number, on Oracle
a 64-bit number. -/
def Sequence : Backend → Type
  | .sqlserver => Lsn
  | .oracle => UInt64

namespace Sequence

variable {b : Backend}

def ofLsn (p : Lsn) : Sequence .sqlserver := p

def ofUInt64 (n : UInt64) : Sequence .oracle := n

instance : {b : Backend} → Inhabited (Sequence b)
  | .sqlserver => ⟨ofLsn .null⟩
  | .oracle => ⟨ofUInt64 0⟩

/-! ## Order -/

/-- The place of a sequence in the order. -/
def rank : {b : Backend} → Sequence b → Nat
  | .sqlserver, (s : Lsn) => s.rank
  | .oracle, (s : UInt64) => s.toNat

theorem rank_inj : {b : Backend} → {s t : Sequence b} → (s.rank = t.rank ↔ s = t)
  | .sqlserver, _, _ => Position.rank_inj
  | .oracle, _, _ => UInt64.toNat_inj

instance : Ord (Sequence b) := ⟨fun s t => compare s.rank t.rank⟩
instance : DecidableEq (Sequence b) := fun s t => decidable_of_iff (s.rank = t.rank) rank_inj

/-! ## Text -/

/-- The text in an offset, which has no colon. -/
def encode : {b : Backend} → Sequence b → String
  | .sqlserver, (s : Lsn) => s.toHex
  | .oracle, (s : UInt64) => toString s.toNat

def decode : {b : Backend} → String → Except CaptureError (Sequence b)
  | .sqlserver, text => Position.ofHex (b := .sqlserver) text
  | .oracle, text =>
      match Text.readNat? (UInt64.size - 1) text.toList with
      | some n => .ok (ofUInt64 (UInt64.ofNat n))
      | none => .error (.invalidPosition s!"Invalid redo sequence '{text}'")

/-- The text in reports. -/
def display : {b : Backend} → Sequence b → String
  | .sqlserver, (s : Lsn) => Lsn.display s
  | .oracle, (s : UInt64) => toString s.toNat

end Sequence

/-- The text of a position in reports. -/
def Position.display : {b : Backend} → Position b → String
  | .sqlserver, p => Lsn.display p
  | .oracle, p => Scn.display p

end ChangeCapture
