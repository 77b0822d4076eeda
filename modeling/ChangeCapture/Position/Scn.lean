import ChangeCapture.Position.Basic

/-! # System change numbers -/

namespace ChangeCapture.Scn

def display (p : Scn) : String :=
  match p.value with
  | none => "NULL"
  | some v => toString v.toNat

/-- The least number above this one; null and the greatest number have none. -/
def next (p : Scn) : Except CaptureError Scn :=
  match p.value with
  | none => .error (.invalidPosition "Cannot increment the NULL SCN")
  | some v =>
      if v.toNat + 1 < UInt64.size then .ok (Position.ofNat (v.toNat + 1))
      else .error (.invalidPosition s!"SCN {v.toNat} overflows")

end ChangeCapture.Scn
