import ChangeCapture.Error
import ChangeCapture.Text.Hex

/-! # Log positions -/

namespace ChangeCapture

/-! ## Backends -/

/-- The two kinds of database whose log is read. -/
inductive Backend where
  | sqlserver
  | oracle
  deriving DecidableEq, Repr

namespace Backend

def name : Backend → String
  | .sqlserver => "sqlserver"
  | .oracle => "oracle"

/-- The number of bytes of a log position. -/
def width : Backend → Nat
  | .sqlserver => 10
  | .oracle => 8

end Backend

/-! ## Bytes of a number -/

/-- The last `width` bytes of a number, the highest first. -/
def bigEndian : Nat → Nat → List UInt8
  | 0, _ => []
  | width + 1, n => bigEndian width (n / 256) ++ [UInt8.ofNat n]

/-- The number with the given bytes, the highest first. -/
def ofBigEndian (bytes : List UInt8) : Nat := bytes.foldl (fun n b => 256 * n + b.toNat) 0

/-! ## Positions -/

/-- A point in the log of a database, a number of the width of the backend, or the null position,
which stands for no point. -/
@[ext] structure Position (b : Backend) where
  value : Option (BitVec (8 * b.width))
  deriving DecidableEq, Repr

/-- A log sequence number of SQL Server. -/
abbrev Lsn := Position .sqlserver

/-- A system change number of Oracle. -/
abbrev Scn := Position .oracle

namespace Position

variable {b : Backend}

def null : Position b := ⟨none⟩

instance : Inhabited (Position b) := ⟨null⟩

def isNull (p : Position b) : Bool := p.value.isNone

def ofNat (n : Nat) : Position b := ⟨some (BitVec.ofNat _ n)⟩

/-! ### Order -/

/-- The place of a position in the order: null lies below all others. -/
def rank (p : Position b) : Nat :=
  match p.value with
  | none => 0
  | some v => v.toNat + 1

instance : Ord (Position b) := ⟨fun p q => compare p.rank q.rank⟩
instance : LE (Position b) := ⟨fun p q => p.rank ≤ q.rank⟩
instance : LT (Position b) := ⟨fun p q => p.rank < q.rank⟩
instance (p q : Position b) : Decidable (p ≤ q) := inferInstanceAs (Decidable (p.rank ≤ q.rank))
instance (p q : Position b) : Decidable (p < q) := inferInstanceAs (Decidable (p.rank < q.rank))
instance : Min (Position b) := ⟨fun p q => if p ≤ q then p else q⟩
instance : Max (Position b) := ⟨fun p q => if p ≤ q then q else p⟩

theorem rank_inj {p q : Position b} : p.rank = q.rank ↔ p = q := by
  constructor
  · intro h
    cases p with | mk v => cases q with | mk w =>
    cases v <;> cases w <;> simp_all [rank, BitVec.toNat_inj]
  · exact fun h => h ▸ rfl

/-- The position lies in the closed interval from `lo` to `hi`. -/
def inRange (p lo hi : Position b) : Bool := lo ≤ p ∧ p ≤ hi

/-! ### Bytes -/

/-- Positions are as wide as their backend says; no bytes stand for null. -/
def ofBytes (bytes : Option (List UInt8)) : Except CaptureError (Position b) :=
  match bytes with
  | none => .ok null
  | some bs =>
      if bs.length = b.width then .ok (ofNat (ofBigEndian bs))
      else .error (.invalidPosition
        s!"{b.name} position must be {b.width} bytes, got {bs.length}")

def toBytes (p : Position b) : Option (List UInt8) :=
  p.value.map fun v => bigEndian b.width v.toNat

/-! ### Hexadecimal text -/

def toHex (p : Position b) : String :=
  match p.toBytes with
  | none => "NULL"
  | some bytes => Text.Hex.encodeUpper bytes

/-- The text is empty or says null, in any case. -/
def isNullText (text : String) : Bool :=
  text.isEmpty || text.toList.map Char.toLower == ['n', 'u', 'l', 'l']

def ofHex (text : String) : Except CaptureError (Position b) :=
  if isNullText text then .ok null
  else
    match Text.Hex.decode text with
    | .ok bytes => ofBytes (some bytes)
    | .error fault =>
        .error (.invalidPosition s!"Invalid {b.name} hex '{text}': {fault.message}")

end Position

end ChangeCapture
