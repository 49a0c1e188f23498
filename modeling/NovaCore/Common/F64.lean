import Mathlib.Data.Int.Log
import Mathlib.Data.Rat.Floor

/-!
# Double-precision numbers and comparison operators

`F64` holds the values of IEEE binary64 with the two zeros identified.  `F64.ofRat` rounds to
nearest, ties to even, which is what `str::parse::<f64>` and `as f64` do.  `CmpOp` are the six
comparison operators a resolved filter can carry.
-/

namespace NovaCore

/-- The values of an IEEE double, with the two zeros identified. -/
inductive F64
  | nan
  | negInf
  | finite (q : ℚ)
  | posInf
  deriving DecidableEq

/-- The nearest integer, ties to even. -/
def roundHalfEven (q : ℚ) : ℤ :=
  let f := ⌊q⌋
  let r := q - f
  if r < 1 / 2 then f else if 1 / 2 < r then f + 1 else if f % 2 = 0 then f else f + 1

namespace F64

/-- The double nearest to `q`: 53 significant bits, least exponent `-1074`. -/
def ofRat (q : ℚ) : F64 :=
  if q = 0 then finite 0
  else
    let ulp : ℚ := 2 ^ max (Int.log 2 |q| - 52) (-1074)
    let v : ℚ := roundHalfEven (q / ulp) * ulp
    if 2 ^ 1024 ≤ v then posInf else if v ≤ -2 ^ 1024 then negInf else finite v

/-- IEEE equality. -/
def beq : F64 → F64 → Bool
  | nan, _ => false
  | _, nan => false
  | a, b => a = b

/-- IEEE less-than. -/
def blt : F64 → F64 → Bool
  | nan, _ => false
  | _, nan => false
  | negInf, negInf => false
  | negInf, _ => true
  | _, negInf => false
  | posInf, _ => false
  | _, posInf => true
  | finite a, finite b => a < b

end F64

/-- The comparison operators of a resolved filter. -/
inductive CmpOp
  | eq
  | ne
  | gt
  | ge
  | lt
  | le
  deriving DecidableEq

namespace CmpOp

/-- The comparison of two elements of a linear order. -/
def eval {α : Type*} [LinearOrder α] (op : CmpOp) (a b : α) : Bool :=
  match op with
  | eq => a = b
  | ne => a ≠ b
  | gt => b < a
  | ge => b ≤ a
  | lt => a < b
  | le => a ≤ b

/-- The comparison of two doubles. -/
def evalF64 (op : CmpOp) (a b : F64) : Bool :=
  match op with
  | eq => F64.beq a b
  | ne => !F64.beq a b
  | gt => F64.blt b a
  | ge => F64.blt b a || F64.beq a b
  | lt => F64.blt a b
  | le => F64.blt a b || F64.beq a b

end CmpOp

end NovaCore
