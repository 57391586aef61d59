/-!
# Integer parts and remainders of binary64 numbers

A finite number is a whole number times a power of two, so taking its integer part or a remainder
is integer arithmetic on those two parts. Everything here is exact: the results need no rounding.
-/

namespace BlockLang.Number

open Float.Model (UnpackedFloat)
open Float.Model.UnpackedFloat (Sign normalize)

def nan : Float := .ofModel (.pack .notANumber)

def infinity : Float := .ofModel (.pack (.infinity .positive))

/-- The number nearest to `m * 2 ^ e`; if that is zero, the zero of the given sign. -/
def ofScaled (m : Int) (e : Int) (zero : Sign) : Float :=
  .ofModel (.pack (normalize .binary64 m e zero))

/-- The greatest integer that is not above the number. -/
def floor (a : Float) : Float :=
  match a.toModel.unpack with
  | .finite s m e _ => if e < 0 then ofScaled (s.apply m / Int.pow 2 (-e).toNat) 0 s else a
  | _ => a

/-- The least integer that is not below the number. -/
def ceil (a : Float) : Float :=
  -floor (-a)

/-- The nearest integer; a half goes away from zero. -/
def roundAwayFromZero (a : Float) : Float :=
  match a.toModel.unpack with
  | .finite s m e _ =>
    if e < 0 then
      let unit := Nat.pow 2 (-e).toNat
      ofScaled (s.apply ((2 * m + unit) / (2 * unit))) 0 s
    else a
  | _ => a

/-- Finite, and without a fractional part. -/
def isWhole (a : Float) : Bool :=
  match a.toModel.unpack with
  | .finite _ m e _ => 0 ≤ e || m % Nat.pow 2 (-e).toNat == 0
  | .zero _ => true
  | _ => false

/-- What is left of `a` after taking away a whole multiple of `b`, the quotient cut toward zero.
The result has the sign of `a`. -/
def remainder (a b : Float) : Float :=
  match a.toModel.unpack, b.toModel.unpack with
  | .finite s m e _, .finite _ n f _ =>
    -- Both numbers are whole multiples of the smaller of their two units.
    let unit := min e f
    let left := (m * Nat.pow 2 (e - unit).toNat) % (n * Nat.pow 2 (f - unit).toNat)
    ofScaled (s.apply left) unit s
  | .zero _, .finite .. => a
  | .zero _, .infinity _ => a
  | .finite .., .infinity _ => a
  | _, _ => nan

end BlockLang.Number
