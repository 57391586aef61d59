import BlockLang.Number.Decimal

/-!
# Numbers as text

A number is written with the fewest decimal digits that read back as the same number. The texts
differ in where they allow an exponent, whether a whole number shows a fraction, and how they write
the numbers that have no digits.
-/

namespace BlockLang.Number

open Float.Model (UnpackedFloat)

/-- The shortest decimal that reads back as the finite number of size `m * 2 ^ e`. -/
def shortest (m : Nat) (e : Int) (positive : 0 < m) : Decimal :=
  let size : Float := .ofModel (.pack (.finite .positive m e positive))
  let whole := (Decimal.ofScaled m e).trim
  whole.shortest (fun d => decide (d.toFloat = size)) ((Decimal.numeral whole.digits).length - 1)

/-- How a kind of text writes numbers. -/
structure Style where
  /-- Whether a number is written by position, given the power of ten of its first digit. -/
  positional : Int → Bool
  /-- What follows a whole number that is written by position. -/
  wholeSuffix : List Char
  /-- Whether a negative zero keeps its sign. -/
  signedZero : Bool
  nan : List Char

def Style.sign : UnpackedFloat.Sign → List Char
  | .negative => ['-']
  | .positive => []

def Style.zero (style : Style) (sign : UnpackedFloat.Sign) : List Char :=
  (if style.signedZero then Style.sign sign else []) ++ '0' :: style.wholeSuffix

def Style.finite (style : Style) (d : Decimal) : List Char :=
  if style.positional d.leading then
    d.positional ++ (if 0 ≤ d.exponent then style.wholeSuffix else [])
  else d.scientific

def Style.write (style : Style) (a : Float) : List Char :=
  match a.toModel.unpack with
  | .notANumber => style.nan
  | .infinity s => Style.sign s ++ ['i', 'n', 'f']
  | .zero s => style.zero s
  | .finite s m e positive => Style.sign s ++ style.finite (shortest m e positive)

/-- Answers show numbers by position, whole numbers without a fraction. -/
def plain : Style := ⟨fun _ => true, [], true, ['N', 'a', 'N']⟩

/-- Labels and printed values are plain, but zero has no sign. -/
def label : Style := { plain with signedZero := false }

/-- A dump of a program always shows a fraction or an exponent, which begins below 0.0001 and
at 10000000000000000. -/
def dump : Style := ⟨fun e => decide (-4 ≤ e ∧ e < 16), ['.', '0'], true, ['N', 'a', 'N']⟩

/-- The text of a number as answers show it. -/
def text (a : Float) : String := .ofList (plain.write a)

/-- The text of a number as blocks and printed output show it. -/
def labelText (a : Float) : String := .ofList (label.write a)

/-- The unsigned numbers that have names instead of digits, in any case. -/
def named? (name : List Char) : Option Float :=
  let name := name.map Char.toLower
  if name = ['i', 'n', 'f'] ∨ name = ['i', 'n', 'f', 'i', 'n', 'i', 't', 'y'] then some infinity
  else if name = ['n', 'a', 'n'] then some nan
  else none

def unsignedOfText? (text : List Char) : Option Float :=
  match named? text with
  | some a => some a
  | none => (Decimal.ofText? text).map Decimal.toFloat

/-- Reads a sign if there is one, then a decimal or the name of a number without digits. -/
def ofText? : List Char → Option Float
  | '-' :: text => (unsignedOfText? text).map (- ·)
  | '+' :: text => unsignedOfText? text
  | text => unsignedOfText? text

end BlockLang.Number
