import BlockLang.Number.Exact

/-!
# Decimals

A decimal is a whole number times a power of ten. It has a positional text, a text with an
exponent, and a nearest binary64 number; every finite number is itself a decimal.
-/

namespace BlockLang

/-- The decimal `digits * 10 ^ exponent`. -/
structure Decimal where
  digits : Nat
  exponent : Int
deriving Repr, DecidableEq

namespace Decimal

/-- The number nearest to the decimal, a tie going to the even neighbour. -/
def toFloat (d : Decimal) : Float :=
  .ofModel (.ofScientific d.digits d.exponent)

/-- The decimal equal to `m * 2 ^ e`. -/
def ofScaled (m : Nat) (e : Int) : Decimal :=
  if 0 ≤ e then ⟨m * Nat.pow 2 e.toNat, 0⟩ else ⟨m * Nat.pow 5 (-e).toNat, e⟩

/-- The same decimal without zeros at the end of its digits. -/
def trim (d : Decimal) : Decimal :=
  if h : d.digits = 0 ∨ d.digits % 10 ≠ 0 then d
  else trim ⟨d.digits / 10, d.exponent + 1⟩
termination_by d.digits
decreasing_by simp only [not_or] at h; omega

/-- The decimal digits of a whole number. -/
def numeral (n : Nat) : List Char :=
  Nat.toDigits 10 n

/-- Digits with a decimal point `places` from the right, and at least one digit before it. -/
def pointed (digits : List Char) (places : Nat) : List Char :=
  let padded := List.replicate (places + 1 - digits.length) '0' ++ digits
  padded.take (padded.length - places) ++ '.' :: padded.drop (padded.length - places)

/-- The decimal written out by position, never with an exponent. -/
def positional (d : Decimal) : List Char :=
  if 0 ≤ d.exponent then numeral d.digits ++ List.replicate d.exponent.toNat '0'
  else pointed (numeral d.digits) (-d.exponent).toNat

/-- The exponent of the first digit when the decimal is written as `d.ddd * 10 ^ exponent`. -/
def leading (d : Decimal) : Int :=
  d.exponent + ((numeral d.digits).length - 1 : Nat)

/-- The decimal written as one digit, a fraction if there is one, and an exponent of ten. -/
def scientific (d : Decimal) : List Char :=
  let sign := if d.leading < 0 then ['-'] else []
  (match numeral d.digits with
    | first :: second :: more => first :: '.' :: second :: more
    | short => short) ++
    'e' :: sign ++ numeral d.leading.natAbs

/-- The value of a run of decimal digits. -/
def value (digits : List Char) : Nat :=
  digits.foldl (fun n c => 10 * n + (c.toNat - '0'.toNat)) 0

/-- Reads the exponent part that ends a decimal: nothing, or a letter, a sign if wanted, and
digits. -/
def exponentOfText? : List Char → Option Int
  | [] => some 0
  | mark :: text =>
    if mark = 'e' ∨ mark = 'E' then
      let (negative, digits) := match text with
        | '-' :: digits => (true, digits)
        | '+' :: digits => (false, digits)
        | digits => (false, digits)
      if digits.isEmpty || !digits.all Char.isDigit then none
      else if negative then some (-value digits) else some (value digits)
    else none

/-- Reads digits with at most one point, at least one digit, and an exponent if wanted. -/
def ofText? (text : List Char) : Option Decimal :=
  let whole := text.takeWhile Char.isDigit
  let (fraction, rest) := match text.dropWhile Char.isDigit with
    | '.' :: more => (more.takeWhile Char.isDigit, more.dropWhile Char.isDigit)
    | more => ([], more)
  if whole.isEmpty && fraction.isEmpty then none
  else (exponentOfText? rest).map fun exponent =>
    ⟨value (whole ++ fraction), exponent - fraction.length⟩

/-- The two neighbours of a decimal among those without its last `dropped` digits, the nearer one
first. Halfway between them the greater one comes first. -/
def neighbours (d : Decimal) (dropped : Nat) : List Decimal :=
  let unit := Nat.pow 10 dropped
  let lower : Decimal := ⟨d.digits / unit, d.exponent + dropped⟩
  let upper : Decimal := ⟨d.digits / unit + 1, d.exponent + dropped⟩
  if 2 * (d.digits % unit) < unit then [lower, upper] else [upper, lower]

/-- Of the decimals near `d` that pass the test, one with the fewest digits, if at most `dropped`
digits are dropped. With all its digits `d` stands for itself. -/
def shortest (test : Decimal → Bool) (d : Decimal) : Nat → Decimal
  | 0 => d
  | dropped + 1 =>
    -- The test picks out an interval around `d`, so if any decimal with as many digits passes it,
    -- one of the two neighbours does.
    match (d.neighbours (dropped + 1)).find? test with
    | some found => found.trim
    | none => shortest test d dropped

end Decimal

end BlockLang
