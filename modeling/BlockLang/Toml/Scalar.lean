import BlockLang.Number.Decimal
import BlockLang.Toml.Quoted

/-!
# Numbers, truth values and moments

These values are written without quotes or brackets. Their characters go on up to one that none of
them can have, and as a whole they have to be the text of a value.
-/

namespace BlockLang.Toml

def isScalarChar (c : Char) : Bool :=
  c.isAlphanum || c == '+' || c == '-' || c == '.' || c == ':' || c == '_'

/-- Whether the text starts with a minus, and what follows the sign if there is one. -/
def splitSign : List Char → Bool × List Char
  | '-' :: text => (true, text)
  | '+' :: text => (false, text)
  | text => (false, text)

def signed (negative : Bool) (n : Nat) : Int :=
  if negative then -n else n

/-- The characters without the underscores between them, if there is at most one underscore in a
row and none at either end. -/
def ungroup? : List Char → Option (List Char)
  | [] => none
  | [c] => if c == '_' then none else some [c]
  | c :: '_' :: text => if c == '_' then none else (ungroup? text).map (c :: ·)
  | c :: text => if c == '_' then none else (ungroup? text).map (c :: ·)

/-- Decimal digits, which can be grouped by underscores. -/
def digits? (text : List Char) : Option (List Char) :=
  (ungroup? text).filter (·.all Char.isDigit)

/-- Decimal digits of which the first is not a needless zero. -/
def wholeDigits? (text : List Char) : Option (List Char) :=
  (digits? text).filter fun digits => digits.length == 1 || digits.head? != some '0'

/-! ## Numbers -/

/-- The base that the letter after a zero stands for. -/
def base? (c : Char) : Option Nat :=
  if c == 'x' then some 16
  else if c == 'o' then some 8
  else if c == 'b' then some 2
  else none

/-- A whole number of any size, which has no sign if it is not decimal. -/
def wholeOfText? (text : List Char) : Option Int :=
  match text with
  | '0' :: mark :: digits =>
    match base? mark with
    | some base => ((ungroup? digits).bind (numeralValue? base)).map Int.ofNat
    | none => none
  | _ =>
    let (negative, digits) := splitSign text
    (wholeDigits? digits).map fun digits => signed negative (Decimal.value digits)

/-- A whole number of 64 bits. -/
def integerOfText? (text : List Char) : Option Int :=
  (wholeOfText? text).filter fun n => decide (Int64.minValue.toInt ≤ n ∧ n ≤ Int64.maxValue.toInt)

/-- The exponent at the end of a number, zero if there is none. -/
def exponentOfText? : List Char → Option Int
  | [] => some 0
  | mark :: text =>
    if mark == 'e' || mark == 'E' then
      let (negative, digits) := splitSign text
      (digits? digits).map fun digits => signed negative (Decimal.value digits)
    else none

/-- A number without a sign that has a fraction, an exponent or both. -/
def decimalOfText? (text : List Char) : Option Decimal :=
  let isPart (c : Char) := c.isDigit || c == '_'
  match wholeDigits? (text.takeWhile isPart), text.dropWhile isPart with
  | some _, [] => none
  | some whole, '.' :: rest => do
    let fraction ← digits? (rest.takeWhile isPart)
    let exponent ← exponentOfText? (rest.dropWhile isPart)
    return ⟨Decimal.value (whole ++ fraction), exponent - fraction.length⟩
  | some whole, rest => (exponentOfText? rest).map fun exponent => ⟨Decimal.value whole, exponent⟩
  | none, _ => none

/-- A number that is not written as a whole one. Digits must not stand for more than the greatest
number, unless there is a minus in front of them. -/
def floatOfText? (text : List Char) : Option Float :=
  let (negative, size) := splitSign text
  let value? :=
    if size = ['i', 'n', 'f'] then some Number.infinity
    else if size = ['n', 'a', 'n'] then some Number.nan
    else (decimalOfText? size).bind fun d =>
      if d.toFloat == Number.infinity && !negative then none else some d.toFloat
  value?.map fun value => if negative then -value else value

/-! ## Dates and times -/

def isLeapYear (year : Nat) : Bool :=
  year % 4 == 0 && (year % 100 != 0 || year % 400 == 0)

def daysOfMonth (year month : Nat) : Nat :=
  if month == 2 then if isLeapYear year then 29 else 28
  else if month == 4 || month == 6 || month == 9 || month == 11 then 30
  else 31

/-- A day, such as `2024-02-29`. -/
def isDate : List Char → Bool
  | [y₁, y₂, y₃, y₄, '-', m₁, m₂, '-', d₁, d₂] =>
    let month := Decimal.value [m₁, m₂]
    let day := Decimal.value [d₁, d₂]
    [y₁, y₂, y₃, y₄, m₁, m₂, d₁, d₂].all Char.isDigit && 1 ≤ month && month ≤ 12 && 1 ≤ day &&
      day ≤ daysOfMonth (Decimal.value [y₁, y₂, y₃, y₄]) month
  | _ => false

/-- An hour and a minute, such as `23:59`. -/
def isHourMinute : List Char → Bool
  | [h₁, h₂, ':', m₁, m₂] =>
    [h₁, h₂, m₁, m₂].all Char.isDigit && Decimal.value [h₁, h₂] ≤ 23 &&
      Decimal.value [m₁, m₂] ≤ 59
  | _ => false

/-- A second with or without a fraction, such as `59.5`. There can be a leap second. -/
def isSecond : List Char → Bool
  | [s₁, s₂] => [s₁, s₂].all Char.isDigit && Decimal.value [s₁, s₂] ≤ 60
  | s₁ :: s₂ :: '.' :: fraction =>
    [s₁, s₂].all Char.isDigit && Decimal.value [s₁, s₂] ≤ 60 && !fraction.isEmpty &&
      fraction.all Char.isDigit
  | _ => false

/-- A time of day, such as `07:32:00`. -/
def isTime (text : List Char) : Bool :=
  match text.drop 5 with
  | ':' :: second => isHourMinute (text.take 5) && isSecond second
  | _ => false

/-- A distance from universal time, or none. -/
def isOffset : List Char → Bool
  | [] => true
  | sign :: text =>
    if sign == 'Z' || sign == 'z' then text.isEmpty
    else (sign == '+' || sign == '-') && isHourMinute text

/-- A time of day with or without an offset. -/
def isOffsetTime (text : List Char) : Bool :=
  let isPart (c : Char) := c.isDigit || c == ':' || c == '.'
  isTime (text.takeWhile isPart) && isOffset (text.dropWhile isPart)

/-- A date, a time, or both with a letter between them. -/
def isMoment (text : List Char) : Bool :=
  match text.drop 10 with
  | mark :: time =>
    if mark == 'T' || mark == 't' then isDate (text.take 10) && isOffsetTime time else isTime text
  | [] => isDate text || isTime text

/-! ## Reading -/

/-- The value with the given text. -/
def scalarOfText? (text : List Char) : Option Value :=
  if text = ['t', 'r', 'u', 'e'] then some (.boolean true)
  else if text = ['f', 'a', 'l', 's', 'e'] then some (.boolean false)
  else if isMoment text then some (.moment (.ofList text))
  else ((integerOfText? text).map .integer).or ((floatOfText? text).map .float)

/-- Reads a value without quotes or brackets. A date goes on after a space if a time follows. -/
def readScalar (text : List Char) : Option (Value × List Char) :=
  let word := text.takeWhile isScalarChar
  let rest := text.dropWhile isScalarChar
  if word.isEmpty then none
  else match isDate word, rest with
    | true, ' ' :: more =>
      let time := more.takeWhile isScalarChar
      if isOffsetTime time then
        some (.moment (.ofList (word ++ ' ' :: time)), more.dropWhile isScalarChar)
      else some (.moment (.ofList word), rest)
    | _, _ => (scalarOfText? word).map fun value => (value, rest)

theorem readScalar_length_lt {text rest : List Char} {value : Value}
    (h : readScalar text = some (value, rest)) : rest.length < text.length := by
  have whole :=
    congrArg List.length (List.takeWhile_append_dropWhile (p := isScalarChar) (l := text))
  rw [List.length_append] at whole
  simp only [readScalar, Option.ite_none_left_eq_some, List.isEmpty_iff] at h
  have pos := List.length_pos_iff.2 h.1
  have found := h.2
  split at found
  · rename_i more _ after
    have shorter := (List.dropWhile_sublist (l := more) isScalarChar).length_le
    rw [after, List.length_cons] at whole
    split at found <;> simp only [Option.some.injEq, Prod.mk.injEq] at found
    · rw [← found.2]; omega
    · rw [← found.2, after, List.length_cons]; omega
  · obtain ⟨_, _, equal⟩ := Option.map_eq_some_iff.1 found
    simp only [Prod.mk.injEq] at equal
    rw [← equal.2]; omega

end BlockLang.Toml
