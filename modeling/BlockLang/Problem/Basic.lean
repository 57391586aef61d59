import BlockLang.Program.Basic

/-!
# Problems

A problem asks for a program that reaches a target number from a given one.
-/

namespace BlockLang

def defaultPrecision : UInt32 := 2

structure Problem where
  id : String := ""
  title : String := ""
  description : String := ""
  initialValue : Float
  targetValue : Option Float := none
  /-- How many decimal places count when the target is not a whole number. -/
  precision : UInt32 := defaultPrecision

namespace Problem

/-- The greatest number of decimal places that count. -/
def maxPrecision : Nat := 15

/-- A number scaled up and rounded to the decimal places that count. -/
def rounded (problem : Problem) (a : Float) : Float :=
  let places := min problem.precision.toNat maxPrecision
  Number.roundAwayFromZero (a * Decimal.toFloat ⟨1, (places : Int)⟩)

/-- Whether a run that ends with `result` solves the problem. A whole target has to be met exactly,
and a problem without a target has no solution. -/
def isSolved (problem : Problem) (result : Float) : Bool :=
  match problem.targetValue with
  | none => false
  | some target =>
    if Number.isWhole target then result == target
    else problem.rounded result == problem.rounded target

/-- The program that a solver begins with. -/
def start (problem : Problem) (id : BlockId) : Program :=
  .new id problem.initialValue

end Problem

end BlockLang
