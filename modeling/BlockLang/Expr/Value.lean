import BlockLang.Number.Text
import BlockLang.Expr.Basic

/-!
# Values

What expressions evaluate to, and what operators and functions do with it. A boolean counts as
1 or 0 where a number is wanted, and every number can be used as a condition.
-/

namespace BlockLang

inductive Value where
  | number (value : Float)
  | boolean (value : Bool)
deriving DecidableEq

namespace Value

/-- `false`, zero and NaN are falsy. -/
def isFalsy : Value → Bool
  | number a => a == 0 || a.isNaN
  | boolean b => !b

def isTruthy (v : Value) : Bool := !v.isFalsy

def toNumber : Value → Float
  | number a => a
  | boolean true => 1
  | boolean false => 0

/-- Two booleans are compared as such, anything else as numbers. -/
def isEqual : Value → Value → Bool
  | boolean a, boolean b => a == b
  | a, b => a.toNumber == b.toNumber

/-- The text of a value as printed output shows it. -/
def text : Value → String
  | number a => Number.labelText a
  | boolean true => "true"
  | boolean false => "false"

end Value

def UnaryOp.apply : UnaryOp → Value → Value
  | negate, v => .number (-v.toNumber)
  | not, v => .boolean v.isFalsy

/-- Whether the left operand alone decides the value of an operation. -/
def BinaryOp.decidedBy : BinaryOp → Value → Bool
  | and, left => left.isFalsy
  | or, left => left.isTruthy
  | _, _ => false

/-- The value of an operation that its left operand alone does not decide. -/
def BinaryOp.apply : BinaryOp → Value → Value → Value
  | add, a, b => .number (a.toNumber + b.toNumber)
  | subtract, a, b => .number (a.toNumber - b.toNumber)
  | multiply, a, b => .number (a.toNumber * b.toNumber)
  | divide, a, b => .number (a.toNumber / b.toNumber)
  | modulo, a, b => .number (Number.remainder a.toNumber b.toNumber)
  | and, _, b => b
  | or, _, b => b
  | equal, a, b => .boolean (a.isEqual b)
  | notEqual, a, b => .boolean (!a.isEqual b)
  | greater, a, b => .boolean (b.toNumber < a.toNumber)
  | less, a, b => .boolean (a.toNumber < b.toNumber)
  | greaterOrEqual, a, b => .boolean (b.toNumber ≤ a.toNumber)
  | lessOrEqual, a, b => .boolean (a.toNumber ≤ b.toNumber)

namespace Builtin

/-- The lesser number, or NaN if either is NaN. -/
def minimum (a b : Float) : Float :=
  if a.isNaN || b.isNaN then Number.nan else if b < a then b else a

/-- The greater number, or NaN if either is NaN. -/
def maximum (a b : Float) : Float :=
  if a.isNaN || b.isNaN then Number.nan else if a < b then b else a

/-- A product of whole numbers: what it is so far, and the factor that comes next. -/
structure Product where
  value : Float
  next : Float
deriving DecidableEq

namespace Product

/-- The product before its first factor that makes a difference. -/
def first : Product := ⟨1, 2⟩

def multiply (p : Product) : Product := ⟨p.value * p.next, p.next + 1⟩

/-- Whether the next factor belongs to the product up to `n`. An infinite product takes no more. -/
def goesOn (n : Float) (p : Product) : Bool := p.next ≤ n && p.value.isFinite

/-- One turn of the loop: another factor, or the product that it ends with. -/
def turn (n : Float) (p : Product) : Id (Product ⊕ Float) :=
  if p.goesOn n then .inl p.multiply else .inr p.value

/-- The product with the factors up to `n`. A factor beyond 53 bits does not grow any more; it is
the product, when it gets infinite, that comes to an end. -/
def upTo (n : Float) (p : Product) : Float := (repeatM (turn n) p).run

end Product

/-- The product of the whole numbers from 1 to `n`; NaN where that makes no sense. -/
def factorialOf (n : Float) : Float :=
  if n < 0 || !Number.isWhole n then Number.nan else Product.first.upTo n

/-- The value of a call. A half is rounded up. -/
def apply (f : Builtin) (arguments : List Float) : Float :=
  let a := arguments[0]?.getD Number.nan
  let b := arguments[1]?.getD Number.nan
  match f with
  | pow => Float.pow a b
  | floor => Number.floor a
  | ceil => Number.ceil a
  | round => Number.floor (a + 0.5)
  | abs => a.abs
  | sqrt => a.sqrt
  | min => minimum a b
  | max => maximum a b
  | factorial => factorialOf a

end Builtin

def AssignOp.apply : AssignOp → Float → Float → Float
  | set, _, a => a
  | add, x, a => x + a
  | subtract, x, a => x - a
  | multiply, x, a => x * a
  | divide, x, a => x / a
  | modulo, x, a => Number.remainder x a

end BlockLang
