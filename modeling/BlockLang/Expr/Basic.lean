import BlockLang.Span

/-!
# Expressions and instructions

The trees that statement and condition texts stand for. Variable references and calls keep the
span of the text they were read from.
-/

namespace BlockLang

inductive UnaryOp where
  | negate
  | not
deriving Repr, DecidableEq

inductive BinaryOp where
  | add | subtract | multiply | divide | modulo
  | and | or
  | equal | notEqual
  | greater | less | greaterOrEqual | lessOrEqual
deriving Repr, DecidableEq

/-- The functions that a text can call. There are no others. -/
inductive Builtin where
  | pow | floor | ceil | round | abs | sqrt | min | max | factorial
deriving Repr, DecidableEq

namespace Builtin

def all : List Builtin := [pow, floor, ceil, round, abs, sqrt, min, max, factorial]

def name : Builtin → String
  | pow => "pow"
  | floor => "floor"
  | ceil => "ceil"
  | round => "round"
  | abs => "abs"
  | sqrt => "sqrt"
  | min => "min"
  | max => "max"
  | factorial => "factorial"

def arity : Builtin → Nat
  | pow | min | max => 2
  | floor | ceil | round | abs | sqrt | factorial => 1

/-- The name without `Math.` in front of it. -/
def bareName (name : List Char) : List Char :=
  match name with
  | 'M' :: 'a' :: 't' :: 'h' :: '.' :: bare => bare
  | _ => name

/-- Finds a function by its name, with or without `Math.` in front. -/
def ofName? (name : String) : Option Builtin :=
  all.find? fun f => f.name.toList = bareName name.toList

end Builtin

/-- An expression. `choice` is `condition ? yes : no`. -/
inductive Expr where
  | number (value : Float)
  | boolean (value : Bool)
  | name (name : String) (span : Span)
  | call (function : Builtin) (arguments : List Expr) (span : Span)
  | unary (op : UnaryOp) (operand : Expr)
  | binary (op : BinaryOp) (left right : Expr)
  | choice (condition yes no : Expr)

/-- `x = e`, or `x = x op e` in short. -/
inductive AssignOp where
  | set | add | subtract | multiply | divide | modulo
deriving Repr, DecidableEq

/-- One step of a statement. A bare expression is evaluated and its value dropped. -/
inductive Instruction where
  | assign (target : String) (op : AssignOp) (value : Expr) (span : Span)
  | bare (value : Expr) (span : Span)

end BlockLang
