import BlockLang.Code
import BlockLang.Expr.Value

/-!
# Evaluation

Expressions are evaluated against the program variable and the counters of the loops around them,
innermost first. The one thing that can go wrong is a name that means nothing there.
-/

namespace BlockLang

/-- The counter of a loop. -/
structure Scope where
  name : String
  value : Float
deriving DecidableEq

/-- The counters of the loops around a place, innermost first. -/
abbrev Scopes := List Scope

namespace Scopes

def push (scopes : Scopes) (name : String) (value : Float) : Scopes :=
  ⟨name, value⟩ :: scopes

/-- The value of the innermost counter with the name. -/
def get? (scopes : Scopes) (name : String) : Option Float :=
  (scopes.find? (·.name = name)).map Scope.value

/-- Adds to the innermost counter. -/
def advance (step : Float) : Scopes → Scopes
  | [] => []
  | ⟨name, value⟩ :: outer => ⟨name, value + step⟩ :: outer

end Scopes

/-- A reference to a name that is neither the program variable nor a counter. -/
structure UnboundName where
  name : String
  span : Span
deriving DecidableEq

namespace Expr

mutual

/-- The value of an expression. The right side of `&&` and `||` and the branches of a choice are
evaluated only if they are needed. -/
def eval (x : Float) (scopes : Scopes) : Expr → Except UnboundName Value
  | number a => .ok (.number a)
  | boolean b => .ok (.boolean b)
  | name n span =>
    if n = programVariable then .ok (.number x)
    else match scopes.get? n with
      | some a => .ok (.number a)
      | none => .error ⟨n, span⟩
  | call f arguments _ => do
    let values ← evalList x scopes arguments
    return .number (f.apply values)
  | unary op operand => do
    let v ← eval x scopes operand
    return op.apply v
  | binary op left right => do
    let a ← eval x scopes left
    if op.decidedBy a then return a
    let b ← eval x scopes right
    return op.apply a b
  | choice condition yes no => do
    let v ← eval x scopes condition
    if v.isTruthy then eval x scopes yes else eval x scopes no

/-- The values of expressions as numbers, from left to right. -/
def evalList (x : Float) (scopes : Scopes) : List Expr → Except UnboundName (List Float)
  | [] => .ok []
  | e :: es => do
    let v ← eval x scopes e
    let vs ← evalList x scopes es
    return v.toNumber :: vs

end

end Expr

/-- The program variable after one instruction. -/
def Instruction.exec (scopes : Scopes) (x : Float) : Instruction → Except UnboundName Float
  | assign _ op value _ => do
    let v ← value.eval x scopes
    return op.apply x v.toNumber
  | bare value _ => do
    let _ ← value.eval x scopes
    return x

/-- The program variable after instructions one after the other. -/
def execAll (scopes : Scopes) (instructions : List Instruction) (x : Float) :
    Except UnboundName Float :=
  instructions.foldlM (fun x i => i.exec scopes x) x

/-- Why code could not be evaluated: its text means nothing, or a name in it does not. -/
inductive ExprError where
  | syntaxError (error : ParseError)
  | unbound (reference : UnboundName)
deriving DecidableEq

namespace ExprError

def span : ExprError → Span
  | syntaxError error => error.span
  | unbound reference => reference.span

def message : ExprError → String
  | syntaxError error => error.message
  | unbound reference => "undefined variable: " ++ reference.name

end ExprError

/-- The value of a condition. -/
def ConditionCode.eval (code : ConditionCode) (x : Float) (scopes : Scopes) :
    Except ExprError Value :=
  match code.parsed with
  | .error error => .error (.syntaxError error)
  | .ok expr => (expr.eval x scopes).mapError .unbound

/-- The program variable after a statement. -/
def StatementCode.exec (code : StatementCode) (x : Float) (scopes : Scopes) :
    Except ExprError Float :=
  match code.parsed with
  | .error error => .error (.syntaxError error)
  | .ok instructions => (execAll scopes instructions x).mapError .unbound

end BlockLang
