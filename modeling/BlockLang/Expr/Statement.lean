import BlockLang.Expr.Parser

/-!
# Statement texts

A statement is one or more instructions with semicolons between them. Empty places between
semicolons stand for nothing.
-/

namespace BlockLang

/-- The operator of an assignment: one with a value after it, or one that adds or subtracts 1. -/
inductive AssignHead where
  | by (op : AssignOp)
  | byOne (op : AssignOp)

def Symbol.assignHead? : Symbol → Option AssignHead
  | assign => some (.by .set)
  | plusAssign => some (.by .add)
  | minusAssign => some (.by .subtract)
  | starAssign => some (.by .multiply)
  | slashAssign => some (.by .divide)
  | percentAssign => some (.by .modulo)
  | increment => some (.byOne .add)
  | decrement => some (.byOne .subtract)
  | _ => none

/-- The name of the one variable that a program changes. -/
def programVariable : String := "x"

namespace Instruction

/-- The target of an assignment, its span, and the operator, if the lexemes begin with these. -/
def head? : List Lexeme → Option (String × Span × AssignHead)
  | ⟨.name target, span⟩ :: ⟨.symbol s, _⟩ :: _ => s.assignHead?.map (target, span, ·)
  | _ => none

/-- Reads the instruction that takes up all the lexemes, which begin with `first`. -/
def ofLexemes (stop : Nat) (first : Lexeme) (more : List Lexeme) :
    Except ParseError Instruction :=
  let lexemes := first :: more
  let span : Span := ⟨first.span.start, (more.getLast?.getD first).span.stop⟩
  match head? lexemes with
  | none => (Expr.readAll stop .afterExpression lexemes).map (.bare · span)
  | some (target, targetSpan, head) =>
    -- A wrong target is reported even if there is no value to assign.
    if target ≠ programVariable then .error ⟨.readOnly target, targetSpan⟩
    else match head with
      | .by op =>
        (Expr.readAll stop .afterAssignment (lexemes.drop 2)).map (.assign target op · span)
      | .byOne op =>
        if (lexemes.drop 2).isEmpty then .ok (.assign target op (.number 1) span)
        else .error (Expr.errorAt stop (lexemes.drop 2) .afterAssignment)

end Instruction

/-- The runs of lexemes between semicolons, empty ones included. -/
def segments : List Lexeme → List (List Lexeme)
  | [] => [[]]
  | lexeme :: rest =>
    if lexeme.token = .symbol .semicolon then [] :: segments rest
    else match segments rest with
      | [] => [[lexeme]]
      | segment :: others => (lexeme :: segment) :: others

/-- Reads the instructions of the segments that are not empty. -/
def readSegments (stop : Nat) : List (List Lexeme) → Except ParseError (List Instruction)
  | [] => .ok []
  | [] :: others => readSegments stop others
  | (first :: more) :: others => do
    let instruction ← Instruction.ofLexemes stop first more
    let instructions ← readSegments stop others
    return instruction :: instructions

/-- The instructions that a statement text stands for. -/
def parseStatement (text : String) : Except ParseError (List Instruction) := do
  let lexemes ← Lexeme.ofText text
  let stop := width text.toList
  let instructions ← readSegments stop (segments lexemes)
  if instructions.isEmpty then throw ⟨.emptyStatement, ⟨0, stop⟩⟩
  return instructions

end BlockLang
