import BlockLang.Expr.Lexeme

/-!
# From lexemes to expressions

An expression is an operand followed by operators and their right sides. Every operator has a
power, and a right side takes in only what binds more tightly than the operator on its left. The
readers return the lexemes they leave, which are fewer than those they were given, and this is why
reading ends.
-/

namespace BlockLang

/-- How tightly an operator binds. All but the choice `? :` group to the left. -/
def BinaryOp.power : BinaryOp → Nat
  | or => 4
  | and => 6
  | equal | notEqual => 8
  | greater | less | greaterOrEqual | lessOrEqual => 10
  | add | subtract => 12
  | multiply | divide | modulo => 14

/-- The power of `? :`, which groups to the right. -/
def choicePower : Nat := 2

/-- The power of `-` and `!` in front of an operand. -/
def unaryPower : Nat := 16

/-- What continues an expression after an operand. -/
inductive Infix where
  | binary (op : BinaryOp)
  | choice
deriving DecidableEq

def Infix.power : Infix → Nat
  | binary op => op.power
  | choice => choicePower

def Symbol.infix? : Symbol → Option Infix
  | plus => some (.binary .add)
  | minus => some (.binary .subtract)
  | star => some (.binary .multiply)
  | slash => some (.binary .divide)
  | percent => some (.binary .modulo)
  | and => some (.binary .and)
  | or => some (.binary .or)
  | equal => some (.binary .equal)
  | notEqual => some (.binary .notEqual)
  | greater => some (.binary .greater)
  | less => some (.binary .less)
  | greaterEqual => some (.binary .greaterOrEqual)
  | lessEqual => some (.binary .lessOrEqual)
  | question => some .choice
  | _ => none

def Token.infix? : Token → Option Infix
  | .symbol s => s.infix?
  | _ => none

namespace Expr

/-- A value read from the front of some lexemes, and the lexemes that are left. -/
structure Parsed (α : Type) (bound : Nat) where
  value : α
  rest : List Lexeme
  shorter : rest.length < bound

/-- An error at the first of the lexemes, or at the end of a text of `stop` bytes. -/
def errorAt (stop : Nat) (lexemes : List Lexeme) (cause : ParseError.Cause) : ParseError :=
  match lexemes with
  | lexeme :: _ => ⟨cause, lexeme.span⟩
  | [] => ⟨cause, .atEnd stop⟩

def startsWith (symbol : Symbol) (lexemes : List Lexeme) : Bool :=
  lexemes.head?.any (·.token = .symbol symbol)

/-- Reads one symbol that has to be there. Its value is the end of the symbol. -/
def expect (stop : Nat) (symbol : Symbol) (what : Expected) (lexemes : List Lexeme) :
    Except ParseError (Parsed Nat lexemes.length) :=
  match lexemes with
  | ⟨.symbol found, span⟩ :: rest =>
    if found = symbol then .ok ⟨span.stop, rest, by simp⟩
    else .error (errorAt stop (⟨.symbol found, span⟩ :: rest) (.missing what))
  | _ => .error (errorAt stop lexemes (.missing what))

mutual

/-- Reads an expression whose operators outside parentheses have at least the power `least`. -/
def read (stop least : Nat) (lexemes : List Lexeme) :
    Except ParseError (Parsed Expr lexemes.length) := do
  let ⟨left, rest, shorter⟩ ← readOperand stop lexemes
  let ⟨whole, rest, shorter'⟩ ← readInfix stop least left rest
  return ⟨whole, rest, by omega⟩
termination_by 2 * lexemes.length + 1

/-- Reads the operators of at least the power `least` that follow `left`, with their right sides. -/
def readInfix (stop least : Nat) (left : Expr) (lexemes : List Lexeme) :
    Except ParseError (Parsed Expr (lexemes.length + 1)) :=
  match lexemes with
  | [] => .ok ⟨left, [], by simp⟩
  | lexeme :: rest =>
    match lexeme.token.infix? with
    | none => .ok ⟨left, lexeme :: rest, by simp⟩
    | some op =>
      if op.power < least then .ok ⟨left, lexeme :: rest, by simp⟩
      else match op with
        | .binary op => do
          let ⟨right, rest', shorter⟩ ← read stop (op.power + 1) rest
          let ⟨whole, rest'', shorter'⟩ ← readInfix stop least (.binary op left right) rest'
          return ⟨whole, rest'', by simp only [List.length_cons]; omega⟩
        | .choice => do
          -- The colon closes the first branch, so that any operator can stand in it.
          let ⟨yes, rest₁, shorter₁⟩ ← read stop 0 rest
          let ⟨_, rest₂, shorter₂⟩ ← expect stop .colon .colon rest₁
          let ⟨no, rest₃, shorter₃⟩ ← read stop choicePower rest₂
          let ⟨whole, rest₄, shorter₄⟩ ← readInfix stop least (.choice left yes no) rest₃
          return ⟨whole, rest₄, by simp only [List.length_cons]; omega⟩
termination_by 2 * lexemes.length

/-- Reads a literal, a name, a call, an operand with `-` or `!` in front, or an expression in
parentheses. -/
def readOperand (stop : Nat) (lexemes : List Lexeme) :
    Except ParseError (Parsed Expr lexemes.length) :=
  match lexemes with
  | [] => .error ⟨.endOfExpression, .atEnd stop⟩
  | ⟨token, span⟩ :: rest =>
    match token with
    | .number value => .ok ⟨.number value, rest, by simp⟩
    | .truth value => .ok ⟨.boolean value, rest, by simp⟩
    | .name word =>
      match rest with
      | ⟨.symbol .openParen, _⟩ :: inside =>
        match Builtin.ofName? word with
        | none => .error ⟨.unknownFunction word, span⟩
        | some function => do
          let ⟨arguments, rest', shorter⟩ ← readArguments stop inside
          let ⟨close, rest'', shorter'⟩ ← expect stop .closeParen .closeArguments rest'
          if arguments.length = function.arity then
            return ⟨.call function arguments ⟨span.start, close⟩, rest'',
              by simp only [List.length_cons]; omega⟩
          else throw ⟨.wrongArity function arguments.length, ⟨span.start, close⟩⟩
      | rest => .ok ⟨.name word span, rest, by simp⟩
    | .symbol .minus => do
      let ⟨operand, rest', shorter⟩ ← read stop unaryPower rest
      return ⟨.unary .negate operand, rest', by simp only [List.length_cons]; omega⟩
    | .symbol .not => do
      let ⟨operand, rest', shorter⟩ ← read stop unaryPower rest
      return ⟨.unary .not operand, rest', by simp only [List.length_cons]; omega⟩
    | .symbol .openParen => do
      let ⟨inner, rest', shorter⟩ ← read stop 0 rest
      let ⟨_, rest'', shorter'⟩ ← expect stop .closeParen .closeParen rest'
      return ⟨inner, rest'', by simp only [List.length_cons]; omega⟩
    | .symbol other => .error ⟨.misplaced (.symbol other), span⟩
termination_by 2 * lexemes.length

/-- Reads expressions with commas between them, up to a closing parenthesis. There may be none. -/
def readArguments (stop : Nat) (lexemes : List Lexeme) :
    Except ParseError (Parsed (List Expr) (lexemes.length + 1)) := do
  if startsWith .closeParen lexemes then return ⟨[], lexemes, by omega⟩
  let ⟨arguments, rest, shorter⟩ ← readSome stop lexemes
  return ⟨arguments, rest, by omega⟩
termination_by 2 * lexemes.length + 3

/-- Reads one or more expressions with commas between them. -/
def readSome (stop : Nat) (lexemes : List Lexeme) :
    Except ParseError (Parsed (List Expr) lexemes.length) := do
  let ⟨argument, rest, shorter⟩ ← read stop 0 lexemes
  if startsWith .comma rest then
    let ⟨more, rest', shorter'⟩ ← readSome stop rest.tail
    return ⟨argument :: more, rest', by simp only [List.length_tail] at shorter'; omega⟩
  else return ⟨[argument], rest, shorter⟩
termination_by 2 * lexemes.length + 2
decreasing_by
  · omega
  · simp only [List.length_tail]; omega

end

/-- Reads an expression that takes up all the lexemes. -/
def readAll (stop : Nat) (after : ParseError.Cause) (lexemes : List Lexeme) :
    Except ParseError Expr := do
  let ⟨whole, rest, _⟩ ← read stop 0 lexemes
  if rest.isEmpty then return whole else throw (errorAt stop rest after)

end Expr

/-- The expression that a condition text stands for. -/
def parseCondition (text : String) : Except ParseError Expr := do
  let lexemes ← Lexeme.ofText text
  let stop := width text.toList
  if lexemes.isEmpty then throw ⟨.emptyExpression, ⟨0, stop⟩⟩
  Expr.readAll stop .afterExpression lexemes

end BlockLang
