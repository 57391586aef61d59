import BlockLang.Expr.Basic
import BlockLang.Expr.Token

/-!
# Parse errors

Why a statement or condition text cannot be read, and where.
-/

namespace BlockLang

/-- What has to stand at a place where something else was found. -/
inductive Expected where
  | colon
  | closeParen
  | closeArguments
deriving Repr, DecidableEq

def Expected.describe : Expected → String
  | colon => "`:` in conditional expression"
  | closeParen => "`)`"
  | closeArguments => "`)` after arguments"

inductive ParseError.Cause where
  | strayCharacter (c : Char)
  /-- A `&` or `|` that is not doubled. -/
  | loneCharacter (c : Char)
  | badNumber (literal : String)
  | emptyStatement
  | emptyExpression
  | readOnly (target : String)
  | afterAssignment
  | afterExpression
  | endOfExpression
  | missing (what : Expected)
  | misplaced (token : Token)
  | unknownFunction (name : String)
  | wrongArity (function : Builtin) (given : Nat)
deriving DecidableEq

structure ParseError where
  cause : ParseError.Cause
  span : Span
deriving DecidableEq

namespace ParseError

/-- A text set off in a message. -/
def quoted (text : String) : String :=
  "`" ++ text ++ "`"

def Cause.message : Cause → String
  | strayCharacter c => "unexpected character " ++ quoted (.singleton c)
  | loneCharacter c => "unexpected " ++ quoted (.singleton c)
  | badNumber literal => "invalid number literal " ++ quoted literal
  | emptyStatement => "empty statement"
  | emptyExpression => "empty expression"
  | readOnly target => "cannot assign to " ++ quoted target
  | afterAssignment => "unexpected tokens after assignment"
  | afterExpression => "unexpected tokens after expression"
  | endOfExpression => "unexpected end of expression"
  | missing what => "expected " ++ what.describe
  | misplaced token => "unexpected " ++ token.describe
  | unknownFunction name => "unknown function " ++ quoted name
  | wrongArity function given =>
    quoted function.name ++ " expects " ++ Nat.repr function.arity ++ " argument(s), got " ++
      Nat.repr given

/-- Advice that follows the message. -/
def Cause.notes : Cause → List String
  | loneCharacter c => ["did you mean " ++ quoted (.ofList [c, c]) ++ "?"]
  | readOnly _ => ["only " ++ quoted "x" ++ " can be assigned; loop counters are read-only"]
  | unknownFunction _ =>
    ["available functions: " ++ ", ".intercalate (Builtin.all.map Builtin.name)]
  | _ => []

def message (error : ParseError) : String := error.cause.message

def notes (error : ParseError) : List String := error.cause.notes

end ParseError

end BlockLang
