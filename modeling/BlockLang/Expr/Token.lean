import BlockLang.Number.Text

/-!
# Tokens

The words and symbols of statement and condition texts.
-/

namespace BlockLang

inductive Symbol where
  | plus | minus | star | slash | percent
  | assign | equal | notEqual | greater | less | greaterEqual | lessEqual
  | and | or | not
  | question | colon | comma | semicolon
  | plusAssign | minusAssign | starAssign | slashAssign | percentAssign
  | increment | decrement
  | openParen | closeParen
deriving Repr, DecidableEq

/-- The name of a symbol in messages. -/
def Symbol.describe : Symbol → String
  | plus => "Plus"
  | minus => "Minus"
  | star => "Star"
  | slash => "Slash"
  | percent => "Percent"
  | assign => "Eq"
  | equal => "EqEq"
  | notEqual => "BangEq"
  | greater => "Gt"
  | less => "Lt"
  | greaterEqual => "GtEq"
  | lessEqual => "LtEq"
  | and => "AmpAmp"
  | or => "PipePipe"
  | not => "Bang"
  | question => "Question"
  | colon => "Colon"
  | comma => "Comma"
  | semicolon => "Semicolon"
  | plusAssign => "PlusEq"
  | minusAssign => "MinusEq"
  | starAssign => "StarEq"
  | slashAssign => "SlashEq"
  | percentAssign => "PercentEq"
  | increment => "PlusPlus"
  | decrement => "MinusMinus"
  | openParen => "LParen"
  | closeParen => "RParen"

inductive Token where
  | number (value : Float)
  | truth (value : Bool)
  | name (name : String)
  | symbol (symbol : Symbol)
deriving DecidableEq

/-- How messages speak of a token. -/
def Token.describe : Token → String
  | .number value => "number `" ++ Number.text value ++ "`"
  | .truth true => "`true`"
  | .truth false => "`false`"
  | .name word => "identifier `" ++ word ++ "`"
  | .symbol s => s.describe

end BlockLang
