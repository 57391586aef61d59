import BlockLang.Expr.ParseError

/-!
# Lexemes

A text is read from the left into lexemes, each a token with its span. Every lexeme takes as many
characters as it can; spaces, tabs and line ends between lexemes are skipped.
-/

namespace BlockLang

structure Lexeme where
  token : Token
  span : Span
deriving DecidableEq

namespace Lexeme

def isBlank (c : Char) : Bool :=
  c == ' ' || c == '\t' || c == '\n' || c == '\r'

def startsWithDigit (text : List Char) : Bool :=
  text.head?.any Char.isDigit

/-! ## The characters of a lexeme after its first -/

/-- The exponent at the front of a text, or nothing if there is no digit in it. -/
def exponentPart : List Char → List Char
  | mark :: text =>
    let (sign, rest) := match text with
      | '+' :: rest => (['+'], rest)
      | '-' :: rest => (['-'], rest)
      | rest => ([], rest)
    if (mark == 'e' || mark == 'E') && startsWithDigit rest then
      mark :: sign ++ rest.takeWhile Char.isDigit
    else []
  | [] => []

/-- Digits and points, as many as there are, and an exponent. -/
def numberTail (text : List Char) : List Char :=
  let isPart (c : Char) := c.isDigit || c == '.'
  text.takeWhile isPart ++ exponentPart (text.dropWhile isPart)

/-- Letters, digits and underscores, and points that a letter follows. -/
def nameTail : List Char → List Char
  | [] => []
  | c :: text =>
    if c.isAlphanum || c == '_' || (c == '.' && text.head?.any Char.isAlpha) then
      c :: nameTail text
    else []

/-- The symbol that begins with `c`, and the characters after `c` that belong to it. -/
def symbolOf? (c : Char) (text : List Char) : Option (Symbol × List Char) :=
  match c, text with
  | '=', '=' :: '=' :: _ => some (.equal, ['=', '='])
  | '=', '=' :: _ => some (.equal, ['='])
  | '=', _ => some (.assign, [])
  | '!', '=' :: '=' :: _ => some (.notEqual, ['=', '='])
  | '!', '=' :: _ => some (.notEqual, ['='])
  | '!', _ => some (.not, [])
  | '>', '=' :: _ => some (.greaterEqual, ['='])
  | '>', _ => some (.greater, [])
  | '<', '=' :: _ => some (.lessEqual, ['='])
  | '<', _ => some (.less, [])
  | '&', '&' :: _ => some (.and, ['&'])
  | '|', '|' :: _ => some (.or, ['|'])
  | '+', '=' :: _ => some (.plusAssign, ['='])
  | '+', '+' :: _ => some (.increment, ['+'])
  | '+', _ => some (.plus, [])
  | '-', '=' :: _ => some (.minusAssign, ['='])
  | '-', '-' :: _ => some (.decrement, ['-'])
  | '-', _ => some (.minus, [])
  | '*', '=' :: _ => some (.starAssign, ['='])
  | '*', _ => some (.star, [])
  | '/', '=' :: _ => some (.slashAssign, ['='])
  | '/', _ => some (.slash, [])
  | '%', '=' :: _ => some (.percentAssign, ['='])
  | '%', _ => some (.percent, [])
  | '?', _ => some (.question, [])
  | ':', _ => some (.colon, [])
  | ',', _ => some (.comma, [])
  | ';', _ => some (.semicolon, [])
  | '(', _ => some (.openParen, [])
  | ')', _ => some (.closeParen, [])
  | _, _ => none

/-! ## Reading a text -/

def wordToken (word : List Char) : Token :=
  if word = ['t', 'r', 'u', 'e'] then .truth true
  else if word = ['f', 'a', 'l', 's', 'e'] then .truth false
  else .name (.ofList word)

/-- What a text that begins with a character that is not blank begins with: a token or a reason
why there is none, and the number of characters after the first that it takes. -/
def first (c : Char) (text : List Char) : Except ParseError.Cause Token × Nat :=
  if c.isDigit || (c == '.' && startsWithDigit text) then
    let tail := numberTail text
    match Decimal.ofText? (c :: tail) with
    | some d => (.ok (.number d.toFloat), tail.length)
    | none => (.error (.badNumber (.ofList (c :: tail))), tail.length)
  else if c.isAlpha || c == '_' then
    let tail := nameTail text
    (.ok (wordToken (c :: tail)), tail.length)
  else match symbolOf? c text with
    | some (symbol, tail) => (.ok (.symbol symbol), tail.length)
    | none =>
      if c == '&' || c == '|' then (.error (.loneCharacter c), 0)
      else (.error (.strayCharacter c), 0)

/-- The lexemes of a text whose first character is byte `start` of a larger one. -/
def scan (start : Nat) : List Char → Except ParseError (List Lexeme)
  | [] => .ok []
  | c :: text =>
    if isBlank c then scan (start + c.utf8Size) text
    else
      let (found, more) := first c text
      let span : Span := ⟨start, start + width (c :: text.take more)⟩
      match found with
      | .error cause => .error ⟨cause, span⟩
      | .ok token => (scan span.stop (text.drop more)).map (⟨token, span⟩ :: ·)
termination_by text => text.length

/-- The lexemes of a text. -/
def ofText (text : String) : Except ParseError (List Lexeme) :=
  scan 0 text.toList

end Lexeme

end BlockLang
