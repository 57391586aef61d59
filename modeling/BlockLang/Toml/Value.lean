/-!
# TOML values

The values that a TOML document is made of. A document is a table.
-/

namespace BlockLang.Toml

inductive Value where
  | string (text : String)
  | integer (value : Int)
  | float (value : Float)
  | boolean (value : Bool)
  /-- A date, a time or both. Programs have no use for them, so only their text is kept. -/
  | moment (text : String)
  | array (items : List Value)
  | table (entries : List (String × Value))

/-- The entries of a table in the order in which they were written. -/
abbrev Table := List (String × Value)

/-! ## Characters -/

/-- A character that a key without quotes can have. -/
def isBareKeyChar (c : Char) : Bool :=
  c.isAlphanum || c == '_' || c == '-'

def isBlank (c : Char) : Bool :=
  c == ' ' || c == '\t'

/-- An ASCII control character other than tab and line feed. -/
def isControl (c : Char) : Bool :=
  (c.toNat < 0x20 && c != '\t' && c != '\n') || c.toNat == 0x7F

/-- A character that can stand in a comment. -/
def isCommentChar (c : Char) : Bool :=
  !isControl c && c != '\n'

end BlockLang.Toml
