import BlockLang.Number.Text
import BlockLang.Toml.Value

/-!
# Writing TOML

A table is written with its plain entries first. An entry that is a list of tables comes after
them, each table of the list under a header of its own, with an empty line between sections.
-/

namespace BlockLang.Toml

/-! ## Strings -/

/-- Whether a text holds three of the same character in a row. -/
def hasTriple (quote : Char) : List Char → Bool
  | a :: b :: c :: text =>
    (a == quote && b == quote && c == quote) || hasTriple quote (b :: c :: text)
  | _ => false

/-- The forms in which a text can be written. -/
inductive StringForm where
  | basic
  | literal
  | multilineBasic
  | multilineLiteral
deriving Repr, DecidableEq

/-- The first form that fits a text. A form fits if the text needs no escapes in it, tabs apart. -/
def StringForm.for (text : List Char) : StringForm :=
  -- A tab does not count as a control character, although double quotes escape it.
  let hasControl := text.any isControl
  let hasNewline := text.contains '\n'
  if !text.contains '"' && !text.contains '\\' && !hasNewline && !hasControl then basic
  else if !text.contains '\'' && !hasNewline && !hasControl then literal
  else if !text.contains '\\' && !hasControl && !hasTriple '"' text then multilineBasic
  else if !hasControl && !hasTriple '\'' text then multilineLiteral
  else if hasNewline then multilineBasic
  else basic

def hexDigit (n : Nat) : Char :=
  (Nat.digitChar n).toUpper

/-- How a character that cannot stand for itself is written, the line feed apart. -/
def escape? (c : Char) : Option (List Char) :=
  if c == '\x08' then some ['\\', 'b']
  else if c == '\t' then some ['\\', 't']
  else if c == '\x0c' then some ['\\', 'f']
  else if c == '\r' then some ['\\', 'r']
  else if c == '\\' then some ['\\', '\\']
  else if isControl c then
    some ['\\', 'u', '0', '0', hexDigit (c.toNat / 16), hexDigit (c.toNat % 16)]
  else none

/-- The text between quotes, on one line. -/
def basicBody (text : List Char) : List Char :=
  text.flatMap fun c =>
    if c == '"' then ['\\', '"']
    else if c == '\n' then ['\\', 'n']
    else (escape? c).getD [c]

/-- The text between triple quotes. Of quotes in a row every third one is escaped; `quotes` are
open before the text. -/
def multilineBody (quotes : Nat) : List Char → List Char
  | [] => []
  | c :: text =>
    if c == '"' then
      if quotes == 2 then '\\' :: '"' :: multilineBody 0 text
      else '"' :: multilineBody (quotes + 1) text
    else (escape? c).getD [c] ++ multilineBody 0 text

/-- The empty first line of a triple-quoted text that has several lines. -/
def openingLine (text : List Char) : List Char :=
  if text.contains '\n' then ['\n'] else []

def writeString (text : List Char) : List Char :=
  match StringForm.for text with
  | .basic => '"' :: basicBody text ++ ['"']
  | .literal => '\'' :: text ++ ['\'']
  | .multilineBasic =>
    ['"', '"', '"'] ++ openingLine text ++ multilineBody 0 text ++ ['"', '"', '"']
  | .multilineLiteral =>
    ['\'', '\'', '\''] ++ openingLine text ++ text ++ ['\'', '\'', '\'']

/-! ## Numbers -/

/-- Numbers are written by position and always with a fraction. -/
def numberStyle : Number.Style := ⟨fun _ => true, ['.', '0'], true, ['n', 'a', 'n']⟩

def writeInteger : Int → List Char
  | .ofNat n => Decimal.numeral n
  | .negSucc n => '-' :: Decimal.numeral (n + 1)

/-! ## Values on one line -/

def writeKey (key : List Char) : List Char :=
  if !key.isEmpty && key.all isBareKeyChar then key else '"' :: basicBody key ++ ['"']

mutual

def writeInline : Value → List Char
  | .string text => writeString text.toList
  | .integer n => writeInteger n
  | .float a => numberStyle.write a
  | .boolean true => ['t', 'r', 'u', 'e']
  | .boolean false => ['f', 'a', 'l', 's', 'e']
  | .moment text => text.toList
  | .array items => '[' :: writeItems items ++ [']']
  | .table entries => '{' :: writePairs entries ++ ['}']

def writeItems : List Value → List Char
  | [] => []
  | [item] => writeInline item
  | item :: items => writeInline item ++ ',' :: ' ' :: writeItems items

def writePairs : Table → List Char
  | [] => []
  | [(key, value)] => ' ' :: writeKey key.toList ++ [' ', '=', ' '] ++ writeInline value ++ [' ']
  | (key, value) :: entries =>
    ' ' :: writeKey key.toList ++ [' ', '=', ' '] ++ writeInline value ++ ',' :: writePairs entries

end

/-! ## Documents -/

def Value.isTable : Value → Bool
  | table _ => true
  | _ => false

/-- Whether an entry is written as sections of its own: a list of tables that is not empty. -/
def Value.isSections : Value → Bool
  | array (item :: items) => (item :: items).all Value.isTable
  | _ => false

/-- The lines of the plain entries of a table. -/
def plainLines : Table → List Char
  | [] => []
  | (key, value) :: entries =>
    if value.isSections then plainLines entries
    else writeKey key.toList ++ [' ', '=', ' '] ++ writeInline value ++ '\n' :: plainLines entries

/-- The header of a table in a list of tables. -/
def sectionHeader (path : List String) : List Char :=
  '[' :: '[' :: ['.'].intercalate (path.map fun key => writeKey key.toList) ++ [']', ']', '\n']

mutual

/-- The sections of a table in the list with the given path. -/
def Value.sections (path : List String) : Value → List (List Char)
  | .table entries => (sectionHeader path ++ plainLines entries) :: entrySections path entries
  | _ => []

def itemSections (path : List String) : List Value → List (List Char)
  | [] => []
  | item :: items => item.sections path ++ itemSections path items

/-- The sections of the entries of a table that are lists of tables. -/
def entrySections (path : List String) : Table → List (List Char)
  | [] => []
  | (key, .array (item :: items)) :: entries =>
    (if (item :: items).all Value.isTable then
      item.sections (path ++ [key]) ++ itemSections (path ++ [key]) items
    else []) ++ entrySections path entries
  | _ :: entries => entrySections path entries

end

/-- The text of a document. -/
def write (document : Table) : String :=
  let top := match plainLines document with
    | [] => []
    | lines => [lines]
  .ofList (['\n'].intercalate (top ++ entrySections [] document))

end BlockLang.Toml
