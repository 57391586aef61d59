import BlockLang.Dump.Escape

/-!
# Dumps

A dump shows a value with all that is in it, each part on lines of its own. The parts are set in
from the brackets around them, and each is followed by a comma.
-/

namespace BlockLang

/-- What a dump shows. -/
inductive Dump where
  /-- Text on one line. -/
  | atom (text : String)
  /-- A name with parts in parentheses. -/
  | tuple (name : String) (items : List Dump)
  /-- A name with named parts in braces. -/
  | record (name : String) (fields : List (String × Dump))
  | list (items : List Dump)

namespace Dump

def string (text : String) : Dump := atom (quote text)

def boolean (b : Bool) : Dump := atom (if b then "true" else "false")

def natural (n : Nat) : Dump := atom (Nat.repr n)

def option {α : Type} (dump : α → Dump) : Option α → Dump
  | none => atom "None"
  | some a => tuple "Some" [dump a]

/-- Sets in the lines of a part and puts a comma behind it. -/
def setIn : List String → List String
  | [] => []
  | [last] => ["    " ++ last ++ ","]
  | line :: lines => ("    " ++ line) :: setIn lines

/-- Puts text in front of the first line. -/
def prepend (start : String) : List String → List String
  | [] => []
  | line :: lines => (start ++ line) :: lines

mutual

/-- The lines of a dump. -/
def lines : Dump → List String
  | .atom text => [text]
  | .tuple name items => (name ++ "(") :: (itemLines items ++ [")"])
  | .record name fields => (name ++ " \x7b") :: (fieldLines fields ++ ["\x7d"])
  | .list [] => ["[]"]
  | .list (item :: items) => "[" :: (setIn item.lines ++ itemLines items ++ ["]"])

def itemLines : List Dump → List String
  | [] => []
  | item :: items => setIn item.lines ++ itemLines items

def fieldLines : List (String × Dump) → List String
  | [] => []
  | (name, value) :: fields => setIn (prepend (name ++ ": ") value.lines) ++ fieldLines fields

end

/-- The text of a dump. -/
def text (dump : Dump) : String :=
  "\n".intercalate dump.lines

end Dump

end BlockLang
