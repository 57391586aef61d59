/-!
# Text

Taking texts apart and laying them out in columns.
-/

namespace BlockLang.Text

/-- The characters that Unicode counts as white space. -/
def isWhiteSpace (c : Char) : Bool :=
  let n := c.toNat
  (9 ≤ n && n ≤ 13) || n == 0x20 || n == 0x85 || n == 0xA0 || n == 0x1680 ||
    (0x2000 ≤ n && n ≤ 0x200A) || n == 0x2028 || n == 0x2029 || n == 0x202F || n == 0x205F ||
    n == 0x3000

/-- The text without the characters at either end that pass the test. -/
def trimWhere (test : Char → Bool) (text : String) : String :=
  .ofList ((text.toList.dropWhile test).reverse.dropWhile test).reverse

/-- The text without white space at either end. -/
def trim (text : String) : String :=
  trimWhere isWhiteSpace text

/-- Whether the pattern stands anywhere in the text. -/
def occursIn (pattern : List Char) : List Char → Bool
  | [] => pattern.isEmpty
  | c :: text => pattern.isPrefixOf (c :: text) || occursIn pattern text

/-- The parts of a text between separators. There is one part more than there are separators. -/
def splitOn (separator : Char) : List Char → List (List Char)
  | [] => [[]]
  | c :: text =>
    match splitOn separator text with
    | [] => [[c]]
    | part :: parts => if c == separator then [] :: part :: parts else (c :: part) :: parts

/-- The lines made of the parts of a text between its line feeds. A last part that is empty is not a
line. -/
def ofPieces : List (List Char) → List String
  | [] => []
  | [last] => if last.isEmpty then [] else [.ofList last]
  | piece :: pieces =>
    .ofList (if piece.getLast? == some '\r' then piece.dropLast else piece) :: ofPieces pieces

/-- The lines of a text. A line ends with a line feed, which can have a carriage return in front of
it, or with the text. -/
def lines (text : String) : List String :=
  ofPieces (splitOn '\n' text.toList)

/-- The text filled up with spaces to the given number of characters. -/
def padRight (columns : Nat) (text : String) : String :=
  text ++ .ofList (List.replicate (columns - text.toList.length) ' ')

end BlockLang.Text
