import BlockLang.Toml.Value

/-!
# Blanks, comments and line ends

What stands between the values of a document. Skipping takes away as much as there is, which can be
nothing. A text is read after its line ends have been made line feeds.
-/

namespace BlockLang.Toml

/-! ## Line ends -/

/-- The same text with a line feed for every carriage return that is followed by one. -/
def unifyLineEnds : List Char → List Char
  | '\r' :: '\n' :: text => '\n' :: unifyLineEnds text
  | c :: text => c :: unifyLineEnds text
  | [] => []

/-! ## Blanks and comments -/

def skipBlanks (text : List Char) : List Char :=
  text.dropWhile isBlank

theorem skipBlanks_length_le (text : List Char) : (skipBlanks text).length ≤ text.length :=
  (List.dropWhile_sublist isBlank).length_le

/-- Skips blanks, line ends and comments. -/
def skipTrivia (text : List Char) : List Char :=
  match text with
  | [] => []
  | c :: rest =>
    if isBlank c || c == '\n' then skipTrivia rest
    else if c == '#' then skipTrivia (rest.dropWhile isCommentChar)
    else c :: rest
termination_by text.length
decreasing_by
  · simp
  · exact Nat.lt_succ_of_le (List.dropWhile_sublist _).length_le

theorem skipTrivia_length_le (text : List Char) : (skipTrivia text).length ≤ text.length := by
  fun_induction skipTrivia text with
  | case1 => simp
  | case2 c rest _ ih => exact Nat.le_succ_of_le ih
  | case3 c rest _ _ ih =>
    exact Nat.le_succ_of_le (Nat.le_trans ih (List.dropWhile_sublist _).length_le)
  | case4 => simp

/-- Skips a comment, if the text starts with one, up to the end of its line. -/
def skipComment : List Char → List Char
  | '#' :: text => text.dropWhile isCommentChar
  | text => text

theorem skipComment_length_le (text : List Char) : (skipComment text).length ≤ text.length := by
  unfold skipComment
  split
  · exact Nat.le_succ_of_le (List.dropWhile_sublist _).length_le
  · exact Nat.le_refl _

/-- Reads the end of a line, in front of which there may be blanks and a comment. The end of the
text ends its last line. -/
def readLineEnd (text : List Char) : Option (List Char) :=
  match skipComment (skipBlanks text) with
  | [] => some []
  | '\n' :: rest => some rest
  | _ => none

theorem readLineEnd_length_le {text rest : List Char} (h : readLineEnd text = some rest) :
    rest.length ≤ text.length := by
  have start := Nat.le_trans (skipComment_length_le _) (skipBlanks_length_le text)
  unfold readLineEnd at h
  split at h
  · simp only [Option.some.injEq] at h
    simp [← h]
  · rename_i ended
    simp only [Option.some.injEq] at h
    rw [ended, h] at start
    exact Nat.le_of_lt start
  · simp at h

/-- The end of a line takes up at least one character, unless the text is at its end. -/
theorem readLineEnd_length_lt {text rest : List Char} (nonempty : text ≠ [])
    (h : readLineEnd text = some rest) : rest.length < text.length := by
  have pos := List.length_pos_iff.2 nonempty
  have start := Nat.le_trans (skipComment_length_le _) (skipBlanks_length_le text)
  unfold readLineEnd at h
  split at h
  · simp only [Option.some.injEq] at h
    simpa [← h] using pos
  · rename_i ended
    simp only [Option.some.injEq] at h
    rw [ended, h] at start
    exact start
  · simp at h

end BlockLang.Toml
