import BlockLang.Toml.Blank

/-!
# Text in quotes

A reader takes characters from the front of a text and returns what it has read with the characters
that are left, or nothing if the text does not start with what it reads. Readers of text in quotes
start after the opening quotes and read the closing ones too.
-/

namespace BlockLang.Toml

/-! ## Escapes -/

/-- The value of a digit to a base of at most sixteen. -/
def digitValue? (base : Nat) (c : Char) : Option Nat :=
  let value :=
    if c.isDigit then c.toNat - '0'.toNat
    else if 'a' ≤ c ∧ c ≤ 'f' then c.toNat - 'a'.toNat + 10
    else if 'A' ≤ c ∧ c ≤ 'F' then c.toNat - 'A'.toNat + 10
    else base
  if value < base then some value else none

/-- The value of some digits to a base of at most sixteen. -/
def numeralValue? (base : Nat) (digits : List Char) : Option Nat :=
  digits.foldlM (fun n c => (digitValue? base c).map (base * n + ·)) 0

/-- Reads the number of a character in hexadecimal, with as many digits as are asked for. -/
def readCode (digits : Nat) (text : List Char) : Option (Char × List Char) :=
  if text.length < digits then none
  else (numeralValue? 16 (text.take digits)).bind fun code =>
    if code.isValidChar then some (.ofNat code, text.drop digits) else none

/-- The character for the letter of a short escape. -/
def shortEscape? (c : Char) : Option Char :=
  if c == 'b' then some '\x08'
  else if c == 't' then some '\t'
  else if c == 'n' then some '\n'
  else if c == 'f' then some '\x0c'
  else if c == 'r' then some '\r'
  else if c == '"' || c == '\\' then some c
  else none

/-- Reads what follows the backslash of an escape. -/
def readEscape : List Char → Option (Char × List Char)
  | [] => none
  | c :: text =>
    if c == 'u' then readCode 4 text
    else if c == 'U' then readCode 8 text
    else (shortEscape? c).map fun value => (value, text)

theorem readCode_length_le {digits : Nat} {text rest : List Char} {c : Char}
    (h : readCode digits text = some (c, rest)) : rest.length ≤ text.length := by
  simp only [readCode, Option.ite_none_left_eq_some, Option.bind_eq_some_iff,
    Option.ite_none_right_eq_some, Option.some.injEq, Prod.mk.injEq] at h
  obtain ⟨_, _, _, _, _, rfl⟩ := h
  simp

theorem readEscape_length_lt {text rest : List Char} {c : Char}
    (h : readEscape text = some (c, rest)) : rest.length < text.length := by
  match text with
  | [] => simp [readEscape] at h
  | first :: text =>
    simp only [readEscape] at h
    refine Nat.lt_succ_of_le ?_
    split at h
    · exact readCode_length_le h
    split at h
    · exact readCode_length_le h
    · simp only [Option.map_eq_some_iff, Prod.mk.injEq] at h
      obtain ⟨_, _, _, rfl⟩ := h
      exact Nat.le_refl _

/-! ## Strings -/

/-- Puts a character in front of the text that was read. -/
def extend (c : Char) (found : List Char × List Char) : List Char × List Char :=
  (c :: found.1, found.2)

theorem rest_of_extend {c : Char} {found : Option (List Char × List Char)}
    {body rest : List Char} (h : found.map (extend c) = some (body, rest)) :
    ∃ body', found = some (body', rest) := by
  obtain ⟨⟨body', rest'⟩, rfl, equal⟩ := Option.map_eq_some_iff.1 h
  simp only [extend, Prod.mk.injEq] at equal
  exact ⟨body', by rw [equal.2]⟩

/-- Reads text in double quotes. -/
def readBasic (text : List Char) : Option (List Char × List Char) :=
  match text with
  | [] => none
  | c :: rest =>
    if c == '"' then some ([], rest)
    else if c == '\\' then
      match _h : readEscape rest with
      | some (value, rest') => (readBasic rest').map (extend value)
      | none => none
    else if isControl c || c == '\n' then none
    else (readBasic rest).map (extend c)
termination_by text.length
decreasing_by
  · have := readEscape_length_lt _h; simp only [List.length_cons]; omega
  · simp

/-- A character that can stand in single quotes. -/
def isLiteralChar (c : Char) : Bool :=
  !isControl c && c != '\n' && c != '\''

/-- Reads text in single quotes, which has no escapes. -/
def readLiteral (text : List Char) : Option (List Char × List Char) :=
  match text.dropWhile isLiteralChar with
  | '\'' :: rest => some (text.takeWhile isLiteralChar, rest)
  | _ => none

/-- Reads the three quotes at the end of a string. Up to two more in front of them are text. -/
def readClosing (quote : Char) (text : List Char) : Option (List Char × List Char) :=
  let quotes := min (text.takeWhile (· == quote)).length 5
  if 3 ≤ quotes then some (List.replicate (quotes - 3) quote, text.drop quotes) else none

/-- Skips what a backslash at the end of a line takes away: the line end and all blanks and line
ends after it. -/
def skipJoin? (text : List Char) : Option (List Char) :=
  match skipBlanks text with
  | '\n' :: rest => some (rest.dropWhile fun c => isBlank c || c == '\n')
  | _ => none

theorem skipJoin?_length_lt {text rest : List Char} (h : skipJoin? text = some rest) :
    rest.length < text.length := by
  have start := skipBlanks_length_le text
  unfold skipJoin? at h
  split at h
  · rename_i ended
    simp only [Option.some.injEq] at h
    subst h
    rw [ended] at start
    exact Nat.lt_of_le_of_lt (List.dropWhile_sublist _).length_le start
  · simp at h

/-- Reads text in three double quotes. -/
def readMultilineBasic (text : List Char) : Option (List Char × List Char) :=
  match text with
  | [] => none
  | c :: rest =>
    if c == '"' then
      match readClosing '"' (c :: rest) with
      | some found => some found
      | none => (readMultilineBasic rest).map (extend c)
    else if c == '\\' then
      match _h : skipJoin? rest with
      | some rest' => readMultilineBasic rest'
      | none => match _h : readEscape rest with
        | some (value, rest') => (readMultilineBasic rest').map (extend value)
        | none => none
    else if isControl c then none
    else (readMultilineBasic rest).map (extend c)
termination_by text.length
decreasing_by
  · simp
  · have := skipJoin?_length_lt _h; simp only [List.length_cons]; omega
  · have := readEscape_length_lt _h; simp only [List.length_cons]; omega
  · simp

/-- Reads text in three single quotes, which has no escapes. -/
def readMultilineLiteral : List Char → Option (List Char × List Char)
  | [] => none
  | c :: rest =>
    if isControl c then none
    else match readClosing '\'' (c :: rest) with
      | some found => some found
      | none => (readMultilineLiteral rest).map (extend c)

/-- Skips the line end that can follow three opening quotes. -/
def skipOpeningLine : List Char → List Char
  | '\n' :: text => text
  | text => text

/-- Reads a string with its quotes. -/
def readString : List Char → Option (List Char × List Char)
  | '"' :: '"' :: '"' :: text => readMultilineBasic (skipOpeningLine text)
  | '\'' :: '\'' :: '\'' :: text => readMultilineLiteral (skipOpeningLine text)
  | '"' :: text => readBasic text
  | '\'' :: text => readLiteral text
  | _ => none

theorem readBasic_length_lt {text body rest : List Char} (h : readBasic text = some (body, rest)) :
    rest.length < text.length := by
  fun_induction readBasic text generalizing body rest with
  | case1 => simp at h
  | case2 => simp only [Option.some.injEq, Prod.mk.injEq] at h; simp [h.2]
  | case3 c text _ _ value left escaped ih =>
    obtain ⟨_, read⟩ := rest_of_extend h
    have := ih read
    have := readEscape_length_lt escaped
    simp only [List.length_cons]
    omega
  | case4 => simp at h
  | case5 => simp at h
  | case6 c text _ _ _ ih =>
    obtain ⟨_, read⟩ := rest_of_extend h
    have := ih read
    simp only [List.length_cons]
    omega

theorem readLiteral_length_lt {text body rest : List Char}
    (h : readLiteral text = some (body, rest)) : rest.length < text.length := by
  have shorter := (List.dropWhile_sublist (l := text) isLiteralChar).length_le
  unfold readLiteral at h
  split at h
  · rename_i ended
    simp only [Option.some.injEq, Prod.mk.injEq] at h
    rw [ended, h.2] at shorter
    exact shorter
  · simp at h

theorem readClosing_length_lt {quote : Char} {text body rest : List Char}
    (h : readClosing quote text = some (body, rest)) : rest.length < text.length := by
  have run := (List.takeWhile_sublist (l := text) (· == quote)).length_le
  simp only [readClosing, Option.ite_none_right_eq_some, Option.some.injEq, Prod.mk.injEq] at h
  obtain ⟨three, _, rfl⟩ := h
  simp only [List.length_drop]
  omega

theorem readMultilineBasic_length_lt {text body rest : List Char}
    (h : readMultilineBasic text = some (body, rest)) : rest.length < text.length := by
  fun_induction readMultilineBasic text generalizing body rest with
  | case1 => simp at h
  | case2 c text _ found closed =>
    simp only [Option.some.injEq] at h
    rw [h] at closed
    exact readClosing_length_lt closed
  | case3 c text _ _ ih =>
    obtain ⟨_, read⟩ := rest_of_extend h
    have := ih read
    simp only [List.length_cons]
    omega
  | case4 c text _ _ left joined ih =>
    have shorter := ih h
    have := skipJoin?_length_lt joined
    simp only [List.length_cons]
    omega
  | case5 c text _ _ _ value left escaped ih =>
    obtain ⟨_, read⟩ := rest_of_extend h
    have := ih read
    have := readEscape_length_lt escaped
    simp only [List.length_cons]
    omega
  | case6 => simp at h
  | case7 => simp at h
  | case8 c text _ _ _ ih =>
    obtain ⟨_, read⟩ := rest_of_extend h
    have := ih read
    simp only [List.length_cons]
    omega

theorem readMultilineLiteral_length_lt {text body rest : List Char}
    (h : readMultilineLiteral text = some (body, rest)) : rest.length < text.length := by
  fun_induction readMultilineLiteral text generalizing body rest with
  | case1 => simp at h
  | case2 => simp at h
  | case3 c text _ found closed =>
    simp only [Option.some.injEq] at h
    rw [h] at closed
    exact readClosing_length_lt closed
  | case4 c text _ _ ih =>
    obtain ⟨_, read⟩ := rest_of_extend h
    have := ih read
    simp only [List.length_cons]
    omega

theorem skipOpeningLine_length_le (text : List Char) :
    (skipOpeningLine text).length ≤ text.length := by
  unfold skipOpeningLine
  split <;> simp

theorem readString_length_lt {text body rest : List Char}
    (h : readString text = some (body, rest)) : rest.length < text.length := by
  unfold readString at h
  split at h
  · rename_i text
    have := readMultilineBasic_length_lt h
    have := skipOpeningLine_length_le text
    simp only [List.length_cons]
    omega
  · rename_i text
    have := readMultilineLiteral_length_lt h
    have := skipOpeningLine_length_le text
    simp only [List.length_cons]
    omega
  · exact Nat.lt_succ_of_lt (readBasic_length_lt h)
  · exact Nat.lt_succ_of_lt (readLiteral_length_lt h)
  · simp at h

end BlockLang.Toml
