import BlockLang.Proofs.Expr.Ends

/-!
# The texts of tokens

A grammar for the texts of tokens that does not say how they are read: literals, words and the
spellings of symbols. Main statement: what is taken from the front of a text is the longest piece of
this grammar that the text begins with, and where nothing is taken no piece begins.
-/

namespace BlockLang

open Lexeme

/-! ## Literals -/

namespace Decimal

/-- An exponent or none, and the power of ten that it stands for. -/
inductive ExponentText : List Char → Int → Prop
  | none : ExponentText [] 0
  | some {mark sign digits} (parts : IsExponent mark sign digits) (all : ∀ c ∈ digits, c.isDigit) :
      ExponentText (mark :: (sign ++ digits))
        (if sign = ['-'] then -value digits else value digits)

/-- Digits with a point among them or none, and an exponent. There is at least one digit in front
of the exponent. -/
inductive Literal : List Char → Decimal → Prop
  | whole {whole back e} (ne_nil : whole ≠ []) (whole_digits : ∀ c ∈ whole, c.isDigit)
      (exponent : ExponentText back e) : Literal (whole ++ back) ⟨value whole, e⟩
  | pointed {whole fraction back e} (ne_nil : whole ++ fraction ≠ [])
      (whole_digits : ∀ c ∈ whole, c.isDigit) (fraction_digits : ∀ c ∈ fraction, c.isDigit)
      (exponent : ExponentText back e) : Literal (whole ++ '.' :: (fraction ++ back))
        ⟨value (whole ++ fraction), e - fraction.length⟩

variable {text : List Char} {d : Decimal} {e : Int}

/-- An exponent begins with a letter. -/
lemma ExponentText.head (h : ExponentText text e) : ∀ c ∈ text.head?, isDecimalPart c = false := by
  cases h with
  | none => simp
  | some parts all =>
    rintro c ⟨⟩
    rcases parts.mark with rfl | rfl <;> rfl

lemma ExponentText.head_not_digit (h : ExponentText text e) :
    ∀ c ∈ text.head?, c.isDigit = false := by
  intro c hc
  have hpart := h.head c hc
  rw [isDecimalPart, Bool.or_eq_false_iff] at hpart
  exact hpart.1

/-- The value of an exponent is that of its digits, with its sign. -/
lemma exponentOfText?_of_isExponent {mark : Char} {sign digits : List Char}
    (parts : IsExponent mark sign digits) (all : ∀ c ∈ digits, c.isDigit) :
    exponentOfText? (mark :: (sign ++ digits)) =
      some (if sign = ['-'] then -(value digits : Int) else value digits) := by
  obtain ⟨hmark, hsign, hdigits⟩ := parts
  have hread : (digits.isEmpty || !digits.all Char.isDigit) = false := by
    rw [Bool.or_eq_false_iff, Bool.not_eq_false', List.all_eq_true]
    refine ⟨?_, all⟩
    cases digits with
    | nil => cases hdigits
    | cons => rfl
  rcases hsign with rfl | rfl | rfl
  · -- A digit is not a sign.
    have hsigns (s : Char) (hs : s.isDigit = false) (rest : List Char) : digits ≠ s :: rest := by
      rintro rfl
      rw [all s List.mem_cons_self] at hs
      cases hs
    rw [List.nil_append, exponentOfText?, if_pos hmark]
    · simp [hread]
    · exact hsigns '-' rfl
    · exact hsigns '+' rfl
  · simp [exponentOfText?, hmark, hread]
  · simp [exponentOfText?, hmark, hread]

lemma startsWithDigit_of_isDigit {digits : List Char} (hne : digits ≠ [])
    (h : ∀ c ∈ digits, c.isDigit) : startsWithDigit digits := by
  cases digits with
  | nil => exact absurd rfl hne
  | cons d digits => exact h d List.mem_cons_self

/-- An exponent is read with its value, and nothing else is read as one. -/
lemma exponentOfText?_eq_some_iff : exponentOfText? text = some e ↔ ExponentText text e := by
  constructor
  · have hread {digits : List Char} (h : ¬ (digits.isEmpty || !digits.all Char.isDigit)) :
        startsWithDigit digits ∧ ∀ c ∈ digits, c.isDigit := by
      rw [Bool.not_eq_true, Bool.or_eq_false_iff, Bool.not_eq_false', List.all_eq_true] at h
      exact ⟨startsWithDigit_of_isDigit (by simpa using h.1) h.2, h.2⟩
    fun_cases exponentOfText? text with
    | case1 =>
      rintro ⟨⟩
      exact .none
    | case2 => nofun
    | case3 mark text hmark digits hdigits hsplit =>
      rintro ⟨⟩
      obtain ⟨hstarts, hall⟩ := hread hdigits
      split at hsplit <;> cases hsplit
      exact .some ⟨hmark, .inr (.inr rfl), hstarts⟩ hall
    | case4 mark text hmark negative digits hsplit hdigits hnegative =>
      rintro ⟨⟩
      obtain ⟨hstarts, hall⟩ := hread hdigits
      split at hsplit <;> cases hsplit
      · exact absurd rfl hnegative
      · exact .some ⟨hmark, .inr (.inl rfl), hstarts⟩ hall
      · exact .some ⟨hmark, .inl rfl, hstarts⟩ hall
    | case5 => nofun
  · intro h
    cases h with
    | none => rfl
    | some parts all => exact exponentOfText?_of_isExponent parts all

/-- What is read as a decimal is written as one. -/
lemma literal_of_ofText? (h : ofText? text = some d) : Literal text d := by
  have hwhole : ∀ c ∈ text.takeWhile Char.isDigit, c.isDigit := fun _ => List.mem_takeWhile_imp
  have htext := (List.takeWhile_append_dropWhile (p := Char.isDigit) (l := text)).symm
  revert h
  fun_cases ofText? text with
  | case1 => nofun
  | case2 whole fraction back hsplit hsome =>
    intro h
    obtain ⟨e, he, rfl⟩ := Option.map_eq_some_iff.mp h
    have hexponent := exponentOfText?_eq_some_iff.mp he
    split at hsplit
    · rename_i more hdrop
      cases hsplit
      have hmore := (List.takeWhile_append_dropWhile (p := Char.isDigit) (l := more)).symm
      have hne : whole ++ more.takeWhile Char.isDigit ≠ [] := by simpa using hsome
      rw [hdrop, hmore] at htext
      rw [htext]
      exact .pointed hne hwhole (fun _ => List.mem_takeWhile_imp) hexponent
    · cases hsplit
      have hne : whole ≠ [] := by simpa using hsome
      rw [htext, List.append_nil, List.length_nil, Int.natCast_zero, Int.sub_zero]
      exact .whole hne hwhole hexponent

/-- A text is read as a decimal if it is a literal, and as the one that it stands for. -/
theorem ofText?_eq_some_iff : ofText? text = some d ↔ Literal text d := by
  refine ⟨literal_of_ofText?, fun h => ?_⟩
  cases h with
  | @whole whole back e hne hwhole exponent =>
    obtain ⟨htake, hdrop⟩ := takeWhile_dropWhile_append hwhole exponent.head_not_digit
    have hread := exponentOfText?_eq_some_iff.mpr exponent
    have hempty : whole.isEmpty = false := by simpa using hne
    have hpoint (more : List Char) : back ≠ '.' :: more := by
      rintro rfl
      have hpart := exponent.head '.' rfl
      cases hpart
    unfold ofText?
    rw [htake, hdrop]
    split
    rename_i fraction rest hsplit
    split at hsplit
    · exact absurd rfl (hpoint _)
    · cases hsplit
      simp [hempty, hread]
  | @pointed whole fraction back e hne hwhole hfraction exponent =>
    have hpoint : ∀ c ∈ ('.' :: (fraction ++ back)).head?, c.isDigit = false := by simp
    obtain ⟨htake, hdrop⟩ := takeWhile_dropWhile_append hwhole hpoint
    obtain ⟨htake', hdrop'⟩ := takeWhile_dropWhile_append hfraction exponent.head_not_digit
    have hread := exponentOfText?_eq_some_iff.mpr exponent
    have hempty : (whole.isEmpty && fraction.isEmpty) = false := by simpa using hne
    simp only [ofText?, htake, hdrop, htake', hdrop', hempty, hread]
    rfl

end Decimal

/-! ## Pieces -/

/-- How a symbol can be written. -/
def Symbol.spellings : Symbol → List (List Char)
  | plus => [['+']]
  | minus => [['-']]
  | star => [['*']]
  | slash => [['/']]
  | percent => [['%']]
  | assign => [['=']]
  | equal => [['=', '='], ['=', '=', '=']]
  | notEqual => [['!', '='], ['!', '=', '=']]
  | greater => [['>']]
  | less => [['<']]
  | greaterEqual => [['>', '=']]
  | lessEqual => [['<', '=']]
  | and => [['&', '&']]
  | or => [['|', '|']]
  | not => [['!']]
  | question => [['?']]
  | colon => [[':']]
  | comma => [[',']]
  | semicolon => [[';']]
  | plusAssign => [['+', '=']]
  | minusAssign => [['-', '=']]
  | starAssign => [['*', '=']]
  | slashAssign => [['/', '=']]
  | percentAssign => [['%', '=']]
  | increment => [['+', '+']]
  | decrement => [['-', '-']]
  | openParen => [['(']]
  | closeParen => [[')']]

namespace Lexeme

/-- Digits and points, the first of them a digit or a point before a digit, and an exponent. -/
inductive IsRun : List Char → Prop
  | digits {digits back e} (begins : startsWithDigit digits) (all : ∀ c ∈ digits, isDecimalPart c)
      (exponent : Decimal.ExponentText back e) : IsRun (digits ++ back)
  | point {digits back e} (begins : startsWithDigit digits) (all : ∀ c ∈ digits, isDecimalPart c)
      (exponent : Decimal.ExponentText back e) : IsRun ('.' :: (digits ++ back))

/-- Letters, digits and underscores, and points that a letter follows. -/
inductive IsWordTail : List Char → Prop
  | nil : IsWordTail []
  | letter {c tail} (letter : c.isAlphanum || c == '_') (others : IsWordTail tail) :
      IsWordTail (c :: tail)
  | point {c tail} (letter : c.isAlpha) (others : IsWordTail (c :: tail)) :
      IsWordTail ('.' :: c :: tail)

/-- What begins with a letter or an underscore and goes on as a word does. -/
inductive IsWord : List Char → Prop
  | mk {c tail} (begins : c.isAlpha || c == '_') (others : IsWordTail tail) : IsWord (c :: tail)

/-- What is taken from a text at once, be it the text of a token or not. -/
def IsPiece (part : List Char) : Prop :=
  IsRun part ∨ IsWord part ∨ ∃ s : Symbol, part ∈ s.spellings

/-- The texts of tokens. -/
inductive Writes : Token → List Char → Prop
  | number {part d} (literal : Decimal.Literal part d) : Writes (.number d.toFloat) part
  | word {part} (word : IsWord part) : Writes (wordToken part) part
  | symbol {s part} (spelling : part ∈ s.spellings) : Writes (.symbol s) part

/-! ## Reading a piece by itself -/

variable {c : Char} {text part tail : List Char} {token : Token} {s : Symbol}

/-- An exponent takes all of a text if and only if the text is that of one. -/
lemma exponentPart_eq_self_iff : exponentPart text = text ↔ ∃ e, Decimal.ExponentText text e := by
  constructor
  · intro h
    rcases exponentPart_eq_nil_or text with hnil | ⟨mark, sign, digits, rfl, hexp⟩
    · rw [← h, hnil]
      exact ⟨0, .none⟩
    · rw [exponentPart_of_isExponent hexp] at h
      have hdigits : digits.takeWhile Char.isDigit = digits := by simpa using h
      exact ⟨_, .some hexp (List.takeWhile_eq_self_iff.mp hdigits)⟩
  · rintro ⟨e, h⟩
    cases h with
    | none => rfl
    | some parts all =>
      rw [exponentPart_of_isExponent parts, List.takeWhile_eq_self_iff.mpr all]

/-- A number takes all of a text if and only if the text has parts of decimals and an exponent after
them. -/
lemma numberTail_eq_self_iff : numberTail text = text ↔ ∃ front back e, text = front ++ back ∧
    (∀ c ∈ front, isDecimalPart c) ∧ Decimal.ExponentText back e := by
  constructor
  · intro h
    have hback : exponentPart (text.dropWhile isDecimalPart) = text.dropWhile isDecimalPart := by
      apply (List.append_right_inj (text.takeWhile isDecimalPart)).mp
      rw [← numberTail_eq, List.takeWhile_append_dropWhile, h]
    obtain ⟨e, hexponent⟩ := exponentPart_eq_self_iff.mp hback
    exact ⟨_, _, e, List.takeWhile_append_dropWhile.symm, fun _ => List.mem_takeWhile_imp,
      hexponent⟩
  · rintro ⟨front, back, e, rfl, hfront, hexponent⟩
    obtain ⟨htake, hdrop⟩ := takeWhile_dropWhile_append hfront hexponent.head
    rw [numberTail_eq, htake, hdrop, exponentPart_eq_self_iff.mpr ⟨e, hexponent⟩]

lemma startsWithDigit_append {digits : List Char} (h : startsWithDigit digits)
    (rest : List Char) : startsWithDigit (digits ++ rest) := by
  cases digits with
  | nil => cases h
  | cons d digits => exact h

/-- An exponent has no digit in front. -/
lemma startsWithDigit_of_append {front back : List Char} {e : Int}
    (hback : Decimal.ExponentText back e) (h : startsWithDigit (front ++ back)) :
    startsWithDigit front := by
  cases front with
  | nil =>
    cases back with
    | nil => cases h
    | cons c back =>
      have hc := hback.head_not_digit c rfl
      have hdigit : c.isDigit := h
      rw [hdigit] at hc
      cases hc
  | cons => exact h

/-- A text is a run if a number begins it that takes all of it. -/
lemma isRun_cons_iff : IsRun (c :: tail) ↔
    (c.isDigit || (c == '.' && startsWithDigit tail)) ∧ numberTail tail = tail := by
  rw [numberTail_eq_self_iff]
  constructor
  · intro h
    generalize hpart : c :: tail = part at h
    cases h with
    | @digits digits back e begins all exponent =>
      cases digits with
      | nil => cases begins
      | cons d digits =>
        cases hpart
        have hdigit : c.isDigit := begins
        refine ⟨by simp [hdigit], digits, back, e, rfl, ?_, exponent⟩
        exact fun d hd => all d (List.mem_cons_of_mem c hd)
    | @point digits back e begins all exponent =>
      cases hpart
      refine ⟨?_, digits, back, e, rfl, all, exponent⟩
      simp [startsWithDigit_append begins]
  · rintro ⟨hbegins, front, back, e, rfl, hfront, hexponent⟩
    rw [Bool.or_eq_true, Bool.and_eq_true, beq_iff_eq] at hbegins
    rcases hbegins with hdigit | ⟨rfl, hstarts⟩
    · have hall : ∀ d ∈ c :: front, isDecimalPart d := by
        rw [List.forall_mem_cons]
        exact ⟨by simp [isDecimalPart, hdigit], hfront⟩
      have hstarts : startsWithDigit (c :: front) := hdigit
      exact .digits hstarts hall hexponent
    · exact .point (startsWithDigit_of_append hexponent hstarts) hfront hexponent

/-- A name takes all of a text if and only if the text is the rest of a word. -/
lemma nameTail_eq_self_iff : nameTail text = text ↔ IsWordTail text := by
  constructor
  · intro h
    fun_induction nameTail text with
    | case1 => exact .nil
    | case2 c text hc ih =>
      have htail : nameTail text = text := (List.cons.inj h).2
      rw [Bool.or_eq_true, Bool.and_eq_true, beq_iff_eq] at hc
      rcases hc with hletter | ⟨rfl, hnext⟩
      · exact .letter hletter (ih htail)
      · cases text with
        | nil => cases hnext
        | cons d text => exact .point hnext (ih htail)
    | case3 => cases h
  · intro h
    induction h with
    | nil => rfl
    | letter hletter _ ih =>
      rw [nameTail, ih, hletter, Bool.true_or, if_pos rfl]
    | point hletter _ ih =>
      rw [nameTail, ih]
      simp [hletter]

/-- No symbol begins as a number or a word does. -/
lemma head_of_mem_spellings (h : c :: tail ∈ s.spellings) :
    c.isDigit = false ∧ c ≠ '.' ∧ (c.isAlpha || c == '_') = false := by
  have hhead : ∀ part ∈ s.spellings, (part.headD ' ').isDigit = false ∧ part.headD ' ' ≠ '.' ∧
      ((part.headD ' ').isAlpha || part.headD ' ' == '_') = false := by
    cases s <;> decide
  exact hhead _ h

/-- A symbol is found by its spellings. -/
lemma mem_spellings_iff : c :: tail ∈ s.spellings ↔ symbolOf? c tail = some (s, tail) := by
  constructor
  · intro h
    have hread : ∀ part ∈ s.spellings,
        symbolOf? (part.headD ' ') part.tail = some (s, part.tail) := by
      cases s <;> decide
    exact hread _ h
  · intro h
    unfold symbolOf? at h
    split at h
    all_goals cases h
    all_goals simp [Symbol.spellings]

lemma ne_nil_of_mem_spellings (h : part ∈ s.spellings) : part ≠ [] := by
  have hall : ∀ part ∈ s.spellings, part ≠ [] := by cases s <;> decide
  exact hall part h

lemma isDecimalPart_of_isDigit (h : c.isDigit) : isDecimalPart c := by
  simp [isDecimalPart, h]

/-- A decimal is a run. -/
lemma isRun_of_literal {d : Decimal} (h : Decimal.Literal part d) : IsRun part := by
  cases h with
  | whole hne hwhole exponent =>
    have hstarts := Decimal.startsWithDigit_of_isDigit hne hwhole
    exact .digits hstarts (fun c hc => isDecimalPart_of_isDigit (hwhole c hc)) exponent
  | @pointed whole fraction back e hne hwhole hfraction exponent =>
    cases whole with
    | nil =>
      have hstarts := Decimal.startsWithDigit_of_isDigit hne hfraction
      exact .point hstarts (fun c hc => isDecimalPart_of_isDigit (hfraction c hc)) exponent
    | cons d whole =>
      have hall : ∀ c ∈ d :: (whole ++ '.' :: fraction), isDecimalPart c := by
        intro c hc
        rw [← List.cons_append, List.mem_append, List.mem_cons (a := c) (b := '.')] at hc
        rcases hc with hc | rfl | hc
        · exact isDecimalPart_of_isDigit (hwhole c hc)
        · rfl
        · exact isDecimalPart_of_isDigit (hfraction c hc)
      have hstarts : startsWithDigit (d :: (whole ++ '.' :: fraction)) :=
        hwhole d List.mem_cons_self
      have hrun := IsRun.digits hstarts hall exponent
      simpa using hrun

lemma IsPiece.ne_nil (h : IsPiece part) : part ≠ [] := by
  rcases h with h | h | ⟨s, h⟩
  · rintro rfl
    generalize hpart : [] = part at h
    cases h with
    | digits begins =>
      rw [(List.append_eq_nil_iff.mp hpart.symm).1] at begins
      cases begins
    | point => cases hpart
  · cases h
    exact List.cons_ne_nil _ _
  · exact ne_nil_of_mem_spellings h

/-- What a token is written with is a piece. -/
lemma Writes.isPiece (h : Writes token part) : IsPiece part := by
  cases h with
  | number literal => exact .inl (isRun_of_literal literal)
  | word word => exact .inr (.inl word)
  | @symbol s part spelling => exact .inr (.inr ⟨s, spelling⟩)

/-- The texts of tokens are those that are taken whole when they are read by themselves. -/
theorem spells_iff_writes : Spells token part ↔ Writes token part := by
  constructor
  · intro h
    cases h with
    | number begins whole value => exact .number (Decimal.ofText?_eq_some_iff.mp value)
    | word begins whole value =>
      rw [← value]
      exact .word (.mk begins (nameTail_eq_self_iff.mp whole))
    | symbol whole => exact .symbol (mem_spellings_iff.mpr whole)
  · intro h
    obtain ⟨c, tail, rfl⟩ := List.exists_cons_of_ne_nil h.isPiece.ne_nil
    generalize hpart : c :: tail = part at h
    cases h with
    | number literal =>
      subst hpart
      obtain ⟨hbegins, hwhole⟩ := isRun_cons_iff.mp (isRun_of_literal literal)
      exact .number hbegins hwhole (Decimal.ofText?_eq_some_iff.mpr literal)
    | word word =>
      cases word with
      | mk begins others => exact .word begins (nameTail_eq_self_iff.mpr others) rfl
    | symbol spelling =>
      subst hpart
      exact .symbol (mem_spellings_iff.mp spelling)

/-! ## The longest piece -/

/-- The text begins with the piece, and with no longer one. -/
structure Longest (part text : List Char) : Prop where
  piece : IsPiece part
  isPrefix : part <+: text
  longest : ∀ other, IsPiece other → other <+: text → other.length ≤ part.length

/-- What is found at the front of a text that begins with `c`: the longest piece there, or no
piece at all. -/
inductive Found (c : Char) (text : List Char) : Except ParseError.Cause Token × Nat → Prop
  | token {token : Token} {tail : List Char} (longest : Longest (c :: tail) (c :: text))
      (writes : Writes token (c :: tail)) : Found c text (.ok token, tail.length)
  | badNumber {tail : List Char} (longest : Longest (c :: tail) (c :: text))
      (run : IsRun (c :: tail)) (bad : ∀ d, ¬ Decimal.Literal (c :: tail) d) :
      Found c text (.error (.badNumber (.ofList (c :: tail))), tail.length)
  | lone (lone : c = '&' ∨ c = '|') (none : ∀ part, IsPiece part → ¬ part <+: c :: text) :
      Found c text (.error (.loneCharacter c), 0)
  | stray (other : c ≠ '&' ∧ c ≠ '|') (none : ∀ part, IsPiece part → ¬ part <+: c :: text) :
      Found c text (.error (.strayCharacter c), 0)

lemma isDigit_eq_false_of_begins (h : c.isAlpha || c == '_') : c.isDigit = false := by
  rw [Bool.or_eq_true, beq_iff_eq] at h
  rcases h with h | rfl
  · delta Char.isAlpha Char.isUpper Char.isLower at h
    simp only [Char.isDigit]
    grind
  · rfl

/-- The text of a token is read as the token. -/
lemma first_of_writes (h : Writes token (c :: tail)) :
    first c tail = (.ok token, tail.length) := by
  generalize hpart : c :: tail = part at h
  cases h with
  | @number part d literal =>
    subst hpart
    obtain ⟨hbegins, hwhole⟩ := isRun_cons_iff.mp (isRun_of_literal literal)
    have hread := Decimal.ofText?_eq_some_iff.mpr literal
    unfold first
    rw [if_pos hbegins]
    simp only [hwhole, hread]
  | word word =>
    cases word with
    | mk begins others =>
      cases hpart
      have hpoint : c ≠ '.' := by
        rintro rfl
        cases begins
      -- A word is tried after a number, and a symbol after both.
      have hnumber : ¬ (c.isDigit || (c == '.' && startsWithDigit tail)) := by
        simp [isDigit_eq_false_of_begins begins, hpoint]
      rw [first, if_neg hnumber, if_pos begins, nameTail_eq_self_iff.mpr others]
  | @symbol s part spelling =>
    subst hpart
    have hread := mem_spellings_iff.mp spelling
    obtain ⟨hdigit, hpoint, hletter⟩ := head_of_mem_spellings spelling
    have hnumber : ¬ (c.isDigit || (c == '.' && startsWithDigit tail)) := by
      simp [hdigit, hpoint]
    rw [first, if_neg hnumber, if_neg (ne_true_of_eq_false hletter), hread]

/-- A run that is no decimal is refused as a whole. -/
lemma first_of_not_literal (hrun : IsRun (c :: tail))
    (hbad : ∀ d, ¬ Decimal.Literal (c :: tail) d) :
    first c tail = (.error (.badNumber (.ofList (c :: tail))), tail.length) := by
  obtain ⟨hbegins, hwhole⟩ := isRun_cons_iff.mp hrun
  have hread : Decimal.ofText? (c :: tail) = none := by
    rw [Option.eq_none_iff_forall_ne_some]
    intro d hd
    exact hbad d (Decimal.ofText?_eq_some_iff.mp hd)
  unfold first
  rw [if_pos hbegins]
  simp only [hwhole, hread]

/-- A piece is the text of a token or a run that is no literal. -/
lemma IsPiece.writes_or (h : IsPiece part) :
    (∃ token, Writes token part) ∨ IsRun part ∧ ∀ d, ¬ Decimal.Literal part d := by
  rcases h with hrun | hword | ⟨s, hs⟩
  · by_cases hliteral : ∃ d, Decimal.Literal part d
    · obtain ⟨d, hd⟩ := hliteral
      exact .inl ⟨_, .number hd⟩
    · exact .inr ⟨hrun, not_exists.mp hliteral⟩
  · exact .inl ⟨_, .word hword⟩
  · exact .inl ⟨_, .symbol hs⟩

/-- A piece is taken whole if it is read by itself. -/
lemma length_first_of_isPiece (h : IsPiece (c :: tail)) : (first c tail).2 = tail.length := by
  rcases h.writes_or with ⟨token, hwrites⟩ | ⟨hrun, hbad⟩
  · rw [first_of_writes hwrites]
  · rw [first_of_not_literal hrun hbad]

/-- A piece at the front of a text is no longer than what is taken from the text. -/
lemma length_le_of_isPiece (h : IsPiece (c :: tail)) (hp : tail <+: text) :
    tail.length ≤ (first c text).2 := by
  obtain ⟨rest, rfl⟩ := hp
  by_contra hlt
  have hle : (first c (tail ++ rest)).2 ≤ tail.length := by omega
  rw [first_append_of_le hle, length_first_of_isPiece h] at hlt
  exact hlt le_rfl

/-- What is taken at the front is the longest piece there, if it is one. -/
lemma longest_of_first (h : IsPiece (c :: tail)) (hp : tail <+: text)
    (hlength : (first c text).2 = tail.length) : Longest (c :: tail) (c :: text) where
  piece := h
  isPrefix := (List.prefix_cons_inj c).mpr hp
  longest other hother hprefix := by
    obtain ⟨d, more, rfl⟩ := List.exists_cons_of_ne_nil hother.ne_nil
    obtain ⟨rfl, hmore⟩ := List.cons_prefix_cons.mp hprefix
    have hle := length_le_of_isPiece hother hmore
    simp only [List.length_cons]
    omega

/-- Where nothing but an unknown character is found no piece begins. -/
lemma not_isPiece_of_first {cause : ParseError.Cause} (h : first c text = (.error cause, 0))
    (hcause : ∀ literal, cause ≠ .badNumber literal) :
    ∀ part, IsPiece part → ¬ part <+: c :: text := by
  intro part hpart hprefix
  obtain ⟨d, tail, rfl⟩ := List.exists_cons_of_ne_nil hpart.ne_nil
  obtain ⟨rfl, rest, rfl⟩ := List.cons_prefix_cons.mp hprefix
  -- The piece would be read in the same way without what follows it.
  have hle : (first d (tail ++ rest)).2 ≤ tail.length := by
    rw [h]
    exact Nat.zero_le _
  rw [first_append_of_le hle] at h
  rcases hpart.writes_or with ⟨token, hwrites⟩ | ⟨hrun, hbad⟩
  · rw [first_of_writes hwrites] at h
    cases h
  · rw [first_of_not_literal hrun hbad] at h
    exact hcause _ (Except.error.inj (congrArg Prod.fst h)).symm

/-- What is taken at the front is what can be found there. -/
lemma found_of_first {found : Except ParseError.Cause Token × Nat} (h : first c text = found) :
    Found c text found := by
  have hfirst := h
  unfold first at h
  split at h
  -- A digit, or a point before one, begins a number.
  case isTrue hbegins =>
    have hrun : IsRun (c :: numberTail text) := by
      refine isRun_cons_iff.mpr ⟨?_, numberTail_numberTail text⟩
      simp only [Bool.or_eq_true, Bool.and_eq_true] at hbegins ⊢
      exact hbegins.imp_right (And.imp_right startsWithDigit_numberTail)
    dsimp only at h
    split at h
    case h_1 d hd =>
      subst h
      have hlongest := longest_of_first (.inl hrun) (numberTail_isPrefix text)
        (congrArg Prod.snd hfirst)
      exact .token hlongest (.number (Decimal.ofText?_eq_some_iff.mp hd))
    case h_2 hd =>
      subst h
      have hlongest := longest_of_first (.inl hrun) (numberTail_isPrefix text)
        (congrArg Prod.snd hfirst)
      refine .badNumber hlongest hrun fun d hliteral => ?_
      rw [Decimal.ofText?_eq_some_iff.mpr hliteral] at hd
      cases hd
  split at h
  -- A letter or an underscore begins a word.
  case isTrue hbegins =>
    subst h
    have hword : IsWord (c :: nameTail text) :=
      .mk hbegins (nameTail_eq_self_iff.mp (nameTail_nameTail text))
    exact .token (longest_of_first (.inr (.inl hword)) (nameTail_isPrefix text)
      (congrArg Prod.snd hfirst)) (.word hword)
  split at h
  -- What is left are symbols, and the two characters that are none alone.
  case h_1 s tail hs =>
    subst h
    obtain ⟨hstart, hwhole⟩ := symbolOf?_tail hs
    have hspelling := mem_spellings_iff.mpr hwhole
    exact .token (longest_of_first (.inr (.inr ⟨s, hspelling⟩)) hstart
      (congrArg Prod.snd hfirst)) (.symbol hspelling)
  case h_2 =>
    split at h
    case isTrue hlone =>
      subst h
      rw [Bool.or_eq_true, beq_iff_eq, beq_iff_eq] at hlone
      exact .lone hlone (not_isPiece_of_first hfirst nofun)
    case isFalse hlone =>
      subst h
      rw [Bool.or_eq_true, beq_iff_eq, beq_iff_eq, not_or] at hlone
      exact .stray hlone (not_isPiece_of_first hfirst nofun)

/-- What is taken from the front of a text is the longest piece there. -/
theorem found_first (c : Char) (text : List Char) : Found c text (first c text) :=
  found_of_first rfl

end Lexeme

end BlockLang
