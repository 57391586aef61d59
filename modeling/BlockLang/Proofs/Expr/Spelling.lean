import BlockLang.Expr.Lexeme
import Mathlib.Data.List.Infix
import Mathlib.Data.List.TakeWhile
import Mathlib.Tactic.Lemma

/-!
# How tokens are written

The characters that a lexeme takes begin the text, and taken by themselves they are all taken again.
Main statement: a token that a text begins with is written with the characters it takes, and the
parentheses among them are those of the token.
-/

namespace BlockLang.Lexeme

/-! ## The characters that a lexeme takes -/

/-- What an exponent is made of: a mark, a sign or none, and digits. -/
structure IsExponent (mark : Char) (sign rest : List Char) : Prop where
  mark : mark = 'e' ∨ mark = 'E'
  sign : sign = [] ∨ sign = ['+'] ∨ sign = ['-']
  digits : startsWithDigit rest

variable {mark : Char} {sign rest text : List Char}

/-- A digit at the front is taken with the digits behind it. -/
lemma startsWithDigit_takeWhile (h : startsWithDigit text) :
    startsWithDigit (text.takeWhile Char.isDigit) := by
  cases text with
  | nil => cases h
  | cons d text =>
    have hd : d.isDigit = true := h
    rw [List.takeWhile_cons_of_pos hd]
    exact hd

/-- An exponent takes its mark, its sign and its digits. -/
lemma exponentPart_of_isExponent (h : IsExponent mark sign rest) :
    exponentPart (mark :: (sign ++ rest)) = mark :: (sign ++ rest.takeWhile Char.isDigit) := by
  obtain ⟨hmark, hsign, hrest⟩ := h
  have hmark : (mark == 'e' || mark == 'E') = true := by simpa using hmark
  rcases hsign with rfl | rfl | rfl
  · -- A digit is not a sign.
    have hsigns (s : Char) (hs : s.isDigit = false) (rest' : List Char) : rest ≠ s :: rest' := by
      rintro rfl
      have hd : s.isDigit = true := hrest
      simp [hs] at hd
    rw [List.nil_append, exponentPart]
    · simp [hmark, hrest]
    · exact hsigns '+' rfl
    · exact hsigns '-' rfl
  · simp [exponentPart, hmark, hrest]
  · simp [exponentPart, hmark, hrest]

/-- Where there is an exponent it has a mark, a sign or none, and a digit. -/
lemma exponentPart_eq_nil_or (text : List Char) :
    exponentPart text = [] ∨ ∃ mark sign rest, text = mark :: (sign ++ rest) ∧
      IsExponent mark sign rest := by
  fun_cases exponentPart text with
  | case1 mark text sign rest hsplit h =>
    rw [Bool.and_eq_true, Bool.or_eq_true, beq_iff_eq, beq_iff_eq] at h
    refine .inr ⟨mark, sign, rest, ?_⟩
    split at hsplit <;> cases hsplit
    · exact ⟨rfl, h.1, .inr (.inl rfl), h.2⟩
    · exact ⟨rfl, h.1, .inr (.inr rfl), h.2⟩
    · exact ⟨rfl, h.1, .inl rfl, h.2⟩
  | case2 => exact .inl rfl
  | case3 => exact .inl rfl

/-- An exponent begins the text that it is taken from. -/
lemma exponentPart_isPrefix (text : List Char) : exponentPart text <+: text := by
  rcases exponentPart_eq_nil_or text with h | ⟨mark, sign, rest, rfl, h⟩
  · rw [h]
    exact List.nil_prefix
  · rw [exponentPart_of_isExponent h]
    exact (List.prefix_append_right_inj (mark :: sign)).mpr (List.takeWhile_prefix _)

/-- Taken by itself it is taken again. -/
lemma exponentPart_exponentPart (text : List Char) :
    exponentPart (exponentPart text) = exponentPart text := by
  rcases exponentPart_eq_nil_or text with h | ⟨mark, sign, rest, rfl, h⟩
  · rw [h]
    rfl
  · have hdigits : IsExponent mark sign (rest.takeWhile Char.isDigit) :=
      ⟨h.mark, h.sign, startsWithDigit_takeWhile h.digits⟩
    rw [exponentPart_of_isExponent h, exponentPart_of_isExponent hdigits, List.takeWhile_idem]

/-- A digit or a point. -/
def isDecimalPart (c : Char) : Bool :=
  c.isDigit || c == '.'

/-- The rest of a number is parts of decimals and then an exponent. -/
lemma numberTail_eq (text : List Char) : numberTail text =
    text.takeWhile isDecimalPart ++ exponentPart (text.dropWhile isDecimalPart) :=
  rfl

/-- The rest of a number begins the text that it is taken from. -/
lemma numberTail_isPrefix (text : List Char) : numberTail text <+: text := by
  rw [numberTail_eq]
  conv_rhs => rw [← List.takeWhile_append_dropWhile (p := isDecimalPart) (l := text)]
  exact (List.prefix_append_right_inj _).mpr (exponentPart_isPrefix _)

/-- An exponent begins with a letter. -/
lemma isDecimalPart_head_exponentPart (text : List Char) :
    ∀ c ∈ (exponentPart text).head?, isDecimalPart c = false := by
  rcases exponentPart_eq_nil_or text with h | ⟨mark, sign, rest, rfl, h⟩
  · simp [h]
  · rw [exponentPart_of_isExponent h]
    rintro c ⟨⟩
    rcases h.mark with rfl | rfl <;> rfl

/-- Where some characters end that are all `p` and others follow that do not begin so. -/
lemma takeWhile_dropWhile_append {p : Char → Bool} {xs ys : List Char} (hxs : ∀ c ∈ xs, p c)
    (hys : ∀ c ∈ ys.head?, p c = false) :
    (xs ++ ys).takeWhile p = xs ∧ (xs ++ ys).dropWhile p = ys := by
  rw [List.takeWhile_append_of_pos hxs, List.dropWhile_append_of_pos hxs]
  cases ys with
  | nil => simp
  | cons c ys =>
    have hc : p c = false := hys c rfl
    simp [hc]

/-- Taken by itself it is taken again. -/
lemma numberTail_numberTail (text : List Char) :
    numberTail (numberTail text) = numberTail text := by
  -- The digits and points are taken again in full, because the exponent begins with a letter.
  have hparts : ∀ c ∈ text.takeWhile isDecimalPart, isDecimalPart c :=
    fun _ => List.mem_takeWhile_imp
  obtain ⟨htake, hdrop⟩ := takeWhile_dropWhile_append hparts
    (isDecimalPart_head_exponentPart (text.dropWhile isDecimalPart))
  rw [numberTail_eq text, numberTail_eq (_ ++ _), htake, hdrop, exponentPart_exponentPart]

lemma startsWithDigit_numberTail (h : startsWithDigit text) :
    startsWithDigit (numberTail text) := by
  cases text with
  | nil => cases h
  | cons d text =>
    have hd : d.isDigit = true := h
    have hpart : isDecimalPart d = true := by simp [isDecimalPart, hd]
    rw [numberTail_eq, List.takeWhile_cons_of_pos hpart]
    exact hd

/-- The rest of a name begins the text that it is taken from. -/
lemma nameTail_isPrefix (text : List Char) : nameTail text <+: text := by
  fun_induction nameTail text with
  | case1 => exact List.nil_prefix
  | case2 c text h ih => exact (List.prefix_cons_inj c).mpr ih
  | case3 => exact List.nil_prefix

lemma head_nameTail (h : text.head?.any Char.isAlpha) : (nameTail text).head? = text.head? := by
  cases text with
  | nil => cases h
  | cons c text =>
    have hc : c.isAlpha = true := h
    simp [nameTail, Char.isAlphanum, hc]

/-- Taken by itself it is taken again. -/
lemma nameTail_nameTail (text : List Char) : nameTail (nameTail text) = nameTail text := by
  fun_induction nameTail text with
  | case1 => rfl
  | case2 c text h ih =>
    have hc : (c.isAlphanum || c == '_' ||
        c == '.' && (nameTail text).head?.any Char.isAlpha) = true := by
      -- A letter behind a point is taken with the point, so the point is taken again.
      by_cases hnext : text.head?.any Char.isAlpha
      · rw [head_nameTail hnext]
        exact h
      · simp only [hnext, Bool.and_false, Bool.or_false] at h
        simp [h]
    rw [nameTail, if_pos hc, ih]
  | case3 => rfl

/-- The rest of a symbol begins the text that it is taken from, and makes the symbol by itself. -/
lemma symbolOf?_tail {c : Char} {s : Symbol} {tail : List Char}
    (h : symbolOf? c text = some (s, tail)) :
    tail <+: text ∧ symbolOf? c tail = some (s, tail) := by
  unfold symbolOf? at h
  split at h
  all_goals cases h
  all_goals exact ⟨by simp, rfl⟩

/-! ## What a token is written with -/

/-- The token is written with the characters, all of which are taken when it is read. -/
inductive Spells : Token → List Char → Prop
  | number {c tail} {d : Decimal} (begins : c.isDigit || (c == '.' && startsWithDigit tail))
      (whole : numberTail tail = tail) (value : Decimal.ofText? (c :: tail) = some d) :
      Spells (.number d.toFloat) (c :: tail)
  | word {c tail token} (begins : c.isAlpha || c == '_') (whole : nameTail tail = tail)
      (value : wordToken (c :: tail) = token) : Spells token (c :: tail)
  | symbol {c tail s} (whole : symbolOf? c tail = some (s, tail)) : Spells (.symbol s) (c :: tail)

/-- What a text begins with is a token that is written with the characters it takes. -/
lemma spells_of_first {c : Char} {token : Token} {more : Nat}
    (h : first c text = (.ok token, more)) : Spells token (c :: text.take more) := by
  have htake {tail : List Char} (hp : tail <+: text) : text.take tail.length = tail :=
    (List.prefix_iff_eq_take.mp hp).symm
  unfold first at h
  -- A text begins with a number, a word or a symbol, in this order of preference.
  split at h
  case isTrue hc =>
    dsimp only at h
    split at h <;> cases h
    rename_i d hd
    rw [htake (numberTail_isPrefix text)]
    refine .number ?_ (numberTail_numberTail text) hd
    simp only [Bool.or_eq_true, Bool.and_eq_true] at hc ⊢
    exact hc.imp_right (And.imp_right startsWithDigit_numberTail)
  split at h
  case isTrue hc =>
    cases h
    rw [htake (nameTail_isPrefix text)]
    exact .word hc (nameTail_nameTail text) rfl
  split at h
  case h_1 s tail hs =>
    cases h
    obtain ⟨hbegins, hwhole⟩ := symbolOf?_tail hs
    rw [htake hbegins]
    exact .symbol hwhole
  case h_2 => split at h <;> cases h

/-! ## Parentheses -/

def isParen (c : Char) : Bool :=
  c == '(' || c == ')'

lemma isParen_eq_false {c : Char} (ho : c ≠ '(') (hc : c ≠ ')') : isParen c = false := by
  simp [isParen, ho, hc]

/-- The parentheses that a token is written with. -/
def parens : Token → List Char
  | .symbol .openParen => ['(']
  | .symbol .closeParen => [')']
  | _ => []

lemma isParen_of_isAlphanum {c : Char} (h : c.isAlphanum) : isParen c = false := by
  refine isParen_eq_false ?_ ?_ <;> rintro rfl <;> cases h

/-- There are no parentheses among characters of a kind that has none. -/
lemma filter_isParen_takeWhile {p : Char → Bool} (h : ∀ c, p c → isParen c = false)
    (text : List Char) : (text.takeWhile p).filter isParen = [] := by
  rw [List.filter_eq_nil_iff]
  intro c hc
  simp [h c (List.mem_takeWhile_imp hc)]

lemma isParen_of_isDigit {c : Char} (h : c.isDigit) : isParen c = false :=
  isParen_of_isAlphanum (by simp [Char.isAlphanum, h])

lemma isParen_of_isDecimalPart {c : Char} (h : isDecimalPart c) : isParen c = false := by
  rw [isDecimalPart, Bool.or_eq_true, beq_iff_eq] at h
  rcases h with h | rfl
  · exact isParen_of_isDigit h
  · rfl

lemma filter_isParen_numberTail (text : List Char) : (numberTail text).filter isParen = [] := by
  rw [numberTail_eq, List.filter_append,
    filter_isParen_takeWhile (fun _ => isParen_of_isDecimalPart), List.nil_append]
  rcases exponentPart_eq_nil_or (text.dropWhile isDecimalPart) with h | ⟨mark, sign, rest, heq, h⟩
  · rw [h]
    rfl
  · have hdigits := filter_isParen_takeWhile (fun _ => isParen_of_isDigit) rest
    rw [heq, exponentPart_of_isExponent h]
    rcases h.mark with rfl | rfl <;> rcases h.sign with rfl | rfl | rfl <;> exact hdigits

lemma filter_isParen_nameTail (text : List Char) : (nameTail text).filter isParen = [] := by
  fun_induction nameTail text with
  | case1 => rfl
  | case2 c text h ih =>
    have hc : isParen c = false := by
      refine isParen_eq_false ?_ ?_ <;> rintro rfl <;> cases h
    rw [List.filter_cons_of_neg (by simp [hc]), ih]
  | case3 => rfl

/-- The parentheses among the characters of a symbol are those of the token. -/
lemma filter_isParen_of_symbolOf? {c : Char} {s : Symbol} {tail : List Char}
    (h : symbolOf? c text = some (s, tail)) :
    (c :: tail).filter isParen = parens (.symbol s) := by
  unfold symbolOf? at h
  split at h
  all_goals cases h
  all_goals rfl

/-- A word has no parentheses. -/
lemma parens_wordToken (word : List Char) : parens (wordToken word) = [] := by
  unfold wordToken
  split_ifs <;> rfl

/-- The parentheses in what a token is written with are those of the token. -/
lemma Spells.filter_isParen {token : Token} {part : List Char} (h : Spells token part) :
    part.filter isParen = parens token := by
  cases h with
  | @number c tail d begins whole value =>
    have hc : isParen c = false := by
      refine isParen_eq_false ?_ ?_ <;> rintro rfl <;> cases begins
    rw [List.filter_cons_of_neg (by simp [hc]), ← whole, filter_isParen_numberTail]
    rfl
  | @word c tail token begins whole value =>
    have hc : isParen c = false := by
      refine isParen_eq_false ?_ ?_ <;> rintro rfl <;> cases begins
    rw [List.filter_cons_of_neg (by simp [hc]), ← value, parens_wordToken, ← whole,
      filter_isParen_nameTail]
  | symbol whole => exact filter_isParen_of_symbolOf? whole

/-- A token has characters. -/
lemma Spells.ne_nil {token : Token} {part : List Char} (h : Spells token part) : part ≠ [] := by
  cases h <;> exact List.cons_ne_nil _ _

/-- A name is the word that it is read from. -/
lemma ofList_eq_of_wordToken {cs : List Char} {word : String} (h : wordToken cs = .name word) :
    String.ofList cs = word := by
  unfold wordToken at h
  split_ifs at h
  exact Token.name.inj h

lemma wordToken_ne_symbol {cs : List Char} {s : Symbol} : wordToken cs ≠ .symbol s := by
  unfold wordToken
  split_ifs <;> rintro ⟨⟩

/-- A name is written as it is. -/
lemma Spells.eq_of_name {word : String} {part : List Char} (h : Spells (.name word) part) :
    String.ofList part = word := by
  cases h with
  | word _ _ value => exact ofList_eq_of_wordToken value

/-- A parenthesis is written with nothing else. -/
lemma Spells.eq_parens {s : Symbol} {part : List Char} (h : Spells (.symbol s) part)
    (hs : parens (.symbol s) ≠ []) : part = parens (.symbol s) := by
  cases h with
  | word _ _ value => exact absurd value wordToken_ne_symbol
  | symbol whole =>
    unfold symbolOf? at whole
    split at whole
    all_goals cases whole
    all_goals first | rfl | exact absurd rfl hs

end BlockLang.Lexeme
