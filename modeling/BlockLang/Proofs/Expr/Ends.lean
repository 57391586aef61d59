import BlockLang.Proofs.Expr.Layout

/-!
# Where a lexeme ends

A lexeme that ends within a text does not depend on what follows the text. Main statement: no
lexeme goes on across a blank, a semicolon or a parenthesis, so that a text with such a character
in it is scanned up to there and from there on.
-/

namespace BlockLang.Lexeme

variable {start more : Nat} {c d : Char} {text rest : List Char}

/-! ## Lexemes that end within a text -/

/-- What is taken without going beyond the text is taken from it alone. -/
lemma takeWhile_append_of_le {p : Char → Bool}
    (h : ((text ++ rest).takeWhile p).length ≤ text.length) :
    (text ++ rest).takeWhile p = text.takeWhile p := by
  rw [List.takeWhile_append] at h ⊢
  split_ifs at h ⊢ with hall
  · have hlen : (text ++ rest.takeWhile p).length = text.length + (rest.takeWhile p).length :=
      List.length_append
    have hnil : rest.takeWhile p = [] := List.length_eq_zero_iff.mp (by omega)
    rw [hnil, List.append_nil]
    exact ((List.takeWhile_prefix p).eq_of_length hall).symm
  · rfl

section

variable {mark : Char} {sign digits : List Char}

lemma IsExponent.append (h : IsExponent mark sign digits) (rest : List Char) :
    IsExponent mark sign (digits ++ rest) := by
  refine ⟨h.mark, h.sign, ?_⟩
  cases digits with
  | nil => exact absurd h.digits (by decide)
  | cons d digits => exact h.digits

/-- An exponent that stays within the text does not depend on what is behind. -/
lemma IsExponent.exponentPart_append (hexp : IsExponent mark sign digits)
    (h : (exponentPart (mark :: (sign ++ digits) ++ rest)).length ≤
      (mark :: (sign ++ digits)).length) :
    exponentPart (mark :: (sign ++ digits) ++ rest) = exponentPart (mark :: (sign ++ digits)) := by
  rw [List.cons_append, List.append_assoc, exponentPart_of_isExponent (hexp.append rest)] at h ⊢
  have hle : ((digits ++ rest).takeWhile Char.isDigit).length ≤ digits.length := by simpa using h
  rw [exponentPart_of_isExponent hexp, takeWhile_append_of_le hle]

end

/-- So it is with any text, exponent or not. -/
lemma exponentPart_append_of_le (h : (exponentPart (text ++ rest)).length ≤ text.length) :
    exponentPart (text ++ rest) = exponentPart text := by
  rcases exponentPart_eq_nil_or (text ++ rest) with hnil | ⟨mark, sign, digits, htext, hexp⟩
  · rcases exponentPart_eq_nil_or text with hnil' | ⟨mark, sign, digits, rfl, hexp⟩
    · rw [hnil, hnil']
    · exact hexp.exponentPart_append h
  · -- The mark, the sign and the digits taken are all in the text, so it has an exponent by itself.
    have htaken := exponentPart_of_isExponent hexp
    rw [← htext] at htaken
    have hprefix : exponentPart (text ++ rest) <+: text :=
      List.prefix_of_prefix_length_le (exponentPart_isPrefix _) (List.prefix_append _ _) h
    rw [htaken] at hprefix
    obtain ⟨back, rfl⟩ := hprefix
    have hexp' : IsExponent mark sign (digits.takeWhile Char.isDigit) :=
      ⟨hexp.mark, hexp.sign, startsWithDigit_takeWhile hexp.digits⟩
    rw [List.cons_append, List.append_assoc] at h ⊢
    exact (hexp'.append back).exponentPart_append h

/-- A number that stays within the text does not depend on what is behind. -/
lemma numberTail_append_of_le (h : (numberTail (text ++ rest)).length ≤ text.length) :
    numberTail (text ++ rest) = numberTail text := by
  rw [numberTail_eq, List.length_append] at h
  have htake : (text ++ rest).takeWhile isDecimalPart = text.takeWhile isDecimalPart :=
    takeWhile_append_of_le (by omega)
  have hdrop : (text ++ rest).dropWhile isDecimalPart = text.dropWhile isDecimalPart ++ rest := by
    refine (List.append_right_inj (text.takeWhile isDecimalPart)).mp ?_
    rw [← List.append_assoc, List.takeWhile_append_dropWhile]
    nth_rw 1 [← htake]
    exact List.takeWhile_append_dropWhile
  have hlen := congrArg List.length
    (List.takeWhile_append_dropWhile (p := isDecimalPart) (l := text))
  rw [List.length_append] at hlen
  rw [htake, hdrop] at h
  have hexp : exponentPart (text.dropWhile isDecimalPart ++ rest) =
      exponentPart (text.dropWhile isDecimalPart) := exponentPart_append_of_le (by omega)
  rw [numberTail_eq, numberTail_eq, htake, hdrop, hexp]

/-- Nor does a name. -/
lemma nameTail_append_of_le (h : (nameTail (text ++ rest)).length ≤ text.length) :
    nameTail (text ++ rest) = nameTail text := by
  induction text with
  | nil => exact List.length_eq_zero_iff.mp (Nat.le_zero.mp h)
  | cons c text ih =>
    have hnext : (text ++ rest).head?.any Char.isAlpha = text.head?.any Char.isAlpha ∨
        text = [] ∧ rest.head?.any Char.isAlpha := by
      cases text with
      | nil => simp
      | cons => exact .inl rfl
    rw [List.cons_append, nameTail] at h ⊢
    split at h
    case isTrue hc =>
      rcases hnext with hnext | ⟨rfl, hnext⟩
      · rw [hnext] at hc
        rw [if_pos (hnext ▸ hc), nameTail, if_pos hc, ih (Nat.le_of_succ_le_succ h)]
      · -- The letter would be taken with the point, but it is not in the text.
        have hhead := head_nameTail hnext
        have hnil : nameTail rest = [] :=
          List.length_eq_zero_iff.mp (Nat.le_zero.mp (Nat.le_of_succ_le_succ h))
        rw [hnil] at hhead
        rw [← hhead] at hnext
        cases hnext
    case isFalse hc =>
      have hc' : ¬ (c.isAlphanum || c == '_' || c == '.' && text.head?.any Char.isAlpha) := by
        rcases hnext with hnext | ⟨rfl, -⟩
        · rwa [← hnext]
        · simp only [Bool.or_eq_true, not_or] at hc
          simp [hc]
      rw [if_neg hc, nameTail, if_neg hc']

/-- Nor does a symbol. -/
lemma symbolOf?_append_of_le {s : Symbol} {tail : List Char}
    (h : symbolOf? c (text ++ rest) = some (s, tail)) (hle : tail.length ≤ text.length) :
    symbolOf? c text = some (s, tail) := by
  unfold symbolOf? at h
  split at h
  all_goals cases h
  all_goals rcases text with _ | ⟨a, _ | ⟨b, text⟩⟩
  all_goals try rfl
  all_goals simp_all [symbolOf?]
  -- What is left is `==` or `!=` without a third `=` behind it.
  all_goals
    rename_i hthird hsecond
    obtain ⟨rfl, rfl⟩ := hsecond
    have hb : b ≠ '=' := fun hb => hthird (text ++ rest) (by rw [hb])
    simp [hb]

/-- A character that begins no symbol with more behind it begins none without. -/
lemma symbolOf?_eq_none_of_append (h : symbolOf? c (text ++ rest) = none) :
    symbolOf? c text = none := by
  unfold symbolOf? at h
  split at h
  all_goals try cases h
  rcases text with _ | ⟨a, text⟩
  all_goals simp_all [symbolOf?]

lemma startsWithDigit_append_of_le (h : (numberTail (text ++ rest)).length ≤ text.length) :
    startsWithDigit (text ++ rest) = startsWithDigit text := by
  cases text with
  | nil =>
    have hnil : numberTail rest = [] := List.length_eq_zero_iff.mp (Nat.le_zero.mp h)
    rw [List.nil_append]
    by_contra hrest
    have hstarts : startsWithDigit rest := by simpa [startsWithDigit] using hrest
    have htail := startsWithDigit_numberTail hstarts
    rw [hnil] at htail
    cases htail
  | cons => rfl

/-- A lexeme that ends within a text does not depend on what follows the text. -/
theorem first_append_of_le (h : (first c (text ++ rest)).2 ≤ text.length) :
    first c (text ++ rest) = first c text := by
  rw [first] at h
  split at h
  case isTrue hc =>
    have hle : (numberTail (text ++ rest)).length ≤ text.length := by
      dsimp only at h
      split at h <;> exact h
    have hc' : c.isDigit || (c == '.' && startsWithDigit text) := by
      rwa [← startsWithDigit_append_of_le hle]
    rw [first, if_pos hc, first, if_pos hc', numberTail_append_of_le hle]
  case isFalse hc =>
    -- What is no number with the rest behind it is none without it, and so for names.
    have hc' : ¬ (c.isDigit || (c == '.' && startsWithDigit text)) := by
      intro hc'
      cases text with
      | nil => simp_all [startsWithDigit]
      | cons => exact hc hc'
    rw [first, if_neg hc, first, if_neg hc']
    split at h
    case isTrue hname => rw [if_pos hname, if_pos hname, nameTail_append_of_le h]
    case isFalse hname =>
      rw [if_neg hname, if_neg hname]
      cases hs : symbolOf? c (text ++ rest) with
      | none => rw [symbolOf?_eq_none_of_append hs]
      | some found =>
        obtain ⟨s, tail⟩ := found
        rw [hs] at h
        rw [symbolOf?_append_of_le hs h]

/-! ## Characters that end every lexeme -/

/-- A character that can stand in a lexeme behind its first one. -/
def goesOn (c : Char) : Bool :=
  c.isAlphanum || c ∈ ['_', '.', '=', '&', '|', '+', '-']

lemma goesOn_of_isDigit (h : c.isDigit) : goesOn c := by
  simp [goesOn, Char.isAlphanum, h]

/-- The characters of a number can go on a token. -/
lemma goesOn_of_mem_numberTail (h : c ∈ numberTail text) : goesOn c := by
  rw [numberTail_eq, List.mem_append] at h
  rcases h with h | h
  · have hpart := List.mem_takeWhile_imp h
    rw [isDecimalPart, Bool.or_eq_true, beq_iff_eq] at hpart
    rcases hpart with hdigit | rfl
    · exact goesOn_of_isDigit hdigit
    · rfl
  · rcases exponentPart_eq_nil_or (text.dropWhile isDecimalPart) with hnil | ⟨_, _, _, htext, hexp⟩
    · rw [hnil] at h
      cases h
    · rw [htext, exponentPart_of_isExponent hexp, List.mem_cons, List.mem_append] at h
      rcases h with rfl | h | h
      · rcases hexp.mark with rfl | rfl <;> rfl
      · rcases hexp.sign with rfl | rfl | rfl
        · cases h
        · rw [List.mem_singleton.mp h]
          rfl
        · rw [List.mem_singleton.mp h]
          rfl
      · exact goesOn_of_isDigit (List.mem_takeWhile_imp h)

/-- So can those of a name. -/
lemma goesOn_of_mem_nameTail (h : d ∈ nameTail text) : goesOn d := by
  fun_induction nameTail text with
  | case1 => cases h
  | case2 c text hc ih =>
    rcases List.mem_cons.mp h with rfl | h
    · rw [Bool.or_eq_true, Bool.or_eq_true, beq_iff_eq, Bool.and_eq_true, beq_iff_eq] at hc
      rcases hc with (hc | rfl) | ⟨rfl, -⟩
      · simp [goesOn, hc]
      · rfl
      · rfl
    · exact ih h
  | case3 => cases h

/-- So can those of a symbol behind its first one. -/
lemma goesOn_of_mem_symbol {s : Symbol} {tail : List Char} (h : symbolOf? c text = some (s, tail)) :
    ∀ x ∈ tail, goesOn x := by
  unfold symbolOf? at h
  split at h
  all_goals cases h
  all_goals simp [goesOn]

/-- What a lexeme takes behind its first character are characters that it can go on with. -/
lemma goesOn_of_mem_take_first (h : d ∈ text.take (first c text).2) : goesOn d := by
  rw [first] at h
  split at h
  · have htake : d ∈ text.take (numberTail text).length := by
      dsimp only at h
      split at h <;> exact h
    rw [← List.prefix_iff_eq_take.mp (numberTail_isPrefix text)] at htake
    exact goesOn_of_mem_numberTail htake
  · split at h
    · rw [← List.prefix_iff_eq_take.mp (nameTail_isPrefix text)] at h
      exact goesOn_of_mem_nameTail h
    · split at h
      case h_1 s tail hs =>
        rw [← List.prefix_iff_eq_take.mp (symbolOf?_tail hs).1] at h
        exact goesOn_of_mem_symbol hs d h
      case h_2 => split at h <;> cases h

/-- A character that no lexeme goes on with ends the one before it. -/
theorem first_append_cons (hd : goesOn d = false) (c : Char) (text rest : List Char) :
    first c (text ++ d :: rest) = first c text := by
  refine first_append_of_le ?_
  by_contra hlt
  obtain ⟨k, hk⟩ := Nat.exists_eq_add_of_lt (Nat.lt_of_not_le hlt)
  have hmem : d ∈ (text ++ d :: rest).take (first c (text ++ d :: rest)).2 := by
    rw [hk, Nat.add_assoc, List.take_length_add_append, List.take_succ_cons]
    simp
  rw [goesOn_of_mem_take_first hmem] at hd
  cases hd

/-- A blank does not go on a token. -/
lemma goesOn_of_isBlank (hd : isBlank d) : goesOn d = false := by
  have hblank : ((d = ' ' ∨ d = '\t') ∨ d = '\n') ∨ d = '\r' := by simpa [isBlank] using hd
  rcases hblank with ((rfl | rfl) | rfl) | rfl <;> decide

/-! ## Scanning up to such a character -/

/-- A lexeme takes no more characters than there are. -/
lemma first_le (c : Char) (text : List Char) : (first c text).2 ≤ text.length := by
  unfold first
  split
  · dsimp only
    split <;> exact (numberTail_isPrefix text).length_le
  · split
    · exact (nameTail_isPrefix text).length_le
    · split
      · rename_i hsymbol
        exact (symbolOf?_tail hsymbol).1.length_le
      · split <;> exact Nat.zero_le _

/-- A blank at the front is passed over. -/
lemma scan_blank (hc : isBlank c) : scan start (c :: text) = scan (start + c.utf8Size) text := by
  rw [scan, if_pos hc]

/-- Blanks at the front are passed over. -/
lemma scan_gap {gap : List Char} (blank : gap.all isBlank) :
    scan start (gap ++ rest) = scan (start + width gap) rest := by
  induction gap generalizing start with
  | nil => rfl
  | cons c gap ih =>
    rw [List.all_cons, Bool.and_eq_true] at blank
    rw [List.cons_append, scan_blank blank.1, ih blank.2, width_cons, Nat.add_assoc]

/-- A character that begins no token ends the scan with an error there. -/
lemma scan_error {cause : ParseError.Cause} (hc : ¬ isBlank c)
    (hfirst : first c text = (.error cause, more)) :
    scan start (c :: text) = .error ⟨cause, ⟨start, start + width (c :: text.take more)⟩⟩ := by
  rw [scan, if_neg hc, hfirst]

/-- A token at the front is taken, and the scan goes on behind it. -/
lemma scan_ok {token : Token} (hc : ¬ isBlank c) (hfirst : first c text = (.ok token, more)) :
    scan start (c :: text) =
      (scan (start + width (c :: text.take more)) (text.drop more)).map
        (⟨token, ⟨start, start + width (c :: text.take more)⟩⟩ :: ·) := by
  rw [scan, if_neg hc, hfirst]

/-- The end of a text, counted from that of the lexeme at its front. -/
lemma add_width_cons (start : Nat) (c : Char) (text : List Char) (more : Nat) :
    start + width (c :: text) = start + width (c :: text.take more) + width (text.drop more) := by
  rw [Nat.add_assoc, ← width_append, List.cons_append, List.take_append_drop]

/-- A text is scanned up to a character that no lexeme goes on with, and from there on. -/
theorem scan_append_cons (hd : goesOn d = false) (start : Nat) (text rest : List Char) :
    scan start (text ++ d :: rest) = (do
      let ts ← scan start text
      let us ← scan (start + width text) (d :: rest)
      return ts ++ us) := by
  fun_induction scan start text with
  | case1 start =>
    show _ = (do let us ← scan start (d :: rest); return [] ++ us)
    rw [List.nil_append]
    cases scan start (d :: rest) <;> rfl
  | case2 start c text hc ih =>
    rw [List.cons_append, scan_blank hc, ih, width_cons, Nat.add_assoc start]
  | case3 start c text hc more span cause hfirst =>
    have hmore : more ≤ text.length := by simpa [hfirst] using first_le c text
    have hfirst' := (first_append_cons hd c text rest).trans hfirst
    rw [List.cons_append, scan_error hc hfirst', List.take_append_of_le_length hmore]
    rfl
  -- The first lexeme ends within the text, so it is the same with and without the rest.
  | case4 start c text hc more span token hfirst =>
    rename_i ih
    have hmore : more ≤ text.length := by simpa [hfirst] using first_le c text
    have hfirst' := (first_append_cons hd c text rest).trans hfirst
    have hwidth : start + width (c :: text) = span.stop + width (text.drop more) :=
      add_width_cons start c text more
    rw [List.cons_append, scan_ok hc hfirst', List.take_append_of_le_length hmore,
      List.drop_append_of_le_length hmore, ih, hwidth]
    cases scan span.stop (text.drop more) with
    | error => rfl
    | ok ts => cases scan (span.stop + width (text.drop more)) (d :: rest) <;> rfl

end BlockLang.Lexeme
