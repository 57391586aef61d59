import BlockLang.Proofs.Expr.Spelling
import BlockLang.Toml.Quoted
import BlockLang.Toml.Writer

/-!
# Strings in documents

A text is written in one of four forms, with or without escapes. Main statement: in whatever form a
text is written, the same text is read.
-/

namespace BlockLang.Toml

/-! ## Escapes -/

/-- Letters that stand for a character when a backslash is in front of them. -/
structure Escapes (letters : List Char) (c : Char) : Prop where
  readEscape (rest : List Char) : readEscape (letters ++ rest) = some (c, rest)
  /-- The backslash does not end its line. -/
  skipJoin? (rest : List Char) : skipJoin? (letters ++ rest) = none

lemma escapes_quote : Escapes ['"'] '"' := ⟨fun _ => rfl, fun _ => rfl⟩

lemma escapes_newline : Escapes ['n'] '\n' := ⟨fun _ => rfl, fun _ => rfl⟩

/-- The digits of the code of a control character are read as its code. -/
lemma numeralValue?_hexDigits {n : ℕ} (h : n < 128) :
    numeralValue? 16 ['0', '0', hexDigit (n / 16), hexDigit (n % 16)] = some n := by
  have hall : ∀ n < 128,
      numeralValue? 16 ['0', '0', hexDigit (n / 16), hexDigit (n % 16)] = some n := by
    decide +kernel
  exact hall n h

lemma toNat_lt_of_isControl {c : Char} (h : isControl c) : c.toNat < 128 := by
  simp only [isControl, Bool.or_eq_true, Bool.and_eq_true, decide_eq_true_eq, beq_iff_eq] at h
  omega

/-- Every control character has an escape by its code. -/
lemma escapes_code {c : Char} (h : isControl c) :
    Escapes ['u', '0', '0', hexDigit (c.toNat / 16), hexDigit (c.toNat % 16)] c where
  readEscape rest := by
    have hvalue := numeralValue?_hexDigits (toNat_lt_of_isControl h)
    have hvalid : c.toNat.isValidChar := c.valid
    show readCode 4 ('0' :: '0' :: hexDigit (c.toNat / 16) :: hexDigit (c.toNat % 16) :: rest) = _
    simp only [readCode, List.length_cons, List.take_succ_cons, List.take_zero, hvalue]
    rw [if_neg (by omega), Option.bind_some, if_pos hvalid, Char.ofNat_toNat]
    rfl
  skipJoin? rest := rfl

/-- A character that is escaped is written with a backslash and letters that stand for it. -/
lemma escapes_of_escape? {c : Char} {escaped : List Char} (h : escape? c = some escaped) :
    ∃ letters, escaped = '\\' :: letters ∧ Escapes letters c := by
  revert h
  fun_cases escape? c with
  | case1 h | case2 _ h | case3 _ _ h | case4 _ _ _ h | case5 _ _ _ _ h =>
    rintro ⟨⟩
    obtain rfl := eq_of_beq h
    exact ⟨_, rfl, fun _ => rfl, fun _ => rfl⟩
  | case6 _ _ _ _ _ h =>
    rintro ⟨⟩
    exact ⟨_, rfl, escapes_code h⟩
  | case7 =>
    intro h
    cases h

/-- A character that is not escaped stands for itself. -/
lemma not_isControl_of_escape? {c : Char} (h : escape? c = none) :
    isControl c = false ∧ c ≠ '\\' := by
  revert h
  fun_cases escape? c with
  | case7 _ _ _ _ hbackslash hcontrol =>
    intro _
    exact ⟨Bool.not_eq_true _ ▸ hcontrol, fun h => hbackslash (beq_iff_eq.mpr h)⟩
  | _ =>
    intro h
    cases h

/-- A character is written as a backslash and letters that stand for it, or as itself. -/
lemma escape_cases (c : Char) :
    (∃ letters, (escape? c).getD [c] = '\\' :: letters ∧ Escapes letters c) ∨
      (escape? c).getD [c] = [c] ∧ isControl c = false ∧ c ≠ '\\' := by
  cases hescape : escape? c with
  | some escaped =>
    obtain ⟨letters, rfl, hletters⟩ := escapes_of_escape? hescape
    exact .inl ⟨letters, rfl, hletters⟩
  | none => exact .inr ⟨rfl, not_isControl_of_escape? hescape⟩

/-! ## Text in double quotes -/

lemma readBasic_quote (rest : List Char) : readBasic ('"' :: rest) = some ([], rest) := by
  rw [readBasic]
  rfl

/-- An escape in a string is read as its character. -/
lemma readBasic_escapes {letters : List Char} {c : Char} (h : Escapes letters c)
    (rest : List Char) :
    readBasic ('\\' :: (letters ++ rest)) = (readBasic rest).map (extend c) := by
  have hread := h.readEscape rest
  rw [readBasic, if_neg (by decide), if_pos (by decide)]
  split
  · rename_i hescape
    rw [hread] at hescape
    cases hescape
    rfl
  · rename_i hescape
    rw [hread] at hescape
    cases hescape

/-- Any other character in a string is read as itself. -/
lemma readBasic_plain {c : Char} (hquote : c ≠ '"') (hbackslash : c ≠ '\\')
    (hcontrol : isControl c = false) (hnewline : c ≠ '\n') (rest : List Char) :
    readBasic (c :: rest) = (readBasic rest).map (extend c) := by
  rw [readBasic, if_neg (by simpa using hquote), if_neg (by simpa using hbackslash),
    if_neg (by simp [hcontrol, hnewline])]

/-- Text on one line is read back up to the closing quote. -/
theorem readBasic_basicBody (text rest : List Char) :
    readBasic (basicBody text ++ '"' :: rest) = some (text, rest) := by
  induction text with
  | nil => exact readBasic_quote rest
  | cons c text ih =>
    have hread : ∀ body, (readBasic (body ++ (basicBody text ++ '"' :: rest)) =
        (readBasic (basicBody text ++ '"' :: rest)).map (extend c)) →
        readBasic (body ++ basicBody text ++ '"' :: rest) = some (c :: text, rest) := by
      intro body hbody
      rw [List.append_assoc, hbody, ih]
      rfl
    rw [basicBody, List.flatMap_cons]
    apply hread
    by_cases hquote : c = '"'
    · subst hquote
      exact readBasic_escapes escapes_quote _
    rw [if_neg (by simpa using hquote)]
    by_cases hnewline : c = '\n'
    · subst hnewline
      exact readBasic_escapes escapes_newline _
    rw [if_neg (by simpa using hnewline)]
    obtain ⟨letters, hc, hletters⟩ | ⟨hc, hcontrol, hbackslash⟩ := escape_cases c
    · rw [hc]
      exact readBasic_escapes hletters _
    · rw [hc]
      exact readBasic_plain hquote hbackslash hcontrol hnewline _

/-! ## Text in single quotes -/

/-- What has no single quotes, line feeds and control characters is read back as it is. -/
lemma readLiteral_append {text : List Char} (h : ∀ c ∈ text, isLiteralChar c)
    (rest : List Char) : readLiteral (text ++ '\'' :: rest) = some (text, rest) := by
  have hquote : ∀ c ∈ ('\'' :: rest).head?, isLiteralChar c = false := by
    rintro c ⟨⟩
    rfl
  obtain ⟨htake, hdrop⟩ := Lexeme.takeWhile_dropWhile_append h hquote
  simp only [readLiteral, htake, hdrop]

/-! ## Closing quotes -/

/-- The quotes at the start of what is written for a text: there are at most `k`, and if nothing
else follows, the text itself is just these quotes. -/
inductive StartsWithin (quote : Char) (k : ℕ) (text body : List Char) : Prop
  | quotes (j : ℕ) (le : j ≤ k) (text_eq : text = List.replicate j quote) (body_eq : body = text)
  | more (j : ℕ) (le : j ≤ k) (c : Char) (tail : List Char) (ne : c ≠ quote)
    (body_eq : body = List.replicate j quote ++ c :: tail)

section

variable {quote : Char} {rest : List Char} (hrest : rest.head? ≠ some quote)
include hrest

/-- Of a run of quotes the last three close the text, and the others belong to it. -/
lemma readClosing_replicate {j : ℕ} (hj : j ≤ 2) :
    readClosing quote (List.replicate j quote ++ [quote, quote, quote] ++ rest) =
      some (List.replicate j quote, rest) := by
  have hquotes : ∀ c ∈ List.replicate j quote ++ [quote, quote, quote], (c == quote) = true := by
    intro c hc
    rcases List.mem_append.mp hc with hc | hc
    · simpa using List.eq_of_mem_replicate hc
    · simpa using hc
  have hstop : ∀ c ∈ rest.head?, (c == quote) = false := by
    intro c hc
    simpa using fun heq : c = quote => hrest (heq ▸ hc)
  obtain ⟨htake, -⟩ := Lexeme.takeWhile_dropWhile_append hquotes hstop
  have hlength : (List.replicate j quote ++ [quote, quote, quote]).length = j + 3 := by simp
  rw [readClosing, htake, hlength, min_eq_left (by omega), if_pos (by omega), Nat.add_sub_cancel,
    List.drop_left' hlength]

/-- Three quotes after a body close the text, unless the first quotes of the body are followed by
another character. -/
lemma StartsWithin.readClosing {k : ℕ} (hk : k ≤ 2) {text body : List Char}
    (h : StartsWithin quote k text body) :
    readClosing quote (body ++ [quote, quote, quote] ++ rest) = some (text, rest) ∨
      readClosing quote (body ++ [quote, quote, quote] ++ rest) = none := by
  obtain ⟨j, hj, rfl, rfl⟩ | ⟨j, hj, c, tail, hc, rfl⟩ := h
  · exact .inl (readClosing_replicate hrest (hj.trans hk))
  · right
    have hquotes : ∀ d ∈ List.replicate j quote, (d == quote) = true := by simp
    have hstop : ∀ d ∈ (c :: (tail ++ [quote, quote, quote] ++ rest)).head?,
        (d == quote) = false := by simpa using hc
    obtain ⟨htake, -⟩ := Lexeme.takeWhile_dropWhile_append hquotes hstop
    have hbody : List.replicate j quote ++ c :: tail ++ [quote, quote, quote] ++ rest =
        List.replicate j quote ++ c :: (tail ++ [quote, quote, quote] ++ rest) := by simp
    rw [hbody, Toml.readClosing, htake, List.length_replicate, if_neg (by omega)]

end

/-! ## Text in three single quotes -/

lemma hasTriple_of_cons {quote c : Char} {text : List Char}
    (h : hasTriple quote (c :: text) = false) : hasTriple quote text = false := by
  match text, h with
  | [], _ => rfl
  | [_], _ => rfl
  | _ :: _ :: _, h => exact (Bool.or_eq_false_iff.mp h).2

/-- A text without three quotes in a row begins with at most two. -/
lemma startsWithin_of_hasTriple {quote : Char} {text : List Char}
    (h : hasTriple quote text = false) : StartsWithin quote 2 text text := by
  match text with
  | [] => exact .quotes 0 (by omega) rfl rfl
  | a :: text =>
    by_cases ha : a = quote
    · subst ha
      match text with
      | [] => exact .quotes 1 (by omega) rfl rfl
      | b :: text =>
        by_cases hb : b = a
        · subst hb
          match text with
          | [] => exact .quotes 2 (by omega) rfl rfl
          | c :: text =>
            have hc : c ≠ b := by
              rintro rfl
              simp [hasTriple] at h
            exact .more 2 (by omega) c text hc rfl
        · exact .more 1 (by omega) b text hb rfl
    · exact .more 0 (by omega) a text ha rfl

lemma readMultilineLiteral_of_readClosing {c : Char} {text : List Char}
    {found : List Char × List Char} (hc : isControl c = false)
    (h : readClosing '\'' (c :: text) = some found) :
    readMultilineLiteral (c :: text) = some found := by
  rw [readMultilineLiteral, hc, h]
  rfl

/-- What has no three single quotes in a row and no control characters is read back as it is. -/
theorem readMultilineLiteral_append {text rest : List Char}
    (hcontrol : ∀ c ∈ text, isControl c = false) (htriple : hasTriple '\'' text = false)
    (hrest : rest.head? ≠ some '\'') :
    readMultilineLiteral (text ++ ['\'', '\'', '\''] ++ rest) = some (text, rest) := by
  induction text with
  | nil =>
    have hclosing := readClosing_replicate hrest (Nat.zero_le 2)
    exact readMultilineLiteral_of_readClosing (by decide) hclosing
  | cons c text ih =>
    have hc := hcontrol c List.mem_cons_self
    have hcontrol' := fun d hd => hcontrol d (List.mem_cons_of_mem c hd)
    have hread := ih hcontrol' (hasTriple_of_cons htriple)
    have hclosing := (startsWithin_of_hasTriple htriple).readClosing hrest (le_refl 2)
    simp only [List.cons_append] at hclosing ⊢
    rcases hclosing with hclosing | hclosing
    · exact readMultilineLiteral_of_readClosing hc hclosing
    · rw [readMultilineLiteral, hc, hclosing, hread]
      rfl

/-! ## Text in three double quotes -/

/-- What is written after `q` quotes begins with at most `2 - q` more. -/
lemma startsWithin_multilineBody {q : ℕ} (hq : q ≤ 2) (text : List Char) :
    StartsWithin '"' (2 - q) text (multilineBody q text) := by
  induction text generalizing q with
  | nil => exact .quotes 0 (Nat.zero_le _) rfl rfl
  | cons c text ih =>
    rw [multilineBody]
    by_cases hquote : c = '"'
    · subst hquote
      rw [if_pos (by decide)]
      by_cases htwo : q = 2
      · rw [if_pos (by simpa using htwo)]
        exact .more 0 (Nat.zero_le _) '\\' _ (by decide) rfl
      · rw [if_neg (by simpa using htwo)]
        obtain ⟨j, hj, htext, hbody⟩ | ⟨j, hj, d, tail, hd, hbody⟩ := ih (q := q + 1) (by omega)
        · refine .quotes (j + 1) (by omega) ?_ ?_
          · rw [htext, List.replicate_succ]
          · rw [hbody]
        · refine .more (j + 1) (by omega) d tail hd ?_
          rw [hbody, List.replicate_succ, List.cons_append]
    · rw [if_neg (by simpa using hquote)]
      obtain ⟨letters, hc, -⟩ | ⟨hc, -⟩ := escape_cases c
      · rw [hc]
        exact .more 0 (Nat.zero_le _) '\\' _ (by decide) rfl
      · rw [hc]
        exact .more 0 (Nat.zero_le _) c _ hquote rfl

/-- An escape in a string of several lines is read as its character. -/
lemma readMultilineBasic_escapes {letters : List Char} {c : Char} (h : Escapes letters c)
    (rest : List Char) :
    readMultilineBasic ('\\' :: (letters ++ rest)) = (readMultilineBasic rest).map (extend c) := by
  have hread := h.readEscape rest
  have hjoin := h.skipJoin? rest
  rw [readMultilineBasic, if_neg (by decide), if_pos (by decide)]
  split
  · rename_i hskip
    rw [hjoin] at hskip
    cases hskip
  · split
    · rename_i hescape
      rw [hread] at hescape
      cases hescape
      rfl
    · rename_i hescape
      rw [hread] at hescape
      cases hescape

/-- Any other character in a string of several lines is read as itself. -/
lemma readMultilineBasic_plain {c : Char} (hquote : c ≠ '"') (hbackslash : c ≠ '\\')
    (hcontrol : isControl c = false) (rest : List Char) :
    readMultilineBasic (c :: rest) = (readMultilineBasic rest).map (extend c) := by
  rw [readMultilineBasic, if_neg (by simpa using hquote), if_neg (by simpa using hbackslash),
    if_neg (by simp [hcontrol])]

/-- A quote that does not close the text belongs to it. -/
lemma readMultilineBasic_quote {rest : List Char} {found : List Char × List Char}
    (h : readClosing '"' ('"' :: rest) = some found ∨ readClosing '"' ('"' :: rest) = none)
    (hnone : (readMultilineBasic rest).map (extend '"') = some found) :
    readMultilineBasic ('"' :: rest) = some found := by
  rw [readMultilineBasic, if_pos (by decide)]
  rcases h with h | h
  · rw [h]
  · rw [h]
    exact hnone

/-- Text on several lines is read back up to the closing quotes. -/
theorem readMultilineBasic_multilineBody {q : ℕ} (hq : q ≤ 2) (text : List Char)
    {rest : List Char} (hrest : rest.head? ≠ some '"') :
    readMultilineBasic (multilineBody q text ++ ['"', '"', '"'] ++ rest) = some (text, rest) := by
  -- `q` counts the quotes right before the text, of which there are never more than two.
  induction text generalizing q with
  | nil =>
    have hclosing := readClosing_replicate hrest (Nat.zero_le 2)
    rw [multilineBody]
    show readMultilineBasic ('"' :: '"' :: '"' :: rest) = _
    rw [readMultilineBasic, if_pos (by decide)]
    rw [show readClosing '"' ('"' :: '"' :: '"' :: rest) = some ([], rest) from hclosing]
  | cons c text ih =>
    have hclosing :=
      (startsWithin_multilineBody hq (c :: text)).readClosing hrest (Nat.sub_le 2 q)
    rw [multilineBody] at hclosing ⊢
    by_cases hquote : c = '"'
    · subst hquote
      rw [if_pos (by decide)] at hclosing ⊢
      by_cases htwo : q = 2
      · rw [if_pos (by simpa using htwo)]
        refine (readMultilineBasic_escapes escapes_quote _).trans ?_
        show Option.map _ (readMultilineBasic (multilineBody 0 text ++ ['"', '"', '"'] ++ rest)) = _
        rw [ih (Nat.zero_le 2)]
        rfl
      · rw [if_neg (by simpa using htwo)] at hclosing ⊢
        apply readMultilineBasic_quote hclosing
        show Option.map _
          (readMultilineBasic (multilineBody (q + 1) text ++ ['"', '"', '"'] ++ rest)) = _
        rw [ih (by omega)]
        rfl
    · rw [if_neg (by simpa using hquote), List.append_assoc, List.append_assoc,
        ← List.append_assoc (multilineBody 0 text)]
      obtain ⟨letters, hc, hletters⟩ | ⟨hc, hcontrol, hbackslash⟩ := escape_cases c
      · rw [hc]
        refine (readMultilineBasic_escapes hletters _).trans ?_
        rw [ih (Nat.zero_le 2)]
        rfl
      · rw [hc]
        refine (readMultilineBasic_plain hquote hbackslash hcontrol _).trans ?_
        show Option.map _ (readMultilineBasic (multilineBody 0 text ++ ['"', '"', '"'] ++ rest)) = _
        rw [ih (Nat.zero_le 2)]
        rfl

/-! ## The form of a text -/

/-- A text in single quotes has none in it and stays on one line. -/
lemma isLiteralChar_of_form {text : List Char} (h : StringForm.for text = .literal) :
    ∀ c ∈ text, isLiteralChar c := by
  simp only [StringForm.for] at h
  split_ifs at h with hbasic hliteral
  simp only [Bool.and_eq_true, Bool.not_eq_true', List.any_eq_false, List.contains_eq_mem,
    decide_eq_false_iff_not] at hliteral
  obtain ⟨⟨hquote, hnewline⟩, hcontrol⟩ := hliteral
  intro c hc
  have hc_control : isControl c = false := Bool.not_eq_true _ ▸ hcontrol c hc
  have hc_newline : c ≠ '\n' := fun heq => hnewline (heq ▸ hc)
  have hc_quote : c ≠ '\'' := fun heq => hquote (heq ▸ hc)
  simp [isLiteralChar, hc_control, hc_newline, hc_quote]

/-- A text in three single quotes has no control characters and no quotes that would close it. -/
lemma multilineLiteral_form {text : List Char} (h : StringForm.for text = .multilineLiteral) :
    (∀ c ∈ text, isControl c = false) ∧ hasTriple '\'' text = false := by
  simp only [StringForm.for] at h
  split_ifs at h with hbasic hliteral hmultiline hform
  rw [Bool.and_eq_true, Bool.not_eq_true', Bool.not_eq_true', List.any_eq_false] at hform
  exact ⟨fun c hc => Bool.not_eq_true _ ▸ hform.1 c hc, hform.2⟩

/-! ## Opening quotes -/

/-- Two quotes and something else are an empty text. -/
lemma readString_doubleQuote {text : List Char} (h : ∀ rest, text ≠ '"' :: '"' :: rest) :
    readString ('"' :: text) = readBasic text := by
  rw [readString]
  · rintro rest ⟨⟩
    exact h rest rfl

lemma readString_singleQuote {text : List Char} (h : ∀ rest, text ≠ '\'' :: '\'' :: rest) :
    readString ('\'' :: text) = readLiteral text := by
  rw [readString]
  · rintro rest ⟨⟩
    exact h rest rfl

/-- The quotes in a text on one line are escaped. -/
lemma basicBody_append_ne (text rest rest' : List Char) :
    basicBody text ++ '"' :: '\n' :: rest ≠ '"' :: '"' :: rest' := by
  cases text with
  | nil => simp [basicBody]
  | cons c text =>
    rw [basicBody, List.flatMap_cons]
    by_cases hquote : c = '"'
    · simp [hquote]
    by_cases hnewline : c = '\n'
    · simp [hnewline]
    rw [if_neg (by simpa using hquote), if_neg (by simpa using hnewline)]
    obtain ⟨letters, hc, -⟩ | ⟨hc, -⟩ := escape_cases c
    · simp [hc]
    · simp [hc, hquote]

/-- A text that has several lines begins on a line of its own. -/
lemma skipOpeningLine_append {text body : List Char}
    (h : '\n' ∉ text → body.head? ≠ some '\n') :
    skipOpeningLine (openingLine text ++ body) = body := by
  by_cases hnewline : '\n' ∈ text
  · simp [openingLine, hnewline, skipOpeningLine]
  · have hbody := h hnewline
    simp only [openingLine, List.contains_eq_mem, hnewline, decide_false, Bool.false_eq_true,
      if_false, List.nil_append]
    rw [skipOpeningLine]
    rintro rest rfl
    exact hbody rfl

lemma head?_multilineBody_append {text rest : List Char} (h : '\n' ∉ text)
    (hrest : rest.head? ≠ some '\n') : (multilineBody 0 text ++ rest).head? ≠ some '\n' := by
  cases text with
  | nil => exact hrest
  | cons c text =>
    rw [multilineBody]
    by_cases hquote : c = '"'
    · simp [hquote]
    rw [if_neg (by simpa using hquote)]
    obtain ⟨letters, hc, -⟩ | ⟨hc, -⟩ := escape_cases c
    · simp [hc]
    · have hnewline : c ≠ '\n' := fun heq => h (heq ▸ List.mem_cons_self)
      simpa [hc] using hnewline

/-- Main statement: a text is read back from what is written for it, whatever its form is. -/
theorem readString_writeString (text rest : List Char) :
    readString (writeString text ++ '\n' :: rest) = some (text, '\n' :: rest) := by
  rw [writeString]
  cases hform : StringForm.for text with
  | basic =>
    show readString ('"' :: (basicBody text ++ ['"'] ++ '\n' :: rest)) = _
    rw [List.append_assoc]
    show readString ('"' :: (basicBody text ++ '"' :: '\n' :: rest)) = _
    rw [readString_doubleQuote (basicBody_append_ne text rest), readBasic_basicBody]
  -- Two quotes in a row would open another form, but a text in this form has none.
  | literal =>
    have hchars := isLiteralChar_of_form hform
    show readString ('\'' :: (text ++ ['\''] ++ '\n' :: rest)) = _
    rw [List.append_assoc]
    show readString ('\'' :: (text ++ '\'' :: '\n' :: rest)) = _
    rw [readString_singleQuote, readLiteral_append hchars]
    intro rest' heq
    cases text with
    | nil => simp at heq
    | cons c text =>
      obtain ⟨rfl, -⟩ := List.cons.inj heq
      have hquote := hchars _ List.mem_cons_self
      cases hquote
  -- A line end right after the quotes is skipped, so one is written there if it has to be.
  | multilineBasic =>
    show readMultilineBasic (skipOpeningLine (openingLine text ++ multilineBody 0 text ++
      ['"', '"', '"'] ++ '\n' :: rest)) = _
    rw [List.append_assoc, List.append_assoc, skipOpeningLine_append, ← List.append_assoc,
      readMultilineBasic_multilineBody (Nat.zero_le 2) text (by simp)]
    intro h
    exact head?_multilineBody_append h (by simp)
  | multilineLiteral =>
    obtain ⟨hcontrol, htriple⟩ := multilineLiteral_form hform
    show readMultilineLiteral (skipOpeningLine (openingLine text ++ text ++
      ['\'', '\'', '\''] ++ '\n' :: rest)) = _
    rw [List.append_assoc, List.append_assoc, skipOpeningLine_append, ← List.append_assoc,
      readMultilineLiteral_append hcontrol htriple (by simp)]
    intro h
    cases text with
    | nil => simp
    | cons c text =>
      have hc : c ≠ '\n' := fun heq => h (heq ▸ List.mem_cons_self)
      simpa using hc

/-! ## Carriage returns -/

lemma return_not_mem_escape (c : Char) : '\r' ∉ (escape? c).getD [c] := by
  fun_cases escape? c with
  | case6 _ _ _ _ _ hcontrol =>
    have hdigits : ∀ n < 16, '\r' ≠ hexDigit n := by decide
    have hlt := toNat_lt_of_isControl hcontrol
    have hfirst := hdigits (c.toNat / 16) (by omega)
    have hlast := hdigits (c.toNat % 16) (by omega)
    simp [hfirst, hlast]
  | case7 _ _ _ hreturn =>
    have hc : '\r' ≠ c := fun heq => hreturn (beq_iff_eq.mpr heq.symm)
    simpa using hc
  | _ => simp

lemma return_not_mem_basicBody (text : List Char) : '\r' ∉ basicBody text := by
  rw [basicBody, List.mem_flatMap]
  rintro ⟨c, -, hc⟩
  split at hc
  · revert hc
    decide
  · split at hc
    · revert hc
      decide
    · exact return_not_mem_escape c hc

lemma return_not_mem_multilineBody (q : ℕ) (text : List Char) : '\r' ∉ multilineBody q text := by
  induction text generalizing q with
  | nil => simp [multilineBody]
  | cons c text ih =>
    rw [multilineBody]
    split
    · split
      · simp [ih 0]
      · simp [ih (q + 1)]
    · simp only [List.mem_append, not_or]
      exact ⟨return_not_mem_escape c, ih 0⟩

/-- Carriage returns are escaped. -/
lemma return_not_mem_writeString (text : List Char) : '\r' ∉ writeString text := by
  have hopening : '\r' ∉ openingLine text := by
    rw [openingLine]
    split <;> decide
  rw [writeString]
  cases hform : StringForm.for text with
  | basic => simp [return_not_mem_basicBody text]
  | literal =>
    have hchars := isLiteralChar_of_form hform
    have htext : '\r' ∉ text := by
      intro hmem
      cases hchars _ hmem
    simp [htext]
  | multilineBasic => simp [hopening, return_not_mem_multilineBody 0 text]
  | multilineLiteral =>
    obtain ⟨hcontrol, -⟩ := multilineLiteral_form hform
    have htext : '\r' ∉ text := by
      intro hmem
      cases hcontrol _ hmem
    simp [hopening, htext]

end BlockLang.Toml
