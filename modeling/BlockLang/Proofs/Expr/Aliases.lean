import BlockLang.Proofs.Expr.Abbreviations
import BlockLang.Proofs.Expr.Cuts
import BlockLang.Proofs.Expr.Respelt

/-!
# Aliases

Some tokens have two spellings: `===` is `==`, `!==` is `!=`, and `Math.` may stand before the name
of a function that is called. Main statement: one spelling can be put for the other anywhere, and
`x += 1` for a segment `x++`, without a change in what the text stands for.
-/

namespace BlockLang

open Lexeme

/-! ## Tokens at the front of a text -/

namespace Lexeme

variable {start : Nat} {c : Char} {rest : List Char}

/-- A token at the front of a text. -/
lemma exists_scan_token {token : Token} {part : List Char} (hc : ¬ isBlank c)
    (hfirst : first c (part ++ rest) = (.ok token, part.length)) (start : Nat) :
    ∃ span stop, scan start (c :: (part ++ rest)) =
      (scan stop rest).map ([⟨token, span⟩] ++ ·) := by
  refine ⟨⟨start, start + width (c :: part)⟩, start + width (c :: part), ?_⟩
  rw [scan_ok hc hfirst, List.take_left, List.drop_left]
  rfl

/-- The word is read as one name. -/
def IsName (word : String) : Prop :=
  ∃ c part, word.toList = c :: part ∧ ¬ isBlank c ∧ first c part = (.ok (.name word), part.length)

/-- A name and an opening parenthesis at the front of a text. -/
lemma exists_scan_call {word : String} {gap : List Char} (hword : IsName word)
    (blank : gap.all isBlank) (start : Nat) (rest : List Char) :
    ∃ span opening stop, scan start (word.toList ++ (gap ++ '(' :: rest)) =
      (scan stop rest).map ([⟨.name word, span⟩, ⟨.symbol .openParen, opening⟩] ++ ·) := by
  obtain ⟨c, part, hchars, hc, hfirst⟩ := hword
  have hends : ∃ d behind, gap ++ '(' :: rest = d :: behind ∧ goesOn d = false := by
    cases gap with
    | nil => exact ⟨'(', rest, rfl, by decide⟩
    | cons d gap =>
      rw [List.all_cons, Bool.and_eq_true] at blank
      exact ⟨d, gap ++ '(' :: rest, rfl, goesOn_of_isBlank blank.1⟩
  obtain ⟨d, behind, hbehind, hd⟩ := hends
  have hwhole : first c (part ++ (gap ++ '(' :: rest)) = (.ok (.name word), part.length) := by
    rw [hbehind, first_append_cons hd, hfirst]
  have hparen : first '(' ([] ++ rest) = (.ok (.symbol .openParen), 0) := rfl
  obtain ⟨span, stop, hname⟩ := exists_scan_token hc hwhole start
  obtain ⟨opening, stop', hopening⟩ := exists_scan_token (by decide) hparen (stop + width gap)
  refine ⟨span, opening, stop', ?_⟩
  rw [List.nil_append] at hopening
  rw [hchars, List.cons_append, hname, scan_gap blank, hopening]
  cases scan stop' rest <;> rfl

end Lexeme

/-! ## The aliases -/

/-- A spelling of a token, another one with blanks around it, and a text behind it with which they
are read as the same. -/
inductive Alias : String → String → String → Prop
  | equal {after} : Alias "===" " == " after
  | notEqual {after} : Alias "!==" " != " after
  | call {gap after} (function : Builtin) (blank : gap.toList.all isBlank) :
      Alias ("Math." ++ function.name) (" " ++ function.name ++ " ") (gap ++ "(" ++ after)

lemma Builtin.isName_name (f : Builtin) : IsName f.name := by
  cases f <;> exact ⟨_, _, rfl, by decide, by decide +kernel⟩

/-- The longer name of a function is one name, with its point. -/
lemma Builtin.isName_mathName (f : Builtin) : IsName ("Math." ++ f.name) := by
  cases f <;> exact ⟨_, _, rfl, by decide, by decide +kernel⟩

lemma Builtin.ofName?_name (f : Builtin) : ofName? f.name = some f := by
  cases f <;> decide

/-- A function has a longer name, too. -/
lemma Builtin.ofName?_mathName (f : Builtin) : ofName? ("Math." ++ f.name) = some f := by
  cases f <;> decide

/-- A token in its two spellings. -/
lemma readAlike_spellings {token : Token} {c : Char} {part part' after : List Char}
    (hc : ¬ isBlank c) (hlong : first c (part ++ after) = (.ok token, part.length))
    (hshort : first c part' = (.ok token, part'.length)) (start start' : Nat) :
    ReadAlike (scan start (c :: (part ++ after)))
      (scan start' (' ' :: c :: (part' ++ ' ' :: after))) := by
  have hshort' : first c (part' ++ ' ' :: after) = (.ok token, part'.length) := by
    rw [first_append_cons (by decide), hshort]
  obtain ⟨span, stop, hold⟩ := exists_scan_token hc hlong start
  obtain ⟨span', stop', hnew⟩ := exists_scan_token hc hshort' (start' + ' '.utf8Size)
  rw [hold, scan_blank (by decide), hnew, scan_blank (by decide)]
  exact .append (.keep .nil) (readAlike_scan _ _ _)

section

variable {old new after : String}

/-- In both spellings respelt lexemes are read. -/
theorem Alias.readAlike (h : Alias old new after) (start start' : Nat) :
    ReadAlike (scan start (old.toList ++ after.toList))
      (scan start' (new.toList ++ after.toList)) := by
  cases h with
  | equal =>
    have hlong : first '=' (['=', '='] ++ after.toList) = (.ok (.symbol .equal), 2) := rfl
    have hshort : first '=' ['='] = (.ok (.symbol .equal), 1) := rfl
    exact readAlike_spellings (by decide) hlong hshort start start'
  | notEqual =>
    have hlong : first '!' (['=', '='] ++ after.toList) = (.ok (.symbol .notEqual), 2) := rfl
    have hshort : first '!' ['='] = (.ok (.symbol .notEqual), 1) := rfl
    exact readAlike_spellings (by decide) hlong hshort start start'
  | @call gap after function blank =>
    have hgap : (' ' :: gap.toList).all isBlank := by
      rw [List.all_cons, blank]
      decide
    obtain ⟨span, opening, stop, hold⟩ :=
      exists_scan_call function.isName_mathName blank start after.toList
    obtain ⟨span', opening', stop', hnew⟩ :=
      exists_scan_call function.isName_name hgap (start' + ' '.utf8Size) after.toList
    have hafter : (gap ++ "(" ++ after).toList = gap.toList ++ '(' :: after.toList := by
      rw [String.toList_append, String.toList_append, List.append_assoc]
      rfl
    -- The blanks around the short name are blanks in front of it and in the gap.
    have hspelt : (" " ++ function.name ++ " ").toList ++ (gap.toList ++ '(' :: after.toList) =
        ' ' :: (function.name.toList ++ (' ' :: gap.toList ++ '(' :: after.toList)) := by
      rw [String.toList_append, String.toList_append, List.append_assoc, List.append_assoc]
      rfl
    rw [hafter, hspelt, hold, scan_blank (by decide), hnew]
    exact .append (.call function.ofName?_mathName function.ofName?_name .nil)
      (readAlike_scan _ _ _)

/-- What is put in begins with a blank. -/
lemma Alias.exists_toList (h : Alias old new after) : ∃ chars, new.toList = ' ' :: chars := by
  cases h with
  | equal => exact ⟨_, rfl⟩
  | notEqual => exact ⟨_, rfl⟩
  | call function _ => exact ⟨_, by rw [String.toList_append, String.toList_append]; rfl⟩

/-- The one spelling can be put for the other wherever it is a token. -/
theorem Alias.readAlike_of_cutsBefore {front : String} (h : Alias old new after)
    (hcuts : cutsBefore (old ++ after).toList 0 front.toList) :
    ReadAlike (Lexeme.ofText (front ++ old ++ after)) (Lexeme.ofText (front ++ new ++ after)) := by
  obtain ⟨chars, hchars⟩ := h.exists_toList
  obtain ⟨ts, hts, hold⟩ := exists_scan_append_of_cutsBefore hcuts 0
  have hnew : scan 0 (front.toList ++ (new.toList ++ after.toList)) =
      (scan (0 + width front.toList) (new.toList ++ after.toList)).map (ts ++ ·) := by
    rw [hchars, List.cons_append, scan_append_cons (by decide), hts]
    cases scan (0 + width front.toList) (' ' :: (chars ++ after.toList)) <;> rfl
  have hcut (part : String) : (front ++ part ++ after).toList =
      front.toList ++ (part.toList ++ after.toList) := by
    rw [String.toList_append, String.toList_append, List.append_assoc]
  rw [String.toList_append] at hold
  rw [Lexeme.ofText, Lexeme.ofText, hcut, hcut, hold, hnew]
  exact .append (.of_map_token_eq rfl) (h.readAlike _ _)

end

/-! ## Segments -/

/-- The instructions that a text stands for, up to positions, none if it is idle. -/
def instructionTrees? (text : String) : Option (List Instruction) :=
  (instructions? text).map (List.map Instruction.unplaced)

section

variable {part part' : String}

/-- The instructions on both sides of a semicolon follow on each other. -/
lemma instructionTrees?_append_semicolon (a b : String) :
    instructionTrees? (a ++ ";" ++ b) = (do
      let is ← instructionTrees? a
      let js ← instructionTrees? b
      return is ++ js) := by
  have hsplit : instructions? (a ++ ";" ++ b) = (do
      let is ← instructions? a
      let ks ← instructions? b
      return is ++ ks.map (Instruction.moved (pastSemicolon a))) := by
    ext js
    rw [instructions?_append_semicolon]
    simp [Option.bind_eq_some_iff]
  have hmoved (ks : List Instruction) :
      (ks.map (Instruction.moved (pastSemicolon a))).map Instruction.unplaced =
        ks.map Instruction.unplaced := by
    rw [List.map_map]
    exact List.map_congr_left fun k _ => k.unplaced_moved _
  rw [instructionTrees?, hsplit, instructionTrees?, instructionTrees?]
  cases instructions? a with
  | none => rfl
  | some is =>
    cases instructions? b with
    | none => rfl
    | some ks =>
      show some ((is ++ _).map _) = some (_ ++ _)
      rw [List.map_append, hmoved]

/-- A text is a statement unless it is idle. -/
lemma statementTrees?_eq (text : String) :
    statementTrees? text = if isIdle text then none else instructionTrees? text := by
  split
  · rename_i hidle
    cases h : parseStatement text with
    | error => rw [statementTrees?, h]; rfl
    | ok is => exact absurd hidle (parseStatement_eq_ok_iff_instructions?.mp h).1
  · rename_i hidle
    rw [statementTrees?, instructionTrees?, instructions?, if_neg hidle]

/-- Texts that can be put for each other between semicolons. -/
structure Interchangeable (part part' : String) : Prop where
  idle : isIdle part ↔ isIdle part'
  trees : instructionTrees? part = instructionTrees? part'

namespace Interchangeable

/-- Whatever stands in front of a semicolon, the texts behind it can be put for each other. -/
lemma after (front : String) (h : Interchangeable part part') :
    Interchangeable (front ++ ";" ++ part) (front ++ ";" ++ part') where
  idle := by rw [isIdle_append_semicolon, isIdle_append_semicolon, h.idle]
  trees := by rw [instructionTrees?_append_semicolon, instructionTrees?_append_semicolon, h.trees]

/-- Whatever stands behind a semicolon, the texts in front of it can be put for each other. -/
lemma before (back : String) (h : Interchangeable part part') :
    Interchangeable (part ++ ";" ++ back) (part' ++ ";" ++ back) where
  idle := by rw [isIdle_append_semicolon, isIdle_append_semicolon, h.idle]
  trees := by rw [instructionTrees?_append_semicolon, instructionTrees?_append_semicolon, h.trees]

/-- Texts that can be put for each other between semicolons stand for the same. -/
lemma trees_eq (h : Interchangeable part part') : statementTrees? part = statementTrees? part' := by
  rw [statementTrees?_eq, statementTrees?_eq, h.trees]
  exact if_congr h.idle rfl rfl

/-- Texts of one instruction. -/
lemma of_parseStatement {i i' : Instruction} (h : parseStatement part = .ok [i])
    (h' : parseStatement part' = .ok [i']) (hi : i.unplaced = i'.unplaced) :
    Interchangeable part part' := by
  obtain ⟨hidle, his⟩ := parseStatement_eq_ok_iff_instructions?.mp h
  obtain ⟨hidle', his'⟩ := parseStatement_eq_ok_iff_instructions?.mp h'
  refine ⟨⟨fun hp => absurd hp hidle, fun hp => absurd hp hidle'⟩, ?_⟩
  rw [instructionTrees?, instructionTrees?, his, his']
  show some [i.unplaced] = some [i'.unplaced]
  rw [hi]

end Interchangeable

/-! ## Steps by one -/

/-- The text of an assignment that does the same as the symbol behind `x`. -/
def Symbol.assignment? : Symbol → Option String
  | increment => some "x += 1"
  | decrement => some "x -= 1"
  | _ => none

/-- The tokens of a text. -/
def tokens? (text : String) : Option (List Token) :=
  (Lexeme.ofText text).toOption.map (List.map Lexeme.token)

lemma exists_lexemes_of_tokens? {text : String} {tokens : List Token}
    (h : tokens? text = some tokens) :
    ∃ ts, Lexeme.ofText text = .ok ts ∧ ts.map Lexeme.token = tokens := by
  obtain ⟨ts, hts, htokens⟩ := Option.map_eq_some_iff.mp h
  exact ⟨ts, eq_ok_of_toOption_eq_some hts, htokens⟩

/-- The assignments that can be put for a step by one are read. -/
lemma Arithmetic.exists_parseStatement_short_one (op : Arithmetic) :
    ∃ span, parseStatement (op.short "1") = .ok [.assign "x" op.assignOp (.number 1) span] := by
  have hread : Lexeme.ofText "1" = .ok [⟨.number 1, ⟨0, 1⟩⟩] :=
    eq_ok_of_toOption_eq_some (by decide +kernel)
  have hone : Derives .primary [⟨.number 1, ⟨5, 6⟩⟩] (.number 1) := ⟨.number 1 rfl, rfl⟩
  exact ⟨_, parseStatement_assignment op.assignOp (op.ofText_short hread) rfl
    (hone.of_power_le (by decide))⟩

/-- A text of one step by one stands for an assignment. -/
lemma interchangeable_step {symbol : Symbol} {assignment : String}
    (hpart : tokens? part = some [.name "x", .symbol symbol])
    (hsymbol : symbol.assignment? = some assignment) : Interchangeable part assignment := by
  obtain ⟨ts, hts, htokens⟩ := exists_lexemes_of_tokens? hpart
  obtain ⟨⟨_, target⟩, _, rfl, rfl, hrest⟩ := List.map_eq_cons_iff.mp htokens
  obtain ⟨⟨_, span⟩, _, rfl, rfl, hnil⟩ := List.map_eq_cons_iff.mp hrest
  obtain rfl := List.map_eq_nil_iff.mp hnil
  cases symbol <;> cases hsymbol
  case increment =>
    have hstep := parseStatement_of_ofSegment hts (by simp) (by simp) (.increment rfl)
    obtain ⟨_, hassign⟩ := Arithmetic.add.exists_parseStatement_short_one
    exact .of_parseStatement hstep hassign rfl
  case decrement =>
    have hstep := parseStatement_of_ofSegment hts (by simp) (by simp) (.decrement rfl)
    obtain ⟨_, hassign⟩ := Arithmetic.subtract.exists_parseStatement_short_one
    exact .of_parseStatement hstep hassign rfl

end

/-- Nothing, or segments with a semicolon at the end. -/
def SegmentsBefore (front : String) : Prop := front = "" ∨ ∃ a, front = a ++ ";"

/-- Nothing, or segments with a semicolon in front. -/
def SegmentsBehind (back : String) : Prop := back = "" ∨ ∃ b, back = ";" ++ b

/-- Whole segments can be put for each other. -/
lemma Interchangeable.between {front back part part' : String} (hfront : SegmentsBefore front)
    (hback : SegmentsBehind back) (h : Interchangeable part part') :
    Interchangeable (front ++ part ++ back) (front ++ part' ++ back) := by
  have hleft : Interchangeable (front ++ part) (front ++ part') := by
    rcases hfront with rfl | ⟨a, rfl⟩
    · rwa [String.empty_append, String.empty_append]
    · exact h.after a
  rcases hback with rfl | ⟨b, rfl⟩
  · rwa [String.append_empty, String.append_empty]
  · rw [← String.append_assoc, ← String.append_assoc]
    exact hleft.before b

/-! ## Other spellings of a text -/

/-- Where a token of a text is written, the text is cut. If the token is put there in its other
spelling, the text stands for the same as before, up to positions, or still for nothing: `==` for
`===`, `!=` for `!==`, and a function that is called without `Math.`. So it does if a whole segment
`x++` or `x--` is put as an assignment. -/
theorem trees_unchanged_by_spelling :
    (∀ text ts, Lexeme.ofText text = .ok ts → ∀ t ∈ ts, ∃ front word after : String,
      text = front ++ word ++ after ∧ Spells t.token word.toList ∧
      t.span = ⟨front.utf8ByteSize, (front ++ word).utf8ByteSize⟩ ∧
      cutsBefore (word ++ after).toList 0 front.toList) ∧
    (∀ front old new after, Alias old new after →
      cutsBefore (old ++ after).toList 0 front.toList →
        conditionTree? (front ++ old ++ after) = conditionTree? (front ++ new ++ after) ∧
        statementTrees? (front ++ old ++ after) = statementTrees? (front ++ new ++ after)) ∧
    ∀ front part back symbol assignment, SegmentsBefore front → SegmentsBehind back →
      tokens? part = some [.name "x", .symbol symbol] → symbol.assignment? = some assignment →
        statementTrees? (front ++ part ++ back) =
          statementTrees? (front ++ assignment ++ back) := by
  refine ⟨fun text ts hts t ht => exists_cut_of_mem hts ht, ?_, ?_⟩
  · intro front old new after h hcuts
    exact (h.readAlike_of_cutsBefore hcuts).trees_eq
  · intro front part back symbol assignment hfront hback hpart hsymbol
    exact ((interchangeable_step hpart hsymbol).between hfront hback).trees_eq

/-- The text `x ===2` is cut before its second token. `Math.max(x, 2) === 2` is a condition in each
of its spellings, and the text `x ====` is no statement, because its last `=` is a token of its
own. -/
theorem trees_unchanged_by_spelling_maximum :
    (∃ front word after : String, "x ===2" = front ++ word ++ after ∧
      Spells (.symbol .equal) word.toList ∧
      (⟨2, 5⟩ : Span) = ⟨front.utf8ByteSize, (front ++ word).utf8ByteSize⟩ ∧
      cutsBefore (word ++ after).toList 0 front.toList) ∧
    cutsBefore ("===" ++ " 2").toList 0 "Math.max(x, 2) ".toList ∧
    (conditionTree? ("Math.max(x, 2) " ++ "===" ++ " 2")).isSome ∧
    conditionTree? ("Math.max(x, 2) " ++ "===" ++ " 2") =
      conditionTree? ("Math.max(x, 2) " ++ " == " ++ " 2") ∧
    cutsBefore ("Math.max" ++ " (x, 2) === 2").toList 0 "".toList ∧
    conditionTree? ("" ++ "Math.max" ++ " (x, 2) === 2") =
      conditionTree? ("" ++ " max " ++ " (x, 2) === 2") ∧
    cutsBefore ("===" ++ "=").toList 0 "x ".toList ∧
    ¬ (statementTrees? ("x " ++ "===" ++ "=")).isSome ∧
    statementTrees? ("x " ++ "===" ++ "=") = statementTrees? ("x " ++ " == " ++ "=") ∧
    tokens? " x++" = some [.name "x", .symbol .increment] ∧
    Symbol.assignment? .increment = some "x += 1" ∧
    statementTrees? ("x = 2;" ++ " x++" ++ "; x *= x") =
      statementTrees? ("x = 2;" ++ "x += 1" ++ "; x *= x") := by
  obtain ⟨hcut, halias, hstep⟩ := trees_unchanged_by_spelling
  have hread : Lexeme.ofText "x ===2" =
      .ok [⟨.name "x", ⟨0, 1⟩⟩, ⟨.symbol .equal, ⟨2, 5⟩⟩, ⟨.number 2, ⟨5, 6⟩⟩] :=
    eq_ok_of_toOption_eq_some (by decide +kernel)
  have hmem : (⟨.symbol .equal, ⟨2, 5⟩⟩ : Lexeme) ∈
      [⟨.name "x", ⟨0, 1⟩⟩, ⟨.symbol .equal, ⟨2, 5⟩⟩, ⟨.number 2, ⟨5, 6⟩⟩] := by simp
  have hequal : cutsBefore ("===" ++ " 2").toList 0 "Math.max(x, 2) ".toList := by decide +kernel
  have hlong : cutsBefore ("===" ++ "=").toList 0 "x ".toList := by decide +kernel
  have hcall : cutsBefore ("Math.max" ++ " (x, 2) === 2").toList 0 "".toList := rfl
  have hmax : Alias "Math.max" " max " (" " ++ "(" ++ "x, 2) === 2") := .call .max (by decide)
  have hpart : tokens? " x++" = some [.name "x", .symbol .increment] := by decide +kernel
  have hwhole := hstep "x = 2;" " x++" "; x *= x" .increment "x += 1" (.inr ⟨"x = 2", rfl⟩)
    (.inr ⟨" x *= x", rfl⟩) hpart rfl
  exact ⟨hcut _ _ hread _ hmem, hequal, by decide +kernel, (halias _ _ _ _ .equal hequal).1, hcall,
    (halias _ _ _ _ hmax hcall).1, hlong, by decide +kernel, (halias _ _ _ _ .equal hlong).2, hpart,
    rfl, hwhole⟩

end BlockLang
