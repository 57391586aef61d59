import BlockLang.Proofs.Expr.Pieces
import Mathlib.Data.List.Forall2
import Mathlib.Logic.Relation

/-!
# Scanning

A text is scanned in rounds: each passes over a blank or takes the longest piece at the front of
what is left, until the text is at its end or its front is at fault. Main statements: scanning loses
nothing but blanks, the lexemes depend on the texts of the tokens alone, and a text is refused for
the fault that the rounds meet.
-/

namespace BlockLang.Lexeme

/-! ## Lexemes in their text -/

/-- The lexemes are in order, each is what its own text is scanned into, and what is outside of them
is blank. -/
structure Lossless (text : String) (ts : List Lexeme) : Prop where
  nonempty : ∀ t ∈ ts, t.span.start < t.span.stop
  ordered : ts.Pairwise fun t u => t.span.stop ≤ u.span.start
  alone : ∀ t ∈ ts, ∃ part, t.span.CutsOut text part ∧
    ofText part = .ok [⟨t.token, ⟨0, part.utf8ByteSize⟩⟩]
  outside : ∀ before c after, text.toList = before ++ c :: after →
    (∀ t ∈ ts, width before < t.span.start ∨ t.span.stop ≤ width before) → isBlank c

/-- The text is the parts in order with blanks around them, and at least one between any two. -/
inductive Spaced : List String → List Char → Prop
  | nil {gap} (blank : gap.all isBlank) : Spaced [] gap
  | cons {gap part rest parts} (blank : gap.all isBlank)
      (apart : parts ≠ [] → rest.head?.any isBlank) (others : Spaced parts rest) :
      Spaced (part :: parts) (gap ++ (part.toList ++ rest))

/-! ## Rounds -/

/-- How far a text has been scanned: the lexemes so far, and what is left of the text, which begins
at byte `start`. -/
structure Progress where
  lexemes : List Lexeme
  start : Nat
  rest : List Char

/-- Nothing of the text has been scanned. -/
def Progress.begin (text : String) : Progress := ⟨[], 0, text.toList⟩

/-- One round of scanning. -/
inductive Round : Progress → Progress → Prop
  | blank {ts start c rest} (blank : isBlank c) :
      Round ⟨ts, start, c :: rest⟩ ⟨ts, start + c.utf8Size, rest⟩
  | lexeme {ts start token part rest} (longest : Longest part (part ++ rest))
      (writes : Writes token part) : Round ⟨ts, start, part ++ rest⟩
        ⟨ts ++ [⟨token, ⟨start, start + width part⟩⟩], start + width part, rest⟩

/-- Rounds one after the other. -/
def Rounds : Progress → Progress → Prop := Relation.ReflTransGen Round

/-- Why there is no round from here, but an error: the first character begins no token, it is a `&`
or `|` that is not doubled, or the longest piece is a run that is no literal. -/
inductive Fault : Progress → ParseError → Prop
  | stray {ts start c rest} (blank : isBlank c = false) (other : c ≠ '&' ∧ c ≠ '|')
      (none : ∀ part, IsPiece part → ¬ part <+: c :: rest) : Fault ⟨ts, start, c :: rest⟩
        ⟨.strayCharacter c, ⟨start, start + c.utf8Size⟩⟩
  | lone {ts start c rest} (lone : c = '&' ∨ c = '|') (single : rest.head? ≠ some c) :
      Fault ⟨ts, start, c :: rest⟩ ⟨.loneCharacter c, ⟨start, start + c.utf8Size⟩⟩
  | number {ts start part rest} (longest : Longest part (part ++ rest)) (run : IsRun part)
      (bad : ∀ d, ¬ Decimal.Literal part d) : Fault ⟨ts, start, part ++ rest⟩
        ⟨.badNumber (.ofList part), ⟨start, start + width part⟩⟩

variable {start : Nat} {c : Char} {text part tail rest : List Char} {token : Token}
  {ts : List Lexeme} {p p' : Progress} {error : ParseError}

/-- What scanning ends with from here. -/
def Progress.scan (p : Progress) : Except ParseError (List Lexeme) :=
  (Lexeme.scan p.start p.rest).map (p.lexemes ++ ·)

/-- What is left to scan at the beginning is all of the text. -/
lemma Progress.scan_begin (text : String) : (begin text).scan = ofText text := by
  show (Lexeme.scan 0 text.toList).map id = _
  cases h : Lexeme.scan 0 text.toList with
  | error => rw [ofText, h]; rfl
  | ok => rw [ofText, h]; rfl

/-! ## The longest piece -/

/-- No token begins with a blank. -/
lemma first_of_isBlank (hc : isBlank c) (text : List Char) :
    first c text = (.error (.strayCharacter c), 0) := by
  have hblank : ((c = ' ' ∨ c = '\t') ∨ c = '\n') ∨ c = '\r' := by simpa [isBlank] using hc
  rcases hblank with ((rfl | rfl) | rfl) | rfl <;> rfl

/-- Nor is a token written with a blank in front. -/
lemma Writes.not_isBlank (h : Writes token (c :: tail)) : ¬ isBlank c := by
  intro hc
  have hfirst := first_of_writes h
  rw [first_of_isBlank hc] at hfirst
  cases hfirst

/-- What is found is no longer than the longest piece. -/
lemma Found.le {found : Except ParseError.Cause Token × Nat} (h : Found c text found)
    (hlongest : Longest (c :: tail) (c :: text)) : found.2 ≤ tail.length := by
  cases h with
  | token longest | badNumber longest =>
    have hle := hlongest.longest _ longest.piece longest.isPrefix
    simpa using hle
  | lone | stray => exact Nat.zero_le _

/-- The longest piece is read as it is by itself. -/
lemma first_of_longest (h : Longest (c :: tail) (c :: (tail ++ rest))) :
    first c (tail ++ rest) = first c tail :=
  first_append_of_le ((found_first c (tail ++ rest)).le h)

/-! ## Rounds and the scan -/

/-- A token that ends where more text begins is taken, and the scan goes on with that. -/
lemma scan_append_of_first (hc : ¬ isBlank c)
    (hfirst : first c (tail ++ rest) = (.ok token, tail.length)) :
    scan start (c :: tail ++ rest) = (scan (start + width (c :: tail)) rest).map
      (⟨token, ⟨start, start + width (c :: tail)⟩⟩ :: ·) := by
  rw [List.cons_append, scan_ok hc hfirst, List.take_left, List.drop_left]

/-- A round changes nothing about what scanning ends with. -/
lemma Round.scan_eq (h : Round p p') : p.scan = p'.scan := by
  cases h with
  | blank hblank =>
    show (Lexeme.scan _ _).map _ = (Lexeme.scan _ _).map _
    rw [scan_blank hblank]
  | @lexeme ts start token part rest longest writes =>
    obtain ⟨c, tail, rfl⟩ := List.exists_cons_of_ne_nil writes.isPiece.ne_nil
    have hfirst := (first_of_longest longest).trans (first_of_writes writes)
    show (Lexeme.scan _ _).map _ = (Lexeme.scan _ _).map _
    rw [scan_append_of_first writes.not_isBlank hfirst]
    cases Lexeme.scan (start + width (c :: tail)) rest with
    | error => rfl
    | ok us => simp [Except.map]

/-- Rounds do not change what is scanned in the end. -/
lemma Rounds.scan_eq (h : Rounds p p') : p.scan = p'.scan := by
  induction h with
  | refl => rfl
  | tail _ hround ih => exact ih.trans hround.scan_eq

lemma not_isBlank_of_lone (h : c = '&' ∨ c = '|') : ¬ isBlank c := by
  rcases h with rfl | rfl <;> decide

/-- One `&` or `|` alone is refused. -/
lemma first_of_lone (hlone : c = '&' ∨ c = '|') (hsingle : rest.head? ≠ some c) :
    first c rest = (.error (.loneCharacter c), 0) := by
  rcases hlone with rfl | rfl <;> cases rest with
  | nil => rfl
  | cons d rest =>
    simp only [List.head?_cons, ne_eq, Option.some.injEq] at hsingle
    simp [first, symbolOf?, hsingle]

/-- A character that begins no piece is refused. -/
lemma first_of_stray (hother : c ≠ '&' ∧ c ≠ '|')
    (hnone : ∀ part, IsPiece part → ¬ part <+: c :: rest) :
    first c rest = (.error (.strayCharacter c), 0) := by
  have hfound := found_first c rest
  generalize first c rest = found at hfound
  cases hfound with
  | token longest => exact absurd longest.isPrefix (hnone _ longest.piece)
  | badNumber longest => exact absurd longest.isPrefix (hnone _ longest.piece)
  | lone lone => exact absurd lone (not_or.mpr hother)
  | stray => rfl

/-- At a fault scanning ends with an error. -/
lemma Fault.scan_eq (h : Fault p error) : p.scan = .error error := by
  cases h with
  | stray hblank hother hnone =>
    show (Lexeme.scan _ _).map _ = _
    rw [scan_error (by simp [hblank]) (first_of_stray hother hnone)]
    rfl
  | lone hlone hsingle =>
    show (Lexeme.scan _ _).map _ = _
    rw [scan_error (not_isBlank_of_lone hlone) (first_of_lone hlone hsingle)]
    rfl
  | @number ts start part rest longest run bad =>
    obtain ⟨c, tail, rfl⟩ := List.exists_cons_of_ne_nil longest.piece.ne_nil
    have hfirst := (first_of_longest longest).trans (first_of_not_literal run bad)
    have hblank : ¬ isBlank c := by
      intro hc
      have hstray := first_of_isBlank hc (tail ++ rest)
      rw [hfirst] at hstray
      cases hstray
    show (Lexeme.scan _ _).map _ = _
    rw [List.cons_append, scan_error hblank hfirst, List.take_left]
    rfl

/-! ## Every text is scanned to an end -/

lemma Progress.scan_of_end (h : p.rest = []) : p.scan = .ok p.lexemes := by
  show (Lexeme.scan p.start p.rest).map _ = _
  rw [h, Lexeme.scan]
  show Except.ok (p.lexemes ++ []) = _
  rw [List.append_nil]

/-- A round moves ahead. -/
lemma Round.advances (h : Round p p') : p.start < p'.start ∧ p'.rest.length < p.rest.length := by
  cases h with
  | @blank ts start c rest hblank =>
    have hsize := c.utf8Size_pos
    simp only [List.length_cons]
    omega
  | @lexeme ts start token part rest longest writes =>
    have hne := writes.isPiece.ne_nil
    have hwidth := width_pos hne
    have hlength := List.length_pos_iff.mpr hne
    simp only [List.length_append]
    omega

/-- The text is at its end, its front is at fault, or there is a round. -/
lemma Progress.end_or_fault_or_round (p : Progress) :
    p.rest = [] ∨ (∃ error, Fault p error) ∨ ∃ p', Round p p' := by
  obtain ⟨ts, start, rest⟩ := p
  cases rest with
  | nil => exact .inl rfl
  | cons c rest =>
    by_cases hblank : isBlank c
    · exact .inr (.inr ⟨_, .blank hblank⟩)
    have hfound := found_first c rest
    generalize first c rest = found at hfound
    cases hfound with
    | @token token tail longest writes =>
      obtain ⟨after, rfl⟩ := (List.cons_prefix_cons.mp longest.isPrefix).2
      exact .inr (.inr ⟨_, @Round.lexeme ts start token (c :: tail) after longest writes⟩)
    | @badNumber tail longest run bad =>
      obtain ⟨after, rfl⟩ := (List.cons_prefix_cons.mp longest.isPrefix).2
      exact .inr (.inl ⟨_, @Fault.number ts start (c :: tail) after longest run bad⟩)
    | lone hlone hnone =>
      refine .inr (.inl ⟨_, .lone hlone fun hdouble => ?_⟩)
      obtain ⟨rest, rfl⟩ := List.head?_eq_some_iff.mp hdouble
      have hpiece : IsPiece [c, c] := by
        rcases hlone with rfl | rfl
        · exact .inr (.inr ⟨.and, by decide⟩)
        · exact .inr (.inr ⟨.or, by decide⟩)
      exact hnone _ hpiece (List.prefix_append [c, c] rest)
    | stray hother hnone =>
      exact .inr (.inl ⟨_, .stray (by simpa using hblank) hother hnone⟩)

/-- Rounds come to the end of the text or to a fault. -/
lemma Progress.exists_rounds (p : Progress) :
    ∃ p', Rounds p p' ∧ (p'.rest = [] ∨ ∃ error, Fault p' error) := by
  induction hlength : p.rest.length using Nat.strong_induction_on generalizing p with
  | _ n ih =>
    rcases p.end_or_fault_or_round with hend | hfault | ⟨p', hround⟩
    · exact ⟨p, .refl, .inl hend⟩
    · exact ⟨p, .refl, .inr hfault⟩
    · have hless := hround.advances.2
      obtain ⟨p'', hrounds, hend⟩ := ih _ (hlength ▸ hless) p' rfl
      exact ⟨p'', .head hround hrounds, hend⟩

/-- The lexemes of a text are those that the rounds have found when they come to its end. -/
theorem ofText_eq_ok_iff {text : String} :
    ofText text = .ok ts ↔ ∃ stop, Rounds (.begin text) ⟨ts, stop, []⟩ := by
  constructor
  · intro h
    obtain ⟨⟨us, stop, rest⟩, hrounds, hend⟩ := (Progress.begin text).exists_rounds
    have hscan := hrounds.scan_eq
    rw [Progress.scan_begin, h] at hscan
    rcases hend with hend | ⟨error, hfault⟩
    · rw [Progress.scan_of_end hend] at hscan
      cases hscan
      obtain rfl : rest = [] := hend
      exact ⟨stop, hrounds⟩
    · rw [hfault.scan_eq] at hscan
      cases hscan
  · rintro ⟨stop, hrounds⟩
    rw [← Progress.scan_begin, hrounds.scan_eq, Progress.scan_of_end rfl]

/-- A text is refused for the fault that the rounds come to. -/
theorem ofText_eq_error_iff {text : String} :
    ofText text = .error error ↔ ∃ p, Rounds (.begin text) p ∧ Fault p error := by
  constructor
  · intro h
    obtain ⟨p, hrounds, hend⟩ := (Progress.begin text).exists_rounds
    have hscan := hrounds.scan_eq
    rw [Progress.scan_begin, h] at hscan
    rcases hend with hend | ⟨error', hfault⟩
    · rw [Progress.scan_of_end hend] at hscan
      cases hscan
    · rw [hfault.scan_eq] at hscan
      cases hscan
      exact ⟨p, hrounds, hfault⟩
  · rintro ⟨p, hrounds, hfault⟩
    rw [← Progress.scan_begin, hrounds.scan_eq, hfault.scan_eq]

/-! ## The texts of the tokens -/

/-- Every lexeme is a token with the span of its text. -/
lemma Layout.exists_parts (h : Layout start text ts) : ∃ parts,
    List.Forall₂ (fun t part => Writes t.token part ∧ t.span.Marks start text part) ts parts := by
  induction h with
  | nil => exact ⟨[], .nil⟩
  | @cons start gap part rest token lexemes blank spells others ih =>
    obtain ⟨parts, hparts⟩ := ih
    refine ⟨part :: parts, .cons ⟨spells_iff_writes.mp spells, gap, rest, rfl, rfl⟩ ?_⟩
    refine hparts.imp fun t part' ht => ⟨ht.1, ?_⟩
    have hmarks := ht.2.append_left (gap ++ part)
    rwa [List.append_assoc] at hmarks

/-- Where a character stands in two texts one after the other. -/
lemma append_eq_append_cons {xs ys before after : List Char}
    (h : xs ++ ys = before ++ c :: after) : (∃ back, xs = before ++ c :: back) ∨
      ∃ front, before = xs ++ front ∧ ys = front ++ c :: after := by
  rcases List.append_eq_append_iff.mp h with ⟨front, rfl, hys⟩ | ⟨back, rfl, hback⟩
  · exact .inr ⟨front, rfl, hys⟩
  · cases back with
    | nil => exact .inr ⟨[], by simp, hback.symm⟩
    | cons d back =>
      obtain ⟨rfl, -⟩ := List.cons.inj hback
      exact .inl ⟨back, rfl⟩

/-- What is outside of the lexemes is blank. -/
lemma Layout.isBlank_of_outside (h : Layout start text ts) {before after : List Char}
    (htext : text = before ++ c :: after)
    (houtside : ∀ t ∈ ts, start + width before < t.span.start ∨
      t.span.stop ≤ start + width before) : isBlank c := by
  induction h generalizing before with
  | nil blank =>
    rw [List.all_eq_true] at blank
    exact blank c (by simp [htext])
  | @cons start gap part rest token lexemes blank spells others ih =>
    rw [List.forall_mem_cons] at houtside
    -- The character is in the gap, in the text of the first lexeme, or behind both.
    rcases append_eq_append_cons htext with ⟨back, rfl⟩ | ⟨front, rfl, hbehind⟩
    · rw [List.all_eq_true] at blank
      exact blank c (by simp)
    rcases append_eq_append_cons hbehind with ⟨back, rfl⟩ | ⟨front, rfl, hrest⟩
    · have hsize := c.utf8Size_pos
      have hspan := houtside.1
      simp only [width_append, width_cons] at hspan
      omega
    · refine ih hrest fun t ht => ?_
      have hspan := houtside.2 t ht
      simp only [width_append] at hspan ⊢
      omega

/-- A token is read from what it is written with. -/
lemma ofText_of_writes (h : Writes token part) :
    ofText (.ofList part) = .ok [⟨token, ⟨0, width part⟩⟩] := by
  obtain ⟨c, tail, rfl⟩ := List.exists_cons_of_ne_nil h.isPiece.ne_nil
  have hfirst : first c (tail ++ []) = (.ok token, tail.length) := by
    rw [List.append_nil]
    exact first_of_writes h
  have hscan := @scan_append_of_first 0 c tail [] token h.not_isBlank hfirst
  rw [List.append_nil, Lexeme.scan, Nat.zero_add] at hscan
  rw [ofText, String.toList_ofList, hscan]
  rfl

lemma exists_of_forall₂ {α β : Type} {R : α → β → Prop} {xs : List α} {ys : List β}
    (h : List.Forall₂ R xs ys) : ∀ x ∈ xs, ∃ y, R x y := by
  induction h with
  | nil => simp
  | cons hxy _ ih => exact List.forall_mem_cons.mpr ⟨⟨_, hxy⟩, ih⟩

/-- Nothing of a text is lost when it is scanned. -/
theorem lossless_of_ofText {text : String} (h : ofText text = .ok ts) : Lossless text ts := by
  have hlayout := layout_of_scan h
  obtain ⟨parts, hparts⟩ := hlayout.exists_parts
  refine ⟨fun t ht => (hlayout.start_le t ht).2, hlayout.pairwise, ?_, ?_⟩
  · intro t ht
    obtain ⟨part, hwrites, hmarks⟩ := exists_of_forall₂ hparts t ht
    refine ⟨.ofList part, hmarks.cutsOut, ?_⟩
    rw [ofText_of_writes hwrites, utf8ByteSize_ofList]
  · intro before c after htext houtside
    exact hlayout.isBlank_of_outside htext (by simpa using houtside)

/-! ## Other texts of the same tokens -/

/-- Behind a part there is a blank or nothing. -/
lemma Spaced.head_isBlank {parts : List String} (h : Spaced parts rest)
    (apart : parts ≠ [] → rest.head?.any isBlank) : ∀ d ∈ rest.head?, isBlank d := by
  intro d hd
  cases h with
  | nil blank =>
    rw [List.all_eq_true] at blank
    exact blank d (List.mem_of_mem_head? hd)
  | cons =>
    have hany := apart (List.cons_ne_nil _ _)
    rwa [Option.mem_def.mp hd, Option.any_some] at hany

/-- Texts of tokens with blanks between them are scanned into the tokens. -/
lemma exists_scan_of_spaced {parts : List String} (h : Spaced parts text)
    (hts : List.Forall₂ (fun t part => Writes t.token part.toList) ts parts) (start : Nat) :
    ∃ ts', scan start text = .ok ts' ∧ ts'.map Lexeme.token = ts.map Lexeme.token := by
  induction h generalizing ts start with
  | @nil gap blank =>
    cases hts
    have hscan := @scan_gap start [] gap blank
    rw [List.append_nil, Lexeme.scan] at hscan
    exact ⟨[], hscan, rfl⟩
  | @cons gap part rest parts blank apart others ih =>
    cases hts with
    | @cons t _ ts _ writes hts =>
      obtain ⟨c, tail, hpart⟩ := List.exists_cons_of_ne_nil writes.isPiece.ne_nil
      rw [hpart] at writes ⊢
      -- What comes next is a blank or nothing, so the token ends here.
      have hfirst : first c (tail ++ rest) = (.ok t.token, tail.length) := by
        have hblank := others.head_isBlank apart
        cases rest with
        | nil => rw [List.append_nil, first_of_writes writes]
        | cons d rest =>
          rw [first_append_cons (goesOn_of_isBlank (hblank d rfl)), first_of_writes writes]
      let span : Span := ⟨start + width gap, start + width gap + width (c :: tail)⟩
      obtain ⟨ts', hscan, htokens⟩ := ih hts span.stop
      refine ⟨⟨t.token, span⟩ :: ts', ?_, ?_⟩
      · rw [scan_gap blank, scan_append_of_first writes.not_isBlank hfirst, hscan]
        rfl
      · rw [List.map_cons, List.map_cons, htokens]

/-- The text that a lexeme has its span from is written for its token. -/
lemma writes_of_cutsOut {text part : String} {t : Lexeme} (h : ofText text = .ok ts) (ht : t ∈ ts)
    (hpart : t.span.CutsOut text part) : Writes t.token part.toList := by
  obtain ⟨parts, hparts⟩ := (layout_of_scan h).exists_parts
  obtain ⟨own, hwrites, hmarks⟩ := exists_of_forall₂ hparts t ht
  obtain rfl : part = .ofList own :=
    String.toByteArray_inj.mp (hpart.bytes.symm.trans hmarks.cutsOut.bytes)
  rwa [String.toList_ofList]

/-- Any text of the same tokens with blanks between them has the same tokens. -/
theorem exists_ofText_of_spaced {text text' : String} {parts : List String}
    (h : ofText text = .ok ts)
    (hparts : List.Forall₂ (fun t part => t.span.CutsOut text part) ts parts)
    (hspaced : Spaced parts text'.toList) :
    ∃ ts', ofText text' = .ok ts' ∧ ts'.map Lexeme.token = ts.map Lexeme.token := by
  refine exists_scan_of_spaced hspaced ?_ 0
  have hwrites : ∀ t ∈ ts, ∀ part, t.span.CutsOut text part → Writes t.token part.toList :=
    fun t ht part hpart => writes_of_cutsOut h ht hpart
  clear h hspaced
  induction hparts with
  | nil => exact .nil
  | cons hpart _ ih =>
    rw [List.forall_mem_cons] at hwrites
    exact .cons (hwrites.1 _ hpart) (ih hwrites.2)

/-! ## Any text -/

/-- Scanning loses nothing but blanks: the lexemes of a text are in order and apart, each is read
again from its own text, and any text of the same tokens with blanks between them has the same
tokens. A text is scanned in rounds that take the longest piece at the front; each moves ahead, and
the text is refused for the fault that they meet, if there is one. -/
theorem ofText_lossless_and_longest (text : String) :
    (∀ ts, ofText text = .ok ts → Lossless text ts ∧
      ∀ parts, List.Forall₂ (fun t part => t.span.CutsOut text part) ts parts →
        ∀ text', Spaced parts text'.toList →
          ∃ ts', ofText text' = .ok ts' ∧ ts'.map Lexeme.token = ts.map Lexeme.token) ∧
    (∀ ts, ofText text = .ok ts ↔ ∃ stop, Rounds (.begin text) ⟨ts, stop, []⟩) ∧
    (∀ error, ofText text = .error error ↔ ∃ p, Rounds (.begin text) p ∧ Fault p error) ∧
    (∀ p : Progress, p.rest = [] ∨ (∃ error, Fault p error) ∨ ∃ p', Round p p') ∧
    ∀ p p', Round p p' → p.start < p'.start ∧ p'.rest.length < p.rest.length := by
  refine ⟨fun ts h => ⟨lossless_of_ofText h, ?_⟩, fun ts => ofText_eq_ok_iff,
    fun error => ofText_eq_error_iff, Progress.end_or_fault_or_round, fun p p' => Round.advances⟩
  intro parts hparts text' hspaced
  exact exists_ofText_of_spaced h hparts hspaced

/-- An exponent ends where its digits do, so a point behind it begins another number. A second point
in a run is a fault. -/
theorem ofText_lossless_and_longest_points :
    ∃ ts, ofText "x>=1e5.5" = .ok ts ∧
      ts.map Lexeme.token = [.name "x", .symbol .greaterEqual, .number 1e5, .number 0.5] ∧
      Lossless "x>=1e5.5" ts ∧
      (∃ ts', ofText "x >=\n1e5 .5 " = .ok ts' ∧ ts'.map Lexeme.token = ts.map Lexeme.token) ∧
      ∃ p, Rounds (.begin "x>=1.2.3") p ∧ Fault p ⟨.badNumber "1.2.3", ⟨3, 8⟩⟩ := by
  have hok : ofText "x>=1e5.5" = .ok [⟨.name "x", ⟨0, 1⟩⟩, ⟨.symbol .greaterEqual, ⟨1, 3⟩⟩,
      ⟨.number 1e5, ⟨3, 6⟩⟩, ⟨.number 0.5, ⟨6, 8⟩⟩] := by
    decide +kernel
  have herror : ofText "x>=1.2.3" = .error ⟨.badNumber "1.2.3", ⟨3, 8⟩⟩ := by
    decide +kernel
  obtain ⟨hlossless, hspaced⟩ := (ofText_lossless_and_longest "x>=1e5.5").1 _ hok
  have hcut (before part after : List Char)
      (htext : "x>=1e5.5".toList = before ++ (part ++ after)) :
      Span.CutsOut "x>=1e5.5" ⟨0 + width before, 0 + width (before ++ part)⟩ (.ofList part) :=
    Span.Marks.cutsOut ⟨before, after, htext, rfl⟩
  have hspaces : Spaced ["x", ">=", "1e5", ".5"] "x >=\n1e5 .5 ".toList :=
    @Spaced.cons [] "x" _ _ rfl (fun _ => rfl) <| @Spaced.cons [' '] ">=" _ _ rfl (fun _ => rfl) <|
      @Spaced.cons ['\n'] "1e5" _ _ rfl (fun _ => rfl) <|
        @Spaced.cons [' '] ".5" _ _ rfl nofun <| @Spaced.nil [' '] rfl
  refine ⟨_, hok, rfl, hlossless, hspaced ["x", ">=", "1e5", ".5"] ?_ _ hspaces,
    ((ofText_lossless_and_longest "x>=1.2.3").2.2.1 _).mp herror⟩
  refine .cons ?_ (.cons ?_ (.cons ?_ (.cons ?_ .nil)))
  · exact hcut [] ['x'] ['>', '=', '1', 'e', '5', '.', '5'] rfl
  · exact hcut ['x'] ['>', '='] ['1', 'e', '5', '.', '5'] rfl
  · exact hcut ['x', '>', '='] ['1', 'e', '5'] ['.', '5'] rfl
  · exact hcut ['x', '>', '=', '1', 'e', '5'] ['.', '5'] [] rfl

end BlockLang.Lexeme
