import BlockLang.Proofs.Expr.Accepted
import BlockLang.Proofs.Expr.Layout

/-!
# Where errors are

A reader that fails does so at one of the lexemes it was given, over several of them in a row, or at
the end of the text. Main statement: the span of a parse error can be cut out of the text.
-/

namespace BlockLang

variable {α β : Type} {m n stop : Nat} {ts us : List Lexeme}

/-- The span is at the end of a text of `stop` bytes or reaches over some of the lexemes. -/
def Span.Locates (stop : Nat) (ts : List Lexeme) (span : Span) : Prop :=
  span = .atEnd stop ∨ ∃ us, us ≠ [] ∧ us <:+: ts ∧ span = Lexeme.extent us

/-- A place among some lexemes in a row is a place among those around. -/
lemma Span.Locates.of_isInfix {span : Span} (h : span.Locates stop us) (hu : us <:+: ts) :
    span.Locates stop ts := by
  rcases h with h | ⟨vs, hne, hvs, rfl⟩
  · exact .inl h
  · exact .inr ⟨vs, hne, hvs.trans hu, rfl⟩

lemma error_of_map_eq_error {ε α β : Type} {f : α → β} {r : Except ε α} {e : ε}
    (h : r.map f = .error e) : r = .error e := by
  cases r with
  | error => exact congrArg _ (Except.error.inj h)
  | ok => cases h

namespace Expr

/-- The first lexeme is a place. -/
lemma locates_head (t : Lexeme) (ts : List Lexeme) : t.span.Locates stop (t :: ts) :=
  .inr ⟨[t], List.cons_ne_nil _ _, (List.prefix_append [t] ts).isInfix, rfl⟩

/-- An error is reported at the next lexeme, or at the end. -/
lemma locates_errorAt (cause : ParseError.Cause) (h : us <:+: ts) :
    (errorAt stop us cause).span.Locates stop ts := by
  cases us with
  | nil => exact .inl rfl
  | cons t us => exact (locates_head t us).of_isInfix h

/-- A span from the first lexeme to a later one. -/
lemma locates_through {t last : Lexeme} {rest : List Lexeme} (h : last :: rest <:+ t :: ts) :
    Span.Locates stop (t :: ts) ⟨t.span.start, last.span.stop⟩ := by
  obtain ⟨front, hfront⟩ := h
  have hsplit : (front ++ [last]) ++ rest = t :: ts := by simpa using hfront
  have hhead : (front ++ [last]).head? = some t := by
    cases front <;> cases hfront <;> rfl
  refine .inr ⟨front ++ [last], by simp, hsplit ▸ (List.prefix_append _ _).isInfix, ?_⟩
  simp [Lexeme.extent, hhead]

/-- The answer of a reader is about the lexemes `ts`: it leaves an end of them or fails at a place
in them. -/
def Inside (stop : Nat) (ts : List Lexeme) : Except ParseError (Parsed α n) → Prop
  | .ok p => p.rest <:+ ts
  | .error error => error.span.Locates stop ts

variable {r : Except ParseError (Parsed α m)}

/-- A reader that fails among the last lexemes fails among all. -/
lemma Inside.of_suffix (h : Inside stop us r) (hu : us <:+ ts) : Inside stop ts r := by
  cases r with
  | error error => exact Span.Locates.of_isInfix h hu.isInfix
  | ok p => exact List.IsSuffix.trans h hu

/-- If two readers fail inside the lexemes, so do both of them one after the other. -/
lemma Inside.bind {f : Parsed α m → Except ParseError (Parsed β n)} (h : Inside stop ts r)
    (hf : ∀ p, r = .ok p → p.rest <:+ ts → Inside stop ts (f p)) : Inside stop ts (r >>= f) := by
  cases r with
  | error error => exact h
  | ok p => exact hf p rfl h

/-- A symbol that is missing is missing where the next lexeme is. -/
lemma inside_expect (symbol : Symbol) (what : Expected) (h : us <:+ ts) :
    Inside stop ts (expect stop symbol what us) := by
  unfold expect
  split
  · split_ifs
    · exact (List.suffix_cons _ _).trans h
    · exact locates_errorAt _ h.isInfix
  · exact locates_errorAt _ h.isInfix

/-! ## Readers -/

mutual

/-- A reader of expressions fails at one of the lexemes or at the end. So do the readers it
calls. -/
theorem inside_read (stop least : Nat) (ts : List Lexeme) :
    Inside stop ts (read stop least ts) := by
  rw [read]
  refine (inside_readOperand stop ts).bind fun ⟨left, us, hlt⟩ _ hus => ?_
  exact ((inside_readInfix stop least left us).of_suffix hus).bind fun _ _ => id
termination_by 2 * ts.length + 1

theorem inside_readInfix (stop least : Nat) (left : Expr) (ts : List Lexeme) :
    Inside stop ts (readInfix stop least left ts) := by
  rcases ts with _ | ⟨t, ts⟩
  · rw [readInfix]
    exact List.suffix_rfl
  rw [readInfix]
  have htail : ts <:+ t :: ts := List.suffix_cons _ _
  split
  · exact List.suffix_rfl
  split_ifs
  · exact List.suffix_rfl
  split
  case h_1 op _ _ =>
    -- An operation, and what follows its right side.
    refine ((inside_read stop (op.power + 1) ts).of_suffix htail).bind
      fun ⟨right, us, hlt⟩ _ hus => ?_
    exact ((inside_readInfix stop least (.binary op left right) us).of_suffix hus).bind
      fun _ _ => id
  case h_2 =>
    -- A choice, and what follows its last part.
    refine ((inside_read stop 0 ts).of_suffix htail).bind fun ⟨yes, us, hlt⟩ _ hus => ?_
    refine (inside_expect .colon .colon hus).bind fun ⟨_, vs, hlt'⟩ _ hvs => ?_
    have hlt' : vs.length < us.length := hlt'
    refine ((inside_read stop choicePower vs).of_suffix hvs).bind fun ⟨no, ws, hlt''⟩ _ hws => ?_
    exact ((inside_readInfix stop least (.choice left yes no) ws).of_suffix hws).bind
      fun _ _ => id
termination_by 2 * ts.length

theorem inside_readOperand (stop : Nat) (ts : List Lexeme) :
    Inside stop ts (readOperand stop ts) := by
  rcases ts with _ | ⟨⟨token, span⟩, ts⟩
  · rw [readOperand]
    exact .inl rfl
  have htail : ts <:+ ⟨token, span⟩ :: ts := List.suffix_cons _ _
  have hhere : Span.Locates stop (⟨token, span⟩ :: ts) span := locates_head ⟨token, span⟩ ts
  cases token with
  | number value =>
    rw [readOperand]
    exact htail
  | truth value =>
    rw [readOperand]
    exact htail
  | name word =>
    by_cases hp : startsWith .openParen ts
    · obtain ⟨opening, ts, rfl⟩ := startsWith_eq_true.mp hp
      rw [readOperand]
      split
      · exact hhere
      rename_i function _
      have hinside := (List.suffix_cons _ _).trans htail
      refine ((inside_readArguments stop ts).of_suffix hinside).bind
        fun ⟨arguments, us, hlt⟩ _ hus => ?_
      refine (inside_expect .closeParen .closeArguments hus).bind
        fun ⟨close, vs, hlt'⟩ hclose hvs => ?_
      obtain ⟨closing, rfl, rfl⟩ := reads_expect.mp ⟨hlt', hclose⟩
      dsimp only
      -- A call with too few or too many arguments is an error over the whole call.
      split_ifs
      · exact hvs
      · exact locates_through hus
    · rw [readOperand]
      · exact htail
      · rintro _ us rfl
        exact hp rfl
  | symbol s =>
    by_cases hu : ∃ op : UnaryOp, s = op.symbol
    · obtain ⟨op, rfl⟩ := hu
      cases op <;> rw [UnaryOp.symbol, readOperand] <;>
        exact ((inside_read stop unaryPower ts).of_suffix htail).bind fun _ _ => id
    by_cases hp : s = .openParen
    · subst hp
      rw [readOperand]
      refine ((inside_read stop 0 ts).of_suffix htail).bind fun ⟨inner, us, hlt⟩ _ hus => ?_
      exact (inside_expect .closeParen .closeParen hus).bind fun _ _ => id
    · have hm : s ≠ .minus := fun hs => hu ⟨.negate, hs⟩
      have hn : s ≠ .not := fun hs => hu ⟨.not, hs⟩
      rw [readOperand]
      · exact hhere
      · exact hm
      · exact hn
      · exact hp
termination_by 2 * ts.length

theorem inside_readArguments (stop : Nat) (ts : List Lexeme) :
    Inside stop ts (readArguments stop ts) := by
  rw [readArguments]
  split_ifs
  · exact List.suffix_rfl
  · exact (inside_readSome stop ts).bind fun _ _ => id
termination_by 2 * ts.length + 3

theorem inside_readSome (stop : Nat) (ts : List Lexeme) :
    Inside stop ts (readSome stop ts) := by
  rw [readSome]
  refine (inside_read stop 0 ts).bind fun ⟨argument, us, hlt⟩ _ hus => ?_
  dsimp only at hus ⊢
  split_ifs
  · have htail : us.tail <:+ ts := (List.tail_suffix us).trans hus
    exact ((inside_readSome stop us.tail).of_suffix htail).bind fun _ _ => id
  · exact hus
termination_by 2 * ts.length + 2
decreasing_by
  · omega
  · simp only [List.length_tail]; omega

end

/-- An expression that is not all that there is fails at one of the lexemes or at the end. -/
lemma locates_of_readAll {after : ParseError.Cause} {error : ParseError}
    (h : readAll stop after ts = .error error) : error.span.Locates stop ts := by
  have hinside := inside_read stop 0 ts
  rw [readAll] at h
  cases hr : read stop 0 ts with
  | error e =>
    rw [hr] at h hinside
    cases h
    exact hinside
  | ok p =>
    obtain ⟨whole, us, hlt⟩ := p
    rw [hr] at h hinside
    cases us with
    | nil => cases h
    | cons t us =>
      cases h
      exact (locates_head t us).of_isInfix (List.IsSuffix.isInfix hinside)

end Expr

/-! ## Statements -/

/-- An instruction fails at one of its lexemes or at the end. -/
lemma locates_of_ofLexemes {first : Lexeme} {more : List Lexeme} {error : ParseError}
    (h : Instruction.ofLexemes stop first more = .error error) :
    error.span.Locates stop (first :: more) := by
  have hdrop (k : Nat) : (first :: more).drop k <:+: first :: more :=
    (List.drop_suffix k _).isInfix
  rw [Instruction.ofLexemes] at h
  split at h
  case h_1 => exact Expr.locates_of_readAll (error_of_map_eq_error h)
  case h_2 target targetSpan head hhead =>
    by_cases ht : target = programVariable
    · rw [if_neg (not_not.mpr ht)] at h
      rcases head with op | op
      · exact (Expr.locates_of_readAll (error_of_map_eq_error h)).of_isInfix (hdrop 2)
      · dsimp only at h
        split_ifs at h
        cases h
        exact Expr.locates_errorAt _ (hdrop 2)
    · rw [if_pos ht] at h
      obtain ⟨s, span, us, hts, -⟩ := Instruction.head?_eq_some hhead
      cases h
      rw [hts]
      exact Expr.locates_head ⟨.name target, targetSpan⟩ _

/-- A statement fails at a lexeme of one of its segments, or at the end. -/
lemma locates_of_readSegments {segments : List (List Lexeme)} {error : ParseError}
    (h : readSegments stop segments = .error error) :
    ∃ us ∈ segments, error.span.Locates stop us := by
  induction segments with
  | nil => cases h
  | cons segment others ih =>
    cases segment with
    | nil =>
      obtain ⟨us, hus, hspan⟩ := ih h
      exact ⟨us, List.mem_cons_of_mem _ hus, hspan⟩
    | cons first more =>
      -- The first segment fails, or one of the others does.
      rw [readSegments] at h
      cases hfirst : Instruction.ofLexemes stop first more with
      | error e =>
        rw [hfirst] at h
        cases h
        exact ⟨_, List.mem_cons_self, locates_of_ofLexemes hfirst⟩
      | ok instruction =>
        rw [hfirst] at h
        cases hothers : readSegments stop others with
        | error e =>
          rw [hothers] at h
          cases h
          obtain ⟨us, hus, hspan⟩ := ih hothers
          exact ⟨us, List.mem_cons_of_mem _ hus, hspan⟩
        | ok instructions =>
          rw [hothers] at h
          cases h

/-- The first segment begins the lexemes, and every segment is some of them in a row. -/
lemma segments_infix (ts : List Lexeme) : ∃ first others, segments ts = first :: others ∧
    first <+: ts ∧ ∀ us ∈ others, us <:+: ts := by
  induction ts with
  | nil => exact ⟨[], [], rfl, List.nil_prefix, by simp⟩
  | cons t ts ih =>
    obtain ⟨first, others, hts, hfirst, hothers⟩ := ih
    have htail : ts <:+: t :: ts := (List.suffix_cons t ts).isInfix
    have hothers (us : List Lexeme) (hus : us ∈ others) : us <:+: t :: ts :=
      (hothers us hus).trans htail
    rw [segments, hts]
    split_ifs
    · refine ⟨[], first :: others, rfl, List.nil_prefix, ?_⟩
      exact List.forall_mem_cons.mpr ⟨hfirst.isInfix.trans htail, hothers⟩
    · exact ⟨t :: first, others, rfl, (List.prefix_cons_inj t).mpr hfirst, hothers⟩

/-- A segment is made of lexemes in a row. -/
lemma infix_of_mem_segments (h : us ∈ segments ts) : us <:+: ts := by
  obtain ⟨first, others, hts, hfirst, hothers⟩ := segments_infix ts
  rw [hts] at h
  rcases List.mem_cons.mp h with rfl | h
  · exact hfirst.isInfix
  · exact hothers us h

/-! ## Texts -/

namespace Lexeme

variable {start : Nat} {text : List Char}

lemma extent_cons_cons (t u : Lexeme) (us : List Lexeme) :
    extent (t :: u :: us) = ⟨t.span.start, (extent (u :: us)).stop⟩ := by
  rw [extent_cons, extent_cons, List.getLast?_cons]
  rfl

/-- The extent of lexemes is that of some characters of their text. -/
lemma Layout.exists_extent {t : Lexeme} (h : Layout start text (t :: ts)) :
    ∃ before part after, text = before ++ (part ++ after) ∧ part ≠ [] ∧
      extent (t :: ts) = ⟨start + width before, start + width (before ++ part)⟩ := by
  induction ts generalizing start text t with
  | nil =>
    cases h with
    | @cons _ gap part rest token _ blank spells others =>
      exact ⟨gap, part, rest, rfl, spells.ne_nil, rfl⟩
  | cons u us ih =>
    cases h with
    | @cons _ gap part rest token _ blank spells others =>
      obtain ⟨before, part', after, rfl, -, hextent⟩ := ih others
      refine ⟨gap, part ++ (before ++ part'), after, by simp, by simp [spells.ne_nil], ?_⟩
      rw [extent_cons_cons, hextent]
      simp [Nat.add_assoc]

/-- The extent of lexemes in a row marks a part of the text that has characters. -/
lemma Layout.marks_extent (h : Layout start text ts) (hus : us <:+: ts) (hne : us ≠ []) :
    ∃ part, part ≠ [] ∧ (extent us).Marks start text part := by
  obtain ⟨before, part, after, rfl, h⟩ := h.of_isInfix hus
  obtain ⟨t, us, rfl⟩ := List.exists_cons_of_ne_nil hne
  obtain ⟨front, inner, back, rfl, hinner, hextent⟩ := h.exists_extent
  exact ⟨inner, hinner, (Span.Marks.append_right _ ⟨front, back, rfl, hextent⟩).append_left _⟩

end Lexeme

/-- All of a text can be cut out of it. -/
lemma Span.fits_whole (text : String) : Span.Fits text ⟨0, text.utf8ByteSize⟩ :=
  ⟨Nat.zero_le _, le_rfl, String.Pos.Raw.isValid_zero, String.Pos.Raw.isValid_rawEndPos⟩

/-- Nothing can be cut out at the end of a text. -/
lemma Span.fits_atEnd (text : String) : (Span.atEnd text.utf8ByteSize).Fits text :=
  ⟨le_rfl, le_rfl, String.Pos.Raw.isValid_rawEndPos, String.Pos.Raw.isValid_rawEndPos⟩

/-- A place among the lexemes of a text can be cut out of the text. -/
lemma Span.Locates.fits {text : String} {span : Span} (h : span.Locates (width text.toList) ts)
    (hts : Lexeme.Layout 0 text.toList ts) : span.Fits text := by
  rcases h with rfl | ⟨us, hne, hus, rfl⟩
  · rw [width_toList]
    exact fits_atEnd text
  · obtain ⟨part, -, hpart⟩ := hts.marks_extent hus hne
    exact hpart.cutsOut.toFits

/-- The span of every reason why a text cannot be parsed can be cut out of the text. -/
theorem fits_of_parseCondition_eq_error {text : String} {error : ParseError}
    (h : parseCondition text = .error error) : error.span.Fits text := by
  unfold parseCondition at h
  cases hts : Lexeme.ofText text with
  | error e =>
    rw [hts] at h
    cases h
    obtain ⟨part, hpart⟩ := Lexeme.marks_of_scan_eq_error hts
    exact hpart.cutsOut.toFits
  | ok ts =>
    rw [hts] at h
    cases ts with
    | nil =>
      cases h
      rw [width_toList]
      exact Span.fits_whole text
    | cons t ts => exact (Expr.locates_of_readAll h).fits (Lexeme.layout_of_scan hts)

/-- The span of an error in a statement can be cut out of its text. -/
theorem fits_of_parseStatement_eq_error {text : String} {error : ParseError}
    (h : parseStatement text = .error error) : error.span.Fits text := by
  unfold parseStatement at h
  cases hts : Lexeme.ofText text with
  | error e =>
    rw [hts] at h
    cases h
    obtain ⟨part, hpart⟩ := Lexeme.marks_of_scan_eq_error hts
    exact hpart.cutsOut.toFits
  | ok ts =>
    rw [hts] at h
    cases his : readSegments (width text.toList) (segments ts) with
    | error e =>
      simp only [bind, Except.bind, his] at h
      cases h
      obtain ⟨us, hus, hspan⟩ := locates_of_readSegments his
      exact (hspan.of_isInfix (infix_of_mem_segments hus)).fits (Lexeme.layout_of_scan hts)
    | ok is =>
      simp only [bind, Except.bind, his] at h
      cases is with
      | nil =>
        cases h
        rw [width_toList]
        exact Span.fits_whole text
      | cons i is => cases h

end BlockLang
