import BlockLang.Proofs.Expr.Failures
import BlockLang.Proofs.Expr.Parts

/-!
# Spans

A parsed text keeps the spans of its names, calls and instructions. Main statement: every span that
parsing gives is that of the right characters of the text.
-/

namespace BlockLang

open Lexeme

variable {start : Nat} {text : List Char} {ts us : List Lexeme}

/-! ## Names and calls in their text -/

/-- The lexeme of a name marks the name in the text. -/
lemma Lexeme.Layout.marks_name {word : String} {span : Span}
    (h : Layout start text [⟨.name word, span⟩]) :
    ∃ part, String.ofList part = word ∧ span.Marks start text part := by
  cases h with
  | @cons _ gap part rest _ _ blank spells others =>
    exact ⟨part, spells.eq_of_name, gap, rest, rfl, rfl⟩

/-- The text of a call is the name, the parentheses, and what derives the arguments between them. -/
lemma Lexeme.Layout.marks_call {word : String} {name opening closing : Span}
    (h : Layout start text (⟨.name word, name⟩ :: ⟨.symbol .openParen, opening⟩ ::
      (us ++ [⟨.symbol .closeParen, closing⟩]))) :
    ∃ part gap inside, String.ofList part = word ∧ gap.all isBlank ∧
      inside.filter isParen = parensOf us ∧ Span.Marks start text ⟨name.start, closing.stop⟩
        (part ++ (gap ++ '(' :: (inside ++ [')']))) := by
  cases h with
  | @cons _ front part _ _ _ _ spells others =>
  cases others with
  | @cons _ gap _ rest _ _ blank hopen others =>
  obtain ⟨inside, back, rfl, hinside, hclose⟩ := others.of_append
  cases hclose with
  | @cons _ gap' _ rest' _ _ blank' hclose others =>
  obtain rfl : _ = ['('] := hopen.eq_parens (List.cons_ne_nil _ _)
  obtain rfl : _ = [')'] := hclose.eq_parens (List.cons_ne_nil _ _)
  have hblank : Layout (start + 0) gap' [] := .nil blank'
  refine ⟨part, gap, inside ++ gap', spells.eq_of_name, blank, ?_, front, rest', ?_, ?_⟩
  · rw [List.filter_append, hinside.filter_isParen, hblank.filter_isParen, parensOf_nil,
      List.append_nil]
  · simp
  · simp [Nat.add_assoc]

/-- A function is called by its name, with or without `Math.` in front. -/
lemma Builtin.eq_name_of_ofName? {word : String} {function : Builtin}
    (h : ofName? word = some function) :
    word = function.name ∨ word = "Math." ++ function.name := by
  have hname := List.find?_some h
  rw [decide_eq_true_eq] at hname
  unfold bareName at hname
  split at hname
  case h_1 bare hword =>
    refine .inr (String.toList_injective ?_)
    rw [hword, String.toList_append, hname]
    rfl
  case h_2 => exact .inl (String.toList_injective hname.symm)

/-! ## Spans inside others -/

/-- The extent of lexemes contains each of them. -/
lemma Lexeme.Layout.extent_contains (h : Layout start text ts) :
    ∀ t ∈ ts, (extent ts).Contains t.span := by
  have horder := h.pairwise
  have hspans := h.start_le
  clear h
  induction ts with
  | nil => simp
  | cons t ts ih =>
    cases ts with
    | nil =>
      rw [List.forall_mem_singleton]
      exact ⟨le_rfl, le_rfl⟩
    | cons u us =>
      rw [List.pairwise_cons] at horder
      rw [List.forall_mem_cons] at hspans
      have htail := ih horder.2 hspans.2
      have hnext := horder.1 u List.mem_cons_self
      have hu := hspans.2 u List.mem_cons_self
      have hlast := (htail u List.mem_cons_self).2
      rw [extent_cons_cons, List.forall_mem_cons]
      -- The extent begins with the first lexeme and ends as that of the others does.
      refine ⟨⟨le_rfl, ?_⟩, fun v hv => ⟨?_, (htail v hv).2⟩⟩
      · show t.span.stop ≤ (extent (u :: us)).stop
        omega
      · have hstart : u.span.start ≤ v.span.start := (htail v hv).1
        have ht := hspans.1
        show t.span.start ≤ v.span.start
        omega

/-- The extent of lexemes is from the first to the last. -/
lemma extent_eq (hne : us ≠ []) :
    extent us = ⟨(us.head hne).span.start, (us.getLast hne).span.stop⟩ := by
  rw [extent, List.head?_eq_some_head hne, List.getLast?_eq_some_getLast hne]

/-- The extent of lexemes contains that of some of them in a row. -/
lemma Lexeme.Layout.contains_extent (h : Layout start text ts) (hus : us <:+: ts) (hne : us ≠ []) :
    (extent ts).Contains (extent us) := by
  rw [extent_eq hne]
  exact ⟨(h.extent_contains _ (hus.subset (List.head_mem hne))).1,
    (h.extent_contains _ (hus.subset (List.getLast_mem hne))).2⟩

/-- A call extends from its name to its closing parenthesis. -/
lemma extent_call (name opening closing : Lexeme) (us : List Lexeme) :
    extent (name :: opening :: (us ++ [closing])) = ⟨name.span.start, closing.span.stop⟩ := by
  rw [extent_eq (List.cons_ne_nil _ _)]
  simp

/-- What is read from lexemes has its span within theirs. -/
lemma Expr.ReadFrom.contains {part : Expr} {span : Span} (hpart : part.ReadFrom ts)
    (hspan : part.span? = some span) (h : Layout start text ts) : (extent ts).Contains span := by
  cases part with
  | name word span' =>
    cases hspan
    exact h.contains_extent hpart (List.cons_ne_nil _ _)
  | call function arguments span' =>
    cases hspan
    obtain ⟨word, name, opening, closing, us, -, rfl, -, hus⟩ := hpart
    have hcontains := h.contains_extent hus (List.cons_ne_nil _ _)
    rw [extent_call] at hcontains
    exact hcontains
  | _ => cases hspan

/-! ## Expressions -/

lemma ofList_call (part gap inside : List Char) :
    String.ofList (part ++ (gap ++ '(' :: (inside ++ [')']))) =
      .ofList part ++ .ofList gap ++ "(" ++ .ofList inside ++ ")" := by
  refine String.toList_injective ?_
  simp

/-- Every name and every call in the expression has the span of its text. -/
structure Expr.Placed (text : String) (e : Expr) : Prop where
  name : ∀ word span, .name word span ∈ e.parts → span.CutsOut text word
  call : ∀ function arguments span, .call function arguments span ∈ e.parts →
    (∃ word gap inside, (word = function.name ∨ word = "Math." ++ function.name) ∧
      gap.toList.all isBlank ∧ Balanced inside.toList ∧
      span.CutsOut text (word ++ gap ++ "(" ++ inside ++ ")")) ∧
    ∀ inner ∈ Expr.spansOf arguments, span.Contains inner

/-- An expression of which each part is made of lexemes of a text is placed in the text. -/
lemma Expr.placed_of_readFrom {text : String} {e : Expr} (hts : Layout 0 text.toList ts)
    (h : ∀ part ∈ e.parts, part.ReadFrom ts) : e.Placed text where
  name word span hpart := by
    -- The lexemes of the part are laid out in a stretch of the text.
    have hmem : [⟨.name word, span⟩] <:+: ts := h _ hpart
    obtain ⟨before, stretch, after, htext, hlayout⟩ := hts.of_isInfix hmem
    obtain ⟨part, rfl, hmarks⟩ := hlayout.marks_name
    have hwhole := (hmarks.append_right after).append_left before
    rw [← htext] at hwhole
    exact hwhole.cutsOut
  call function arguments span hpart := by
    obtain ⟨word, name, opening, closing, us, hfound, rfl, ⟨d, rfl⟩, hus⟩ := h _ hpart
    obtain ⟨before, stretch, after, htext, hlayout⟩ := hts.of_isInfix hus
    constructor
    · obtain ⟨part, gap, inside, rfl, hblank, hparens, hmarks⟩ := hlayout.marks_call
      have hwhole := (hmarks.append_right after).append_left before
      rw [← htext] at hwhole
      refine ⟨_, .ofList gap, .ofList inside, Builtin.eq_name_of_ofName? hfound, ?_, ?_, ?_⟩
      · simpa using hblank
      · rw [String.toList_ofList, Balanced, hparens]
        exact d.nested
      · have hcut := hwhole.cutsOut
        rw [ofList_call] at hcut
        exact hcut
    · intro inner hinner
      obtain ⟨part, hpart, hspan⟩ := List.mem_filterMap.mp hinner
      have hread := (d.readFrom part hpart).of_isInfix (infix_call us ⟨.name word, name⟩
        ⟨.symbol .openParen, opening⟩ ⟨.symbol .closeParen, closing⟩)
      have hcontains := hread.contains hspan hlayout
      rw [extent_call] at hcontains
      exact hcontains

/-! ## Instructions -/

namespace Instruction

def value : Instruction → Expr
  | assign _ _ value _ | bare value _ => value

def span : Instruction → Span
  | assign _ _ _ span | bare _ span => span

/-- The span of an instruction is the extent of its segment. -/
lemma OfSegment.span_eq {i : Instruction} (h : OfSegment ts i) : i.span = extent ts := by
  cases h <;> rfl

/-- Every part of the expression of an instruction is made of lexemes of its segment. -/
lemma OfSegment.readFrom {i : Instruction} (h : OfSegment ts i) :
    ∀ part ∈ i.value.parts, part.ReadFrom ts := by
  cases h with
  | assign op value split =>
    subst split
    intro part hpart
    exact (value.readFrom part hpart).of_isInfix ((infix_right [] _ _).trans (infix_right [] _ _))
  | increment | decrement =>
    rw [Instruction.value, Expr.parts, List.forall_mem_singleton]
    trivial
  | bare value => exact value.readFrom

/-- The span of an instruction contains the spans in its expression. -/
lemma OfSegment.contains {i : Instruction} (h : OfSegment us i) (hus : Layout start text us) :
    ∀ span ∈ i.value.spans, i.span.Contains span := by
  intro span hspan
  obtain ⟨part, hpart, hspan⟩ := List.mem_filterMap.mp hspan
  rw [h.span_eq]
  exact (h.readFrom part hpart).contains hspan hus

end Instruction

/-- What holds of lexemes one after the other holds of those in one segment and a later one. -/
lemma segments_pairwise {R : Lexeme → Lexeme → Prop} (h : ts.Pairwise R) :
    (segments ts).Pairwise fun us vs => ∀ u ∈ us, ∀ v ∈ vs, R u v := by
  induction h with
  | nil => exact List.pairwise_singleton _ _
  | @cons t ts ht _ ih =>
    rw [segments]
    split_ifs
    · exact List.pairwise_cons.mpr ⟨by simp, ih⟩
    cases hts : segments ts with
    | nil => exact List.pairwise_singleton _ _
    | cons first others =>
      rw [hts, List.pairwise_cons] at ih
      -- The lexeme joins the first segment, and it is before all lexemes of the others.
      refine List.pairwise_cons.mpr ⟨fun vs hvs u hu v hv => ?_, ih.2⟩
      rcases List.mem_cons.mp hu with rfl | hu
      · have hin : vs ∈ segments ts := hts ▸ List.mem_cons_of_mem _ hvs
        exact ht v ((infix_of_mem_segments hin).subset hv)
      · exact ih.1 vs hvs u hu v hv

lemma infix_of_mem_nonemptySegments (h : us ∈ nonemptySegments ts) : us <:+: ts ∧ us ≠ [] := by
  rw [nonemptySegments, ← segments_eq_splitOnP, List.mem_filter, decide_eq_true_eq] at h
  exact ⟨infix_of_mem_segments h.1, h.2⟩

/-- Segments of a text do not overlap, and come in order. -/
lemma nonemptySegments_extents (h : Layout start text ts) :
    ((nonemptySegments ts).map extent).Pairwise fun s t => s.stop ≤ t.start := by
  rw [List.pairwise_map]
  have hpairs : (nonemptySegments ts).Pairwise
      fun us vs => ∀ u ∈ us, ∀ v ∈ vs, u.span.stop ≤ v.span.start := by
    rw [nonemptySegments, ← segments_eq_splitOnP]
    exact (segments_pairwise h.pairwise).filter _
  refine hpairs.imp_of_mem fun hus hvs hpair => ?_
  have hu := (infix_of_mem_nonemptySegments hus).2
  have hv := (infix_of_mem_nonemptySegments hvs).2
  rw [extent_eq hu, extent_eq hv]
  exact hpair _ (List.getLast_mem hu) _ (List.head_mem hv)

/-- Instructions have the extents of their segments. -/
lemma spans_eq_map_extent {segments : List (List Lexeme)} {is : List Instruction}
    (h : List.Forall₂ Instruction.OfSegment segments is) :
    is.map Instruction.span = segments.map extent := by
  induction h with
  | nil => rfl
  | cons hi _ ih => rw [List.map_cons, List.map_cons, ih, hi.span_eq]

/-- The span of an instruction is that of some characters, and the spans in it are within. -/
structure Instruction.Placed (text : String) (i : Instruction) : Prop where
  span : i.span.Fits text
  nonempty : i.span.start < i.span.stop
  value : i.value.Placed text
  contains : ∀ inner ∈ i.value.spans, i.span.Contains inner

/-- An instruction of a segment of a text is placed in the text. -/
lemma Instruction.OfSegment.placed {text : String} {i : Instruction} (h : OfSegment us i)
    (hts : Layout 0 text.toList ts) (hus : us <:+: ts) (hne : us ≠ []) : i.Placed text := by
  obtain ⟨part, hpart, hmarks⟩ := hts.marks_extent hus hne
  obtain ⟨_, _, _, -, hlayout⟩ := hts.of_isInfix hus
  refine ⟨?_, ?_, ?_, h.contains hlayout⟩
  · rw [h.span_eq]
    exact hmarks.cutsOut.toFits
  · rw [h.span_eq]
    obtain ⟨before, after, -, hspan⟩ := hmarks
    have hwidth := width_pos hpart
    rw [hspan]
    show 0 + width before < 0 + width (before ++ part)
    rw [width_append]
    omega
  · exact Expr.placed_of_readFrom hts fun p hp => (h.readFrom p hp).of_isInfix hus

/-! ## Texts -/

/-- The text of a condition can be scanned, and its lexemes derive the condition. -/
lemma exists_lexemes_of_parseCondition {text : String} {e : Expr}
    (h : parseCondition text = .ok e) :
    ∃ ts, Lexeme.ofText text = .ok ts ∧ Derives .condition ts e := by
  cases hts : Lexeme.ofText text with
  | error error =>
    rw [parseCondition, hts] at h
    cases h
  | ok ts => exact ⟨ts, rfl, (parseCondition_eq_ok_iff hts).mp h⟩

/-- The text of a statement can be scanned, and its segments are those of the instructions. -/
lemma exists_lexemes_of_parseStatement {text : String} {is : List Instruction}
    (h : parseStatement text = .ok is) :
    ∃ ts, Lexeme.ofText text = .ok ts ∧
      List.Forall₂ Instruction.OfSegment (nonemptySegments ts) is := by
  cases hts : Lexeme.ofText text with
  | error error =>
    rw [parseStatement, hts] at h
    cases h
  | ok ts => exact ⟨ts, rfl, ((parseStatement_eq_ok_iff hts).mp h).2⟩

/-- A condition is placed in its text. -/
theorem placed_of_parseCondition {text : String} {e : Expr} (h : parseCondition text = .ok e) :
    e.Placed text := by
  obtain ⟨ts, hts, d, rfl⟩ := exists_lexemes_of_parseCondition h
  exact Expr.placed_of_readFrom (layout_of_scan hts) d.readFrom

/-- Instructions are placed in their text, one after the other. -/
theorem placed_of_parseStatement {text : String} {is : List Instruction}
    (h : parseStatement text = .ok is) :
    (∀ i ∈ is, i.Placed text) ∧ is.Pairwise fun i j => i.span.stop ≤ j.span.start := by
  obtain ⟨ts, hts, hall⟩ := exists_lexemes_of_parseStatement h
  have hlayout := layout_of_scan hts
  constructor
  · intro i hi
    obtain ⟨us, hus, hsegment⟩ := exists_ofSegment_of_mem hall hi
    obtain ⟨hrow, hne⟩ := infix_of_mem_nonemptySegments hus
    exact hsegment.placed hlayout hrow hne
  · have hspans := nonemptySegments_extents hlayout
    rw [← spans_eq_map_extent hall, List.pairwise_map] at hspans
    exact hspans

/-- Every span that parsing a text gives is that of the right characters of the text. A name has
the span of the name and a call that from its name to its closing parenthesis, with the arguments
inside. The spans of instructions are in order and do not overlap, and the spans in an instruction
are inside its own. The span of an error can be cut out of the text. -/
theorem parse_spans (text : String) :
    (∀ e, parseCondition text = .ok e → e.Placed text) ∧
    (∀ is, parseStatement text = .ok is →
      (∀ i ∈ is, i.Placed text) ∧ is.Pairwise fun i j => i.span.stop ≤ j.span.start) ∧
    (∀ error, parseCondition text = .error error ∨ parseStatement text = .error error →
      error.span.Fits text) := by
  refine ⟨fun e => placed_of_parseCondition, fun is => placed_of_parseStatement, ?_⟩
  rintro error (h | h)
  · exact fits_of_parseCondition_eq_error h
  · exact fits_of_parseStatement_eq_error h

/-- Two instructions, the first with a call that has a name in it. -/
theorem parse_spans_call :
    ∃ is, parseStatement "x = Math.max( i, 2 ); x++" = .ok is ∧
      is.map Instruction.span = [⟨0, 20⟩, ⟨22, 25⟩] ∧
      is.map (fun i => i.value.spans) = [[⟨4, 20⟩, ⟨14, 15⟩], []] ∧
      (∀ i ∈ is, i.Placed "x = Math.max( i, 2 ); x++") ∧
      is.Pairwise fun i j => i.span.stop ≤ j.span.start := by
  have hspans : (parseStatement "x = Math.max( i, 2 ); x++").toOption.map
      (fun is => (is.map Instruction.span, is.map fun i => i.value.spans)) =
        some ([⟨0, 20⟩, ⟨22, 25⟩], [[⟨4, 20⟩, ⟨14, 15⟩], []]) := by
    decide +kernel
  obtain ⟨is, his, hmap⟩ := Option.map_eq_some_iff.mp hspans
  have hok := eq_ok_of_toOption_eq_some his
  obtain ⟨hplaced, horder⟩ := (parse_spans _).2.1 is hok
  exact ⟨is, hok, congrArg Prod.fst hmap, congrArg Prod.snd hmap, hplaced, horder⟩

end BlockLang
