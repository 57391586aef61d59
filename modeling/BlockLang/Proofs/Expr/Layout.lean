import BlockLang.Proofs.Expr.Spelling

/-!
# The lexemes of a text

A text that can be scanned consists of the characters of its lexemes and of blanks between them.
Main statements: the lexemes that a text is scanned into are laid out in it in this way, and the
reason why a text cannot be scanned is about some of its characters.
-/

namespace BlockLang

/-! ## Spans in a text -/

@[simp]
lemma width_nil : width [] = 0 :=
  rfl

@[simp]
lemma width_cons (c : Char) (text : List Char) : width (c :: text) = c.utf8Size + width text :=
  rfl

@[simp]
lemma width_append (text text' : List Char) :
    width (text ++ text') = width text + width text' := by
  induction text with
  | nil => simp
  | cons c text ih => simp [ih, Nat.add_assoc]

/-- A text with characters has a width. -/
lemma width_pos {text : List Char} (h : text ≠ []) : 0 < width text := by
  cases text with
  | nil => exact absurd rfl h
  | cons c text => exact Nat.add_pos_left c.utf8Size_pos _

/-- The width of a text is the length of its UTF-8 form. -/
lemma utf8ByteSize_ofList (text : List Char) : (String.ofList text).utf8ByteSize = width text := by
  induction text with
  | nil => rfl
  | cons c text ih =>
    rw [String.ofList_cons, String.utf8ByteSize_append, ih]
    simp

/-- The width of a text is counted in bytes. -/
lemma width_toList (text : String) : width text.toList = text.utf8ByteSize := by
  rw [← utf8ByteSize_ofList, String.ofList_toList]

namespace Span

/-- The span is that of `part` in a text whose first character is byte `start` of a larger one. -/
def Marks (start : Nat) (text : List Char) (span : Span) (part : List Char) : Prop :=
  ∃ before after, text = before ++ (part ++ after) ∧
    span = ⟨start + width before, start + width (before ++ part)⟩

/-- The span can be cut out of the text: its ends are in order and each is between two characters
or at an end of the text. -/
structure Fits (text : String) (span : Span) : Prop where
  start_le_stop : span.start ≤ span.stop
  stop_le : span.stop ≤ text.utf8ByteSize
  start_valid : String.Pos.Raw.IsValid text ⟨span.start⟩
  stop_valid : String.Pos.Raw.IsValid text ⟨span.stop⟩

/-- The span can be cut out of the text, and its bytes are those of `part`. -/
structure CutsOut (text : String) (span : Span) (part : String) : Prop extends span.Fits text where
  bytes : text.toByteArray.extract span.start span.stop = part.toByteArray

def Contains (outer inner : Span) : Prop :=
  outer.start ≤ inner.start ∧ inner.stop ≤ outer.stop

variable {start : Nat} {text part : List Char} {span : Span}

/-- A part of a text is the same part with more text in front. -/
lemma Marks.append_left (front : List Char) (h : span.Marks (start + width front) text part) :
    span.Marks start (front ++ text) part := by
  obtain ⟨before, after, rfl, rfl⟩ := h
  exact ⟨front ++ before, after, by simp, by simp [Nat.add_assoc]⟩

/-- A part of a text is the same part with more text behind. -/
lemma Marks.append_right (back : List Char) (h : span.Marks start text part) :
    span.Marks start (text ++ back) part := by
  obtain ⟨before, after, rfl, rfl⟩ := h
  exact ⟨before, after ++ back, by simp, rfl⟩

/-- A part that is marked in a text can be cut out of it. -/
lemma Marks.cutsOut {text : String} (h : span.Marks 0 text.toList part) :
    span.CutsOut text (.ofList part) := by
  obtain ⟨before, after, htext, rfl⟩ := h
  obtain rfl : text = .ofList before ++ .ofList part ++ .ofList after := by
    rw [← String.ofList_append, ← String.ofList_append, List.append_assoc, ← htext,
      String.ofList_toList]
  have hvalid (s t : String) : String.Pos.Raw.IsValid (s ++ t) ⟨s.utf8ByteSize⟩ :=
    String.Pos.Raw.isValid_rawEndPos.append_right t
  -- The text is cut in two places, and the span reaches from the one to the other.
  have hstart : 0 + width before = (String.ofList before).utf8ByteSize := by
    rw [utf8ByteSize_ofList, Nat.zero_add]
  have hstop : 0 + width (before ++ part) =
      (String.ofList before).utf8ByteSize + (String.ofList part).utf8ByteSize := by
    rw [utf8ByteSize_ofList, utf8ByteSize_ofList, Nat.zero_add, width_append]
  rw [hstart, hstop]
  refine ⟨⟨Nat.le_add_right _ _, ?_, ?_, ?_⟩, ?_⟩
  · rw [String.utf8ByteSize_append, String.utf8ByteSize_append]
    exact Nat.le_add_right _ _
  · rw [String.append_assoc]
    exact hvalid _ _
  · show String.Pos.Raw.IsValid _ ⟨_ + _⟩
    rw [← String.utf8ByteSize_append]
    exact hvalid _ _
  · have hfront := ByteArray.extract_append_eq_left (a := (String.ofList part).toByteArray)
      (b := (String.ofList after).toByteArray) rfl
    rw [String.append_assoc, String.toByteArray_append, String.toByteArray_append]
    exact ByteArray.extract_append_size_add (i := 0).trans hfront

end Span

namespace Lexeme

variable {text : List Char}

/-! ## Layout -/

/-- The text is the lexemes with blanks between them. Its first character is byte `start` of a
larger text. -/
inductive Layout : Nat → List Char → List Lexeme → Prop
  | nil {start gap} (blank : gap.all isBlank) : Layout start gap []
  | cons {start gap part rest token lexemes} (blank : gap.all isBlank) (spells : Spells token part)
      (others : Layout (start + width (gap ++ part)) rest lexemes) :
      Layout start (gap ++ (part ++ rest))
        (⟨token, ⟨start + width gap, start + width (gap ++ part)⟩⟩ :: lexemes)

/-- A blank in front belongs to the gap before the first lexeme. -/
lemma Layout.cons_blank {start : Nat} {lexemes : List Lexeme} {c : Char} (hc : isBlank c)
    (h : Layout (start + c.utf8Size) text lexemes) : Layout start (c :: text) lexemes := by
  cases h with
  | nil blank => exact .nil (by simp [hc, blank])
  | @cons _ gap part rest token lexemes blank spells others =>
    have hgap : (c :: gap).all isBlank := by simp [hc, blank]
    have h : Layout (start + width (c :: gap ++ part)) rest lexemes := by
      simpa [Nat.add_assoc] using others
    simpa [Nat.add_assoc] using Layout.cons hgap spells h

/-- The lexemes that a text is scanned into are laid out in it. -/
theorem layout_of_scan {start : Nat} {lexemes : List Lexeme} (h : scan start text = .ok lexemes) :
    Layout start text lexemes := by
  fun_induction scan start text generalizing lexemes with
  | case1 =>
    cases h
    exact .nil rfl
  | case2 start c text hc ih => exact (ih h).cons_blank hc
  | case3 => cases h
  | case4 start c text hc more span token hfirst =>
    rename_i ih
    cases hrest : scan span.stop (text.drop more) with
    | error =>
      rw [hrest] at h
      cases h
    | ok others =>
      rw [hrest] at h
      cases h
      have hspells := spells_of_first hfirst
      -- There are no blanks before the lexeme, because `scan` passed over them one by one.
      have hlayout : Layout start ([] ++ (c :: text.take more ++ text.drop more))
          (⟨token, span⟩ :: others) := .cons rfl hspells (ih hrest)
      rw [List.nil_append, List.cons_append, List.take_append_drop] at hlayout
      exact hlayout

/-- The reason why a text cannot be scanned has the span of some of its characters. -/
theorem marks_of_scan_eq_error {start : Nat} {error : ParseError}
    (h : scan start text = .error error) : ∃ part, error.span.Marks start text part := by
  fun_induction scan start text with
  | case1 => cases h
  | case2 start c text hc ih =>
    obtain ⟨part, hpart⟩ := ih h
    exact ⟨part, hpart.append_left [c]⟩
  | case3 start c text hc more span cause hfirst =>
    cases h
    exact ⟨c :: text.take more, [], text.drop more, by simp, rfl⟩
  | case4 start c text hc more span token hfirst =>
    rename_i ih
    cases hrest : scan span.stop (text.drop more) with
    | error =>
      rw [hrest] at h
      cases h
      obtain ⟨part, hpart⟩ := ih hrest
      have hmarks := hpart.append_left (c :: text.take more)
      rw [List.cons_append, List.take_append_drop] at hmarks
      exact ⟨part, hmarks⟩
    | ok others =>
      rw [hrest] at h
      cases h

namespace Layout

variable {start : Nat} {lexemes us vs : List Lexeme}

/-- Lexemes can be taken apart anywhere, and their text with them. -/
lemma of_append (h : Layout start text (us ++ vs)) :
    ∃ front back, text = front ++ back ∧ Layout start front us ∧
      Layout (start + width front) back vs := by
  induction us generalizing start text with
  | nil => exact ⟨[], text, rfl, .nil rfl, h⟩
  | cons u us ih =>
    cases h with
    | @cons _ gap part rest token _ blank spells others =>
      obtain ⟨front, back, rfl, hus, hvs⟩ := ih others
      refine ⟨gap ++ (part ++ front), back, by simp, .cons blank spells hus, ?_⟩
      simpa [Nat.add_assoc] using hvs

/-- Some lexemes in a row are laid out in a part of the text. -/
lemma of_isInfix (h : Layout start text lexemes) (hus : us <:+: lexemes) :
    ∃ before part after, text = before ++ (part ++ after) ∧
      Layout (start + width before) part us := by
  obtain ⟨front, back, rfl⟩ := hus
  obtain ⟨text, after, rfl, h, -⟩ := h.of_append
  obtain ⟨before, part, rfl, -, h⟩ := h.of_append
  exact ⟨before, part, after, List.append_assoc _ _ _, h⟩

/-- A lexeme of a text begins in it and is not empty. -/
lemma start_le (h : Layout start text lexemes) :
    ∀ t ∈ lexemes, start ≤ t.span.start ∧ t.span.start < t.span.stop := by
  induction h with
  | nil => simp
  | @cons start gap part rest token lexemes blank spells others ih =>
    have hpart := width_pos spells.ne_nil
    rw [List.forall_mem_cons, width_append]
    refine ⟨⟨Nat.le_add_right _ _, ?_⟩, fun t ht => ?_⟩
    · show start + width gap < start + (width gap + width part)
      omega
    · have h := ih t ht
      exact ⟨(Nat.le_add_right _ _).trans h.1, h.2⟩

/-- Lexemes are in order and do not overlap. -/
theorem pairwise (h : Layout start text lexemes) :
    lexemes.Pairwise fun t u => t.span.stop ≤ u.span.start := by
  induction h with
  | nil => exact .nil
  | cons blank spells others ih =>
    exact List.pairwise_cons.mpr ⟨fun u hu => (others.start_le u hu).1, ih⟩

end Layout

end Lexeme

end BlockLang
