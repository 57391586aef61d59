import BlockLang.Proofs.Expr.Abbreviations
import BlockLang.Proofs.Number.Positional
import BlockLang.Proofs.Number.Shortest

/-!
# Numbers in code

The text of a number is a condition. Main statement: the text that labels show for a finite number
other than zero is a condition with the number as its value.
-/

namespace BlockLang

open Float.Model Float.Model.UnpackedFloat

/-! ## Decimals -/

namespace Decimal

open Lexeme (isDecimalPart takeWhile_dropWhile_append)

variable {d : Decimal}

/-- Digits are read as a whole number. -/
lemma ofText?_of_isDigit {digits : List Char} (hne : digits ≠ []) (h : ∀ c ∈ digits, c.isDigit) :
    ofText? digits = some ⟨value digits, 0⟩ := by
  have hend : ∀ c ∈ ([] : List Char).head?, c.isDigit = false := by simp
  obtain ⟨htake, hdrop⟩ := takeWhile_dropWhile_append h hend
  rw [List.append_nil] at htake hdrop
  have hempty : digits.isEmpty = false := by simpa using hne
  simp [ofText?, htake, hdrop, hempty, exponentOfText?]

/-- Digits with a point among them are read with as many decimal places as there are behind the
point. -/
lemma ofText?_of_isPointed {whole fraction : List Char} (h : IsPointed whole fraction) :
    ofText? (whole ++ '.' :: fraction) =
      some ⟨value (whole ++ fraction), -fraction.length⟩ := by
  have hpoint : ∀ c ∈ ('.' :: fraction).head?, c.isDigit = false := by simp
  obtain ⟨htake, hdrop⟩ := takeWhile_dropWhile_append h.whole_digits hpoint
  have hend : ∀ c ∈ ([] : List Char).head?, c.isDigit = false := by simp
  obtain ⟨htake', hdrop'⟩ := takeWhile_dropWhile_append h.fraction_digits hend
  rw [List.append_nil] at htake' hdrop'
  have hempty : whole.isEmpty = false := by simpa using h.whole_ne_nil
  simp [ofText?, htake, hdrop, htake', hdrop', hempty, exponentOfText?]

/-- A text that is read as a decimal, with a digit in front and no exponent. -/
structure Reads (text : List Char) (d : Decimal) : Prop where
  first : ∀ c ∈ text.head?, c.isDigit
  ne_nil : text ≠ []
  parts : ∀ c ∈ text, isDecimalPart c
  read : ofText? text = some d

/-- A text of digits is a number from its first character to its last. -/
lemma reads_of_isDigit {digits : List Char} (hne : digits ≠ []) (h : ∀ c ∈ digits, c.isDigit) :
    Reads digits ⟨value digits, 0⟩ where
  first c hc := h c (List.mem_of_mem_head? hc)
  ne_nil := hne
  parts c hc := by simp [isDecimalPart, h c hc]
  read := ofText?_of_isDigit hne h

/-- So is one with a point among its digits. -/
lemma reads_of_isPointed {whole fraction : List Char} (h : IsPointed whole fraction) :
    Reads (whole ++ '.' :: fraction) ⟨value (whole ++ fraction), -fraction.length⟩ where
  first c hc := by
    rw [List.head?_append_of_ne_nil _ h.whole_ne_nil] at hc
    exact h.whole_digits c (List.mem_of_mem_head? hc)
  ne_nil := by simp
  parts c hc := by
    rcases List.mem_append.mp hc with hc | hc
    · simp [isDecimalPart, h.whole_digits c hc]
    · rcases List.mem_cons.mp hc with rfl | hc
      · rfl
      · simp [isDecimalPart, h.fraction_digits c hc]
  read := ofText?_of_isPointed h

/-- What is written by position is read as a decimal that is equal to the one written. -/
lemma exists_reads_positional (hd : 0 < d.digits) :
    ∃ d', Reads d.positional d' ∧ d'.toRat = d.toRat := by
  obtain ⟨n, k⟩ := d
  have hn : 0 < n := hd
  by_cases hk : 0 ≤ k
  · obtain ⟨k, rfl⟩ := Int.eq_ofNat_of_zero_le hk
    have hdigits : ∀ c ∈ numeral n ++ List.replicate k '0', c.isDigit := fun c hc =>
      (List.mem_append.mp hc).elim isDigit_of_mem_numeral isDigit_of_mem_zeros
    have hvalue : value (numeral n ++ List.replicate k '0') = 10 ^ k * n := by
      rw [value_append, value_zeros, value_numeral, List.length_replicate, Nat.add_zero]
    have htext : positional ⟨n, k⟩ = numeral n ++ List.replicate k '0' := if_pos hk
    rw [htext]
    refine ⟨_, reads_of_isDigit (by simp [numeral_ne_nil]) hdigits, ?_⟩
    rw [hvalue, toRat, toRat, zpow_zero, zpow_natCast]
    push_cast
    ring
  · obtain ⟨places, rfl⟩ := Int.exists_eq_neg_ofNat (Int.not_le.mp hk).le
    have hplaces : 0 < places := by omega
    obtain ⟨whole, fraction, htext, hpointed, hlength, hvalue⟩ := exists_isPointed hn hplaces
    rw [htext]
    refine ⟨_, reads_of_isPointed hpointed, ?_⟩
    rw [hvalue, hlength]

end Decimal

/-! ## Lexemes -/

namespace Lexeme

variable {text : List Char} {d : Decimal} {start : Nat}

/-- What decimals are made of belongs to the number. -/
lemma numberTail_of_parts (h : ∀ c ∈ text, isDecimalPart c) : numberTail text = text := by
  have hend : ∀ c ∈ ([] : List Char).head?, isDecimalPart c = false := by simp
  obtain ⟨htake, hdrop⟩ := takeWhile_dropWhile_append h hend
  rw [List.append_nil] at htake hdrop
  rw [numberTail_eq, htake, hdrop, exponentPart, List.append_nil]

/-- A text that is a number is scanned into one lexeme. -/
lemma scan_number (h : d.Reads text) :
    scan start text = .ok [⟨.number d.toFloat, ⟨start, start + width text⟩⟩] := by
  obtain ⟨hfirst, hne, hparts, hread⟩ := h
  obtain ⟨c, text, rfl⟩ := List.exists_cons_of_ne_nil hne
  have hc : c.isDigit := hfirst c rfl
  have htail : numberTail text = text :=
    numberTail_of_parts fun c' hc' => hparts c' (List.mem_cons_of_mem c hc')
  have hnumber : first c text = (.ok (.number d.toFloat), text.length) := by
    rw [first, if_pos (by simp [hc])]
    simp only [htail, hread]
  have hblank : ¬ isBlank c := fun hblank => by
    have hends := goesOn_of_isBlank hblank
    rw [goesOn_of_isDigit hc] at hends
    cases hends
  rw [scan_ok hblank hnumber, List.take_length, List.drop_length, scan]
  rfl

/-- A minus sign before a digit is a lexeme of its own. -/
lemma first_minus (h : ∀ c ∈ text.head?, c.isDigit) :
    first '-' text = (.ok (.symbol .minus), 0) := by
  cases text with
  | nil => rfl
  | cons c text =>
    have hc : c.isDigit := h c rfl
    have hassign : c ≠ '=' := by
      rintro rfl
      cases hc
    have hminus : c ≠ '-' := by
      rintro rfl
      cases hc
    have hsymbol : symbolOf? '-' (c :: text) = some (.minus, []) := by
      simp [symbolOf?, hassign, hminus]
    rw [first, hsymbol]
    rfl

end Lexeme

/-! ## Conditions -/

lemma derives_number (value : Float) (span : Span) :
    Derives .unary [⟨.number value, span⟩] (.number value) :=
  Derives.of_power_le (m := .primary) ⟨.number value rfl, rfl⟩ (by decide)

/-- A minus before a number is an operator. -/
lemma derives_minus_number (value : Float) (minus span : Span) :
    Derives .unary [⟨.symbol .minus, minus⟩, ⟨.number value, span⟩]
      (.unary .negate (.number value)) := by
  obtain ⟨inner, hinner⟩ := derives_number value span
  exact ⟨.unary .negate inner rfl, congrArg (Expr.unary .negate) hinner⟩

section

variable {text : List Char} {d : Decimal}

/-- A text that is a number stands for it. -/
lemma parseCondition_number (h : d.Reads text) :
    parseCondition (.ofList text) = .ok (.number d.toFloat) := by
  have hread : Lexeme.ofText (.ofList text) =
      .ok [⟨.number d.toFloat, ⟨0, 0 + width text⟩⟩] := by
    rw [Lexeme.ofText, String.toList_ofList]
    exact Lexeme.scan_number h
  exact (parseCondition_eq_ok_iff hread).mpr ((derives_number _ _).of_power_le (by decide))

/-- With a minus in front it stands for the number taken negatively. -/
lemma parseCondition_minus_number (h : d.Reads text) :
    parseCondition (.ofList ('-' :: text)) = .ok (.unary .negate (.number d.toFloat)) := by
  have hread : Lexeme.ofText (.ofList ('-' :: text)) =
      .ok [⟨.symbol .minus, ⟨0, 1⟩⟩, ⟨.number d.toFloat, ⟨1, 1 + width text⟩⟩] := by
    rw [Lexeme.ofText, String.toList_ofList,
      Lexeme.scan_ok (by decide) (Lexeme.first_minus h.first)]
    show (Lexeme.scan 1 text).map _ = _
    rw [Lexeme.scan_number h]
    rfl
  exact (parseCondition_eq_ok_iff hread).mpr ((derives_minus_number _ _ _).of_power_le (by decide))

end

/-- The text that labels show for a finite number other than zero has the number as its value. -/
theorem exists_parseCondition_labelText {a : Float} {s : Sign} {m : ℕ} {e : ℤ} {hm : 0 < m}
    (h : a.toModel.unpack = .finite s m e hm) :
    ∃ expr, parseCondition (Number.labelText a) = .ok expr ∧
      ∀ x scopes, expr.eval x scopes = .ok (.number a) := by
  have hstored := Number.stored_of_toModel_unpack h
  obtain ⟨d, hreads, hrat⟩ :=
    Decimal.exists_reads_positional (Number.digits_shortest_pos hstored hm)
  have hfloat : d.toFloat = .ofModel (.pack (.finite .positive m e hm)) := by
    rw [Decimal.toFloat_eq_of_toRat_eq hrat, Number.toFloat_shortest hstored hm]
  have hwhole : Number.label.finite (Number.shortest m e hm) =
      (Number.shortest m e hm).positional := by
    show (Number.shortest m e hm).positional ++ (if _ then [] else []) = _
    rw [ite_self, List.append_nil]
  have htext : Number.labelText a =
      .ofList (Number.Style.sign s ++ (Number.shortest m e hm).positional) := by
    rw [Number.labelText, Number.Style.write, h, ← hwhole]
  have ha : Float.ofModel (.pack (.finite s m e hm)) = a := by
    rw [← h, Number.ofModel_pack_unpack]
  rw [htext]
  cases s with
  -- A negative number is read as a minus in front of its amount.
  | negative =>
    refine ⟨_, parseCondition_minus_number hreads, fun x scopes => ?_⟩
    have hneg : -d.toFloat = a := by
      rw [hfloat, Number.neg_ofModel_pack (hstored.model_unpack_pack .positive hm)]
      exact ha
    rw [Expr.eval, Expr.eval, ← hneg]
    rfl
  | positive =>
    refine ⟨_, parseCondition_number hreads, fun x scopes => ?_⟩
    rw [Expr.eval, hfloat, ha]

end BlockLang
