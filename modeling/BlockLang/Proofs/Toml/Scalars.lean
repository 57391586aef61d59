import BlockLang.Proofs.Expr.Spelling
import BlockLang.Proofs.Number.Positional
import BlockLang.Proofs.Number.Shortest
import BlockLang.Toml.Scalar
import BlockLang.Toml.Writer

/-!
# Numbers and truth values in documents

A number is written with all its digits by position, which are read as a decimal. Main statement:
what is written for a number is read as the number.
-/

namespace BlockLang

open Float.Model Float.Model.UnpackedFloat

namespace Toml

open Decimal (IsPointed)

/-- What is written for a positive number: the digits before and after the point make up a decimal
that is equal to the one to be written. -/
lemma exists_finite_eq {d : Decimal} (hd : 0 < d.digits) :
    ∃ whole fraction, numberStyle.finite d = whole ++ '.' :: fraction ∧ IsPointed whole fraction ∧
      Decimal.toRat ⟨Decimal.value (whole ++ fraction), -fraction.length⟩ = d.toRat := by
  obtain ⟨n, k⟩ := d
  have hn : 0 < n := hd
  by_cases hk : 0 ≤ k
  · obtain ⟨k, rfl⟩ := Int.eq_ofNat_of_zero_le hk
    refine ⟨Decimal.numeral n ++ List.replicate k '0', ['0'], ?_, Decimal.isPointed_zeros hn k, ?_⟩
    · show Decimal.positional ⟨n, k⟩ ++ (if 0 ≤ (k : ℤ) then ['.', '0'] else []) = _
      rw [Decimal.positional, if_pos hk, if_pos hk]
      rfl
    · have hvalue : Decimal.value (Decimal.numeral n ++ List.replicate k '0' ++ ['0']) =
          10 * (10 ^ k * n) := by
        rw [Decimal.value_append, Decimal.value_append, Decimal.value_zeros, Decimal.value_numeral,
          List.length_replicate]
        rfl
      have htenth : (10 : ℚ) ^ (-(['0'].length : ℤ)) = 10⁻¹ := zpow_neg_one 10
      rw [hvalue, Decimal.toRat, Decimal.toRat, htenth, zpow_natCast]
      push_cast
      ring
  · obtain ⟨places, rfl⟩ := Int.exists_eq_neg_ofNat (Int.not_le.mp hk).le
    have hplaces : 0 < places := by omega
    obtain ⟨whole, fraction, htext, hpointed, hlength, hvalue⟩ :=
      Decimal.exists_isPointed hn hplaces
    refine ⟨whole, fraction, ?_, hpointed, ?_⟩
    · show Decimal.positional ⟨n, -places⟩ ++ (if 0 ≤ -(places : ℤ) then ['.', '0'] else []) = _
      rw [htext, if_neg hk, List.append_nil]
    · rw [hvalue, hlength]

/-! ## Reading digits -/

/-- Digits without underscores are not grouped. -/
lemma ungroup?_of_not_mem {text : List Char} (hne : text ≠ []) (h : '_' ∉ text) :
    ungroup? text = some text := by
  induction text with
  | nil => exact absurd rfl hne
  | cons c text ih =>
    have hc : c ≠ '_' := fun hc => h (hc ▸ List.mem_cons_self)
    have htext : '_' ∉ text := fun hmem => h (List.mem_cons_of_mem c hmem)
    cases text with
    | nil => simp [ungroup?, hc]
    | cons d text =>
      have hd : d ≠ '_' := fun hd => htext (hd ▸ List.mem_cons_self)
      rw [ungroup?, ih (by simp) htext]
      · simp [hc]
      · simp
      · rintro rest ⟨⟩
        exact hd rfl

lemma ne_of_isDigit {c d : Char} (hc : c.isDigit) (hd : d.isDigit = false) : c ≠ d := by
  rintro rfl
  rw [hc] at hd
  cases hd

lemma not_mem_of_isDigit {digits : List Char} {d : Char} (h : ∀ c ∈ digits, c.isDigit)
    (hd : d.isDigit = false) : d ∉ digits :=
  fun hmem => ne_of_isDigit (h d hmem) hd rfl

lemma digits?_of_isDigit {digits : List Char} (hne : digits ≠ []) (h : ∀ c ∈ digits, c.isDigit) :
    digits? digits = some digits := by
  rw [digits?, ungroup?_of_not_mem hne (not_mem_of_isDigit h rfl)]
  simpa [Option.filter] using h

/-- The digits before the point are those of a whole number. -/
lemma wholeDigits?_of_isPointed {whole fraction : List Char} (h : IsPointed whole fraction) :
    wholeDigits? whole = some whole := by
  rw [wholeDigits?, digits?_of_isDigit h.whole_ne_nil h.whole_digits]
  simpa [Option.filter, or_iff_not_imp_left] using h.head

section

variable {whole fraction : List Char} (h : IsPointed whole fraction)
include h

/-- The decimal with the digits before and after a point. -/
lemma decimalOfText?_of_isPointed : decimalOfText? (whole ++ '.' :: fraction) =
    some ⟨Decimal.value (whole ++ fraction), -fraction.length⟩ := by
  have hwhole : ∀ c ∈ whole, (c.isDigit || c == '_') = true := fun c hc => by
    simp [h.whole_digits c hc]
  have hpoint : ∀ c ∈ ('.' :: fraction).head?, (c.isDigit || c == '_') = false := by simp
  obtain ⟨htake, hdrop⟩ := Lexeme.takeWhile_dropWhile_append hwhole hpoint
  have hfraction : ∀ c ∈ fraction, (c.isDigit || c == '_') = true := fun c hc => by
    simp [h.fraction_digits c hc]
  have hend : ∀ c ∈ ([] : List Char).head?, (c.isDigit || c == '_') = false := by simp
  obtain ⟨htake', hdrop'⟩ := Lexeme.takeWhile_dropWhile_append hfraction hend
  rw [List.append_nil] at htake' hdrop'
  simp only [decimalOfText?, htake, hdrop, htake', hdrop', wholeDigits?_of_isPointed h,
    digits?_of_isDigit h.fraction_ne_nil h.fraction_digits, exponentOfText?, Option.bind_eq_bind,
    Option.bind_some, Int.zero_sub, pure]

lemma splitSign_of_isPointed :
    splitSign (whole ++ '.' :: fraction) = (false, whole ++ '.' :: fraction) := by
  obtain ⟨c, whole, rfl⟩ := List.exists_cons_of_ne_nil h.whole_ne_nil
  have hc := h.whole_digits c List.mem_cons_self
  rw [List.cons_append, splitSign]
  · rintro rest ⟨⟩
    cases hc
  · rintro rest ⟨⟩
    cases hc

/-- What has a point is not a whole number. -/
lemma wholeDigits?_of_isPointed_append : wholeDigits? (whole ++ '.' :: fraction) = none := by
  have hunder : '_' ∉ whole ++ '.' :: fraction := by
    simp [not_mem_of_isDigit h.whole_digits, not_mem_of_isDigit h.fraction_digits]
  have hpoint : (whole ++ '.' :: fraction).all Char.isDigit = false := by
    simp only [List.all_append, List.all_cons, Bool.and_eq_false_iff]
    exact .inr (.inl rfl)
  rw [wholeDigits?, digits?, ungroup?_of_not_mem (by simp) hunder]
  simp only [Option.filter, hpoint, Bool.false_eq_true, if_false]

end

/-! ## What a number is not -/

/-- A date has no point. -/
lemma isDate_of_point {text : List Char} (h : '.' ∈ text) : isDate text = false := by
  unfold isDate
  split
  · rename_i y₁ y₂ y₃ y₄ m₁ m₂ d₁ d₂
    have hmem : '.' ∈ [y₁, y₂, y₃, y₄, m₁, m₂, d₁, d₂] := by simpa using h
    have hdigits : [y₁, y₂, y₃, y₄, m₁, m₂, d₁, d₂].all Char.isDigit = false :=
      List.all_eq_false.mpr ⟨'.', hmem, by decide⟩
    rw [hdigits]
    rfl
  · rfl

/-- A time of day has a colon. -/
lemma isTime_of_no_colon {text : List Char} (h : ':' ∉ text) : isTime text = false := by
  rw [isTime]
  split
  · rename_i second hdrop
    have hmem : ':' ∈ text.drop 5 := by
      rw [hdrop]
      exact List.mem_cons_self
    exact absurd (List.mem_of_mem_drop hmem) h
  · rfl

/-- What has a point, no colon and no letter is not a moment. -/
lemma isMoment_of_point {text : List Char} (h : '.' ∈ text)
    (hchars : ∀ c ∈ text, c ≠ ':' ∧ c ≠ 'T' ∧ c ≠ 't') : isMoment text = false := by
  have hcolon : ':' ∉ text := fun hmem => (hchars _ hmem).1 rfl
  have htime := isTime_of_no_colon hcolon
  rw [isMoment]
  split
  · rename_i mark time hdrop
    have hmem : mark ∈ text.drop 10 := by
      rw [hdrop]
      exact List.mem_cons_self
    obtain ⟨-, hupper, hlower⟩ := hchars mark (List.mem_of_mem_drop hmem)
    simpa [hupper, hlower] using htime
  · rw [isDate_of_point h, htime]
    rfl

section

variable {whole fraction : List Char} (h : IsPointed whole fraction)
include h

/-- A number that is written out has digits and a point. -/
lemma mem_of_isPointed {c : Char} (hc : c ∈ whole ++ '.' :: fraction) : c.isDigit ∨ c = '.' := by
  rcases List.mem_append.mp hc with hc | hc
  · exact .inl (h.whole_digits c hc)
  · rcases List.mem_cons.mp hc with rfl | hc
    · exact .inr rfl
    · exact .inl (h.fraction_digits c hc)

lemma not_mem_of_isPointed {c : Char} (hc : c.isDigit = false) (hpoint : c ≠ '.') :
    c ∉ whole ++ '.' :: fraction := by
  intro hmem
  rcases mem_of_isPointed h hmem with hdigit | rfl
  · exact ne_of_isDigit hdigit hc rfl
  · exact hpoint rfl

end

/-! ## Reading numbers -/

/-- A text is read as a number if it is not something else. -/
lemma scalarOfText?_of_floatOfText? {text : List Char} {a : Float}
    (htrue : text ≠ ['t', 'r', 'u', 'e']) (hfalse : text ≠ ['f', 'a', 'l', 's', 'e'])
    (hmoment : isMoment text = false) (hwhole : wholeOfText? text = none)
    (hfloat : floatOfText? text = some a) : scalarOfText? text = some (.float a) := by
  rw [scalarOfText?, if_neg htrue, if_neg hfalse, hmoment, integerOfText?, hwhole, hfloat]
  rfl

section

variable {whole fraction : List Char} (h : IsPointed whole fraction)
include h

/-- Digits with a point are not a whole number, whether or not they begin with a zero. -/
lemma wholeOfText?_of_isPointed (s : Sign) :
    wholeOfText? (Number.Style.sign s ++ (whole ++ '.' :: fraction)) = none := by
  cases s with
  | negative =>
    show ((wholeDigits? (whole ++ '.' :: fraction)).map _) = none
    rw [wholeDigits?_of_isPointed_append h]
    rfl
  | positive =>
    show wholeOfText? (whole ++ '.' :: fraction) = none
    by_cases hzero : whole.head? = some '0'
    · have hlength := h.head.resolve_right (not_not_intro hzero)
      obtain ⟨c, rfl⟩ := List.length_eq_one_iff.mp hlength
      obtain rfl : c = '0' := by simpa using hzero
      rfl
    · rw [wholeOfText?, splitSign_of_isPointed h]
      · show ((wholeDigits? (whole ++ '.' :: fraction)).map _) = none
        rw [wholeDigits?_of_isPointed_append h]
        rfl
      · intro mark digits heq
        apply hzero
        rw [← List.head?_append_of_ne_nil _ h.whole_ne_nil, heq]
        rfl

/-- Digits with a point are read as the nearest number, with the sign in front of them. -/
lemma floatOfText?_of_isPointed (s : Sign) {a : Float}
    (ha : Decimal.toFloat ⟨Decimal.value (whole ++ fraction), -fraction.length⟩ = a)
    (hfinite : (a == Number.infinity) = false) :
    floatOfText? (Number.Style.sign s ++ (whole ++ '.' :: fraction)) =
      some (match s with
        | .negative => -a
        | .positive => a) := by
  have hinf : whole ++ '.' :: fraction ≠ ['i', 'n', 'f'] := by
    intro heq
    exact not_mem_of_isPointed h (c := 'i') rfl (by decide) (heq ▸ List.mem_cons_self)
  have hnan : whole ++ '.' :: fraction ≠ ['n', 'a', 'n'] := by
    intro heq
    exact not_mem_of_isPointed h (c := 'n') rfl (by decide) (heq ▸ List.mem_cons_self)
  have hsplit : splitSign (Number.Style.sign s ++ (whole ++ '.' :: fraction)) =
      (match s with
        | .negative => true
        | .positive => false, whole ++ '.' :: fraction) := by
    cases s with
    | negative => rfl
    | positive => exact splitSign_of_isPointed h
  simp only [floatOfText?, hsplit, if_neg hinf, if_neg hnan, decimalOfText?_of_isPointed h,
    Option.bind_some, ha, hfinite, Bool.false_and, Bool.false_eq_true, if_false, Option.map_some]
  cases s <;> rfl

/-- A sign and digits with a point are read as a number. -/
lemma scalarOfText?_of_isPointed (s : Sign) {a : Float}
    (ha : Decimal.toFloat ⟨Decimal.value (whole ++ fraction), -fraction.length⟩ = a)
    (hfinite : (a == Number.infinity) = false) :
    scalarOfText? (Number.Style.sign s ++ (whole ++ '.' :: fraction)) =
      some (.float (match s with
        | .negative => -a
        | .positive => a)) := by
  have hmem (c : Char) (hc : c ∈ Number.Style.sign s ++ (whole ++ '.' :: fraction)) :
      c = '-' ∨ c.isDigit ∨ c = '.' := by
    rcases List.mem_append.mp hc with hc | hc
    · cases s with
      | negative => exact .inl (List.mem_singleton.mp hc)
      | positive => cases hc
    · exact .inr (mem_of_isPointed h hc)
  -- The point tells the text from a truth value, a date and an integer.
  have hpoint : '.' ∈ Number.Style.sign s ++ (whole ++ '.' :: fraction) := by simp
  apply scalarOfText?_of_floatOfText?
  · intro heq
    exact absurd (heq ▸ hpoint) (by decide)
  · intro heq
    exact absurd (heq ▸ hpoint) (by decide)
  · apply isMoment_of_point hpoint
    intro c hc
    rcases hmem c hc with rfl | hdigit | rfl
    · decide
    · exact ⟨ne_of_isDigit hdigit rfl, ne_of_isDigit hdigit rfl, ne_of_isDigit hdigit rfl⟩
    · decide
  · exact wholeOfText?_of_isPointed h s
  · exact floatOfText?_of_isPointed h s ha hfinite

end

/-- Numbers that have digits are not infinite. -/
lemma beq_infinity {u : UnpackedFloat} (hu : (Float.Model.pack u).unpack = u)
    (hfinite : u.beq (.infinity .positive) = false) :
    (Float.ofModel (.pack u) == Number.infinity) = false := by
  show (Float.Model.pack u).unpack.beq (Float.Model.pack (.infinity .positive)).unpack = false
  rw [hu, Number.model_unpack_pack_infinity, hfinite]

/-- A number is written with digits and a point, or as one of the names. -/
lemma exists_write_eq (a : Float) :
    (∃ s whole fraction, IsPointed whole fraction ∧
      numberStyle.write a = Number.Style.sign s ++ (whole ++ '.' :: fraction)) ∨
    numberStyle.write a ∈ [['n', 'a', 'n'], ['i', 'n', 'f'], ['-', 'i', 'n', 'f']] := by
  unfold Number.Style.write
  cases hunpack : a.toModel.unpack with
  | notANumber => exact .inr (by decide)
  | infinity s => exact .inr (by cases s <;> decide)
  | zero s =>
    exact .inl ⟨s, ['0'], ['0'], Decimal.isPointed_zero, rfl⟩
  | finite s m e hm =>
    obtain ⟨whole, fraction, htext, hpointed, -⟩ :=
      exists_finite_eq (Number.digits_shortest_pos (Number.stored_of_toModel_unpack hunpack) hm)
    exact .inl ⟨s, whole, fraction, hpointed, congrArg (Number.Style.sign s ++ ·) htext⟩

/-- What is written for a number is the text of the number. -/
theorem scalarOfText?_write (a : Float) :
    scalarOfText? (numberStyle.write a) = some (.float a) := by
  have ha := Number.ofModel_pack_unpack a
  unfold Number.Style.write
  cases hunpack : a.toModel.unpack with
  | notANumber =>
    rw [hunpack] at ha
    rw [← ha]
    exact scalarOfText?_of_floatOfText? (by decide) (by decide) rfl rfl rfl
  | infinity s =>
    rw [hunpack] at ha
    rw [← ha]
    cases s with
    | positive => exact scalarOfText?_of_floatOfText? (by decide) (by decide) rfl rfl rfl
    | negative =>
      have hneg := Number.neg_ofModel_pack (Number.model_unpack_pack_infinity .positive)
      have hvalue : floatOfText? ['-', 'i', 'n', 'f'] = some (-Number.infinity) := rfl
      exact scalarOfText?_of_floatOfText? (by decide) (by decide) rfl rfl
        (hvalue.trans (congrArg some hneg))
  | zero s =>
    rw [hunpack] at ha
    have hpack := Number.model_unpack_pack_zero .positive
    have hread := scalarOfText?_of_isPointed Decimal.isPointed_zero s rfl (beq_infinity hpack rfl)
    rw [← ha]
    cases s with
    | positive => exact hread
    | negative =>
      have hneg := Number.neg_ofModel_pack hpack
      exact hread.trans (congrArg (fun a => some (Value.float a)) hneg)
  -- The digits that are written have the value of the number, and that is what is read.
  | finite s m e hm =>
    rw [hunpack] at ha
    have hstored := Number.stored_of_toModel_unpack hunpack
    have hpack := hstored.model_unpack_pack .positive hm
    obtain ⟨whole, fraction, htext, hpointed, hrat⟩ :=
      exists_finite_eq (Number.digits_shortest_pos hstored hm)
    have hfloat := Decimal.toFloat_eq_of_toRat_eq hrat
    rw [Number.toFloat_shortest hstored hm] at hfloat
    have hread := scalarOfText?_of_isPointed hpointed s hfloat (beq_infinity hpack rfl)
    show scalarOfText? (Number.Style.sign s ++ numberStyle.finite (Number.shortest m e hm)) = _
    rw [htext, hread, ← ha]
    cases s with
    | positive => rfl
    | negative =>
      rw [Number.neg_ofModel_pack hpack]
      rfl

/-! ## Reading on -/

lemma isScalarChar_of_isDigit {c : Char} (h : c.isDigit) : isScalarChar c := by
  simp [isScalarChar, Char.isAlphanum, h]

lemma isScalarChar_of_mem_write {a : Float} {c : Char} (h : c ∈ numberStyle.write a) :
    isScalarChar c := by
  rcases exists_write_eq a with ⟨s, whole, fraction, hpointed, htext⟩ | hname
  · rw [htext] at h
    rcases List.mem_append.mp h with h | h
    · cases s with
      | negative =>
        rw [List.mem_singleton.mp h]
        rfl
      | positive => cases h
    · rcases mem_of_isPointed hpointed h with hdigit | rfl
      · exact isScalarChar_of_isDigit hdigit
      · rfl
  · have hnames : ∀ name ∈ [['n', 'a', 'n'], ['i', 'n', 'f'], ['-', 'i', 'n', 'f']],
        ∀ c ∈ name, isScalarChar c := by simp [isScalarChar]
    exact hnames _ hname c h

lemma isDate_write (a : Float) : isDate (numberStyle.write a) = false := by
  rcases exists_write_eq a with ⟨s, whole, fraction, -, htext⟩ | hname
  · rw [htext]
    exact isDate_of_point (by simp)
  · have hnames : ∀ name ∈ [['n', 'a', 'n'], ['i', 'n', 'f'], ['-', 'i', 'n', 'f']],
        isDate name = false := by decide
    exact hnames _ hname

/-- A value that is not a date ends where its characters end. -/
lemma readScalar_append {text rest : List Char} {value : Value} (hne : text ≠ [])
    (hchars : ∀ c ∈ text, isScalarChar c) (hrest : ∀ c ∈ rest.head?, isScalarChar c = false)
    (hdate : isDate text = false) (hvalue : scalarOfText? text = some value) :
    readScalar (text ++ rest) = some (value, rest) := by
  obtain ⟨htake, hdrop⟩ := Lexeme.takeWhile_dropWhile_append hchars hrest
  have hempty : text.isEmpty = false := by simpa using hne
  simp only [readScalar, htake, hdrop, hempty, hdate, hvalue, Bool.false_eq_true, if_false,
    Option.map_some]

variable {rest : List Char} (hrest : ∀ c ∈ rest.head?, isScalarChar c = false)
include hrest

/-- Main statement: a number is read back. -/
theorem readScalar_write (a : Float) :
    readScalar (numberStyle.write a ++ rest) = some (.float a, rest) := by
  have hvalue := scalarOfText?_write a
  refine readScalar_append ?_ (fun _ => isScalarChar_of_mem_write) hrest (isDate_write a) hvalue
  intro hnil
  rw [hnil] at hvalue
  cases hvalue

/-- A truth value is read back. -/
lemma readScalar_boolean (b : Bool) :
    readScalar (writeInline (.boolean b) ++ rest) = some (.boolean b, rest) := by
  cases b with
  | true =>
    rw [writeInline]
    exact readScalar_append (by decide) (by simp [isScalarChar]) hrest rfl rfl
  | false =>
    rw [writeInline]
    exact readScalar_append (by decide) (by simp [isScalarChar]) hrest rfl rfl

end Toml

end BlockLang
