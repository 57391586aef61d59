import BlockLang.Proofs.Number.Arithmetic

/-!
# Whole numbers and comparisons

Main statements: the greatest integer below a finite number and the integer nearest to it are exact,
and two finite numbers compare as the rational numbers that they are equal to.
-/

namespace BlockLang.Number

open Float.Model Float.Model.UnpackedFloat

/-! ## Powers of ten -/

/-- The powers of ten with at most 15 zeros are numbers of the format. -/
lemma toRat_toFloat_power {p : ℕ} (hp : p ≤ 15) :
    (Decimal.toFloat ⟨1, p⟩).isFinite = true ∧ toRat (Decimal.toFloat ⟨1, p⟩) = 10 ^ p := by
  obtain ⟨u, hrounds, hfloat⟩ := Decimal.exists_rounds (d := ⟨1, p⟩) one_pos
  have hvalue : Decimal.toRat ⟨1, p⟩ = ((10 ^ p : ℤ) : ℚ) := by
    rw [Decimal.toRat, Nat.cast_one, one_mul, zpow_natCast, Int.cast_pow, Int.cast_ofNat]
  have hpos : (0 : ℚ) < ((10 ^ p : ℤ) : ℚ) := by positivity
  rw [hvalue] at hrounds
  have hlt : |(10 ^ p : ℤ)| < 2 ^ 53 := by
    rw [abs_of_pos (by positivity)]
    calc (10 : ℤ) ^ p ≤ 10 ^ 15 := pow_le_pow_right₀ (by norm_num) hp
      _ < 2 ^ 53 := by norm_num
  obtain ⟨hfinite, htoRat⟩ := (hrounds.isNearest hpos).exact_intCast hlt
  rw [hfloat]
  refine ⟨hfinite, htoRat.trans ?_⟩
  rw [Int.cast_pow, Int.cast_ofNat]

/-! ## Integer parts -/

section

variable {a : Float} {s : Sign} {m : ℕ} {e : ℤ}

/-- A mantissa with an exponent below zero is a fraction. -/
lemma mul_two_zpow_eq_div (x : ℚ) (he : e < 0) : x * 2 ^ e = x / (2 ^ (-e).toNat : ℕ) := by
  obtain ⟨k, rfl⟩ := Int.exists_eq_neg_ofNat he.le
  rw [neg_neg, Int.toNat_natCast, zpow_neg, zpow_natCast, Nat.cast_pow, Nat.cast_ofNat,
    div_eq_mul_inv]

/-- With another exponent the number is whole. -/
lemma exists_intCast_eq (s : Sign) (m : ℕ) (he : 0 ≤ e) :
    ∃ n : ℤ, signed s (m * 2 ^ e) = n := by
  obtain ⟨k, rfl⟩ := Int.eq_ofNat_of_zero_le he
  refine ⟨s.apply (m * 2 ^ k : ℕ), ?_⟩
  rw [intCast_apply, zpow_natCast]
  push_cast
  rfl

/-- The floor of a finite float is exact. -/
theorem floor_spec (h : a.isFinite = true) :
    (floor a).isFinite = true ∧ toRat (floor a) = ⌊toRat a⌋ := by
  rcases unpack_of_isFinite h with ⟨s, ha⟩ | ⟨s, m, e, hm, ha⟩
  · have hfloor : floor a = a := by rw [floor, ha]
    rw [hfloor, toRat_of_unpack_zero ha, Int.floor_zero, Int.cast_zero]
    exact ⟨h, rfl⟩
  · rcases lt_or_ge e 0 with he | he
    · have hfloor : floor a = ofScaled (s.apply m / (2 ^ (-e).toNat : ℕ)) 0 s := by
        rw [floor, ha, Nat.cast_pow, Nat.cast_ofNat]
        exact if_pos he
      have hvalue : ⌊toRat a⌋ = s.apply m / (2 ^ (-e).toNat : ℕ) := by
        rw [toRat_of_unpack_finite ha, mul_two_zpow_eq_div _ he, div_eq_mul_inv, signed_mul,
          ← div_eq_mul_inv, ← Int.cast_natCast m, ← intCast_apply]
        exact Rat.floor_intCast_div_natCast _ _
      have hnear := isNearest_ofScaled (s.apply m / (2 ^ (-e).toNat : ℕ)) 0 s
      rw [zpow_zero, mul_one] at hnear
      rw [hfloor, hvalue]
      refine hnear.exact_intCast ?_
      -- The quotient is no larger than the mantissa, so it is stored without rounding.
      have hle := Int.natAbs_ediv_le_natAbs (s.apply m) (2 ^ (-e).toNat : ℕ)
      have hm : (s.apply m).natAbs = m := by
        cases s with
        | negative => rw [Sign.apply, Int.natAbs_neg, Int.natAbs_natCast]
        | positive => rw [Sign.apply, Int.natAbs_natCast]
      have hlt := (stored_of_toModel_unpack ha).lt
      rw [Int.abs_eq_natAbs]
      exact_mod_cast (hle.trans_eq hm).trans_lt hlt
    · have hfloor : floor a = a := by
        rw [floor, ha]
        exact if_neg he.not_gt
      obtain ⟨n, hn⟩ := exists_intCast_eq s m he
      rw [hfloor, toRat_of_unpack_finite ha, hn, Int.floor_intCast]
      exact ⟨h, rfl⟩

/-- The whole number nearest to `x`; a half goes away from zero. -/
def halfAway (x : ℚ) : ℤ := if 0 ≤ x then ⌊x + 1 / 2⌋ else -⌊-x + 1 / 2⌋

/-- Integers are not rounded. -/
lemma halfAway_intCast (n : ℤ) : halfAway n = n := by
  have hfloor : ∀ k : ℤ, ⌊(k : ℚ) + 1 / 2⌋ = k := fun k => by
    rw [Int.floor_eq_iff]
    constructor <;> linarith
  rw [halfAway]
  split
  · exact hfloor n
  · rw [← Int.cast_neg, hfloor, neg_neg]

lemma halfAway_neg (x : ℚ) : halfAway (-x) = -halfAway x := by
  rcases lt_trichotomy x 0 with hx | rfl | hx
  · rw [halfAway, halfAway, if_pos (by linarith), if_neg hx.not_ge, neg_neg]
  · rw [neg_zero, ← Int.cast_zero, halfAway_intCast, neg_zero]
  · rw [halfAway, halfAway, if_neg (by linarith), if_pos hx.le, neg_neg]

lemma halfAway_signed (s : Sign) {x : ℚ} (hx : 0 ≤ x) :
    halfAway (signed s x) = s.apply ⌊x + 1 / 2⌋ := by
  have hpositive : halfAway x = ⌊x + 1 / 2⌋ := if_pos hx
  cases s with
  | negative => rw [signed, halfAway_neg, hpositive, Sign.apply]
  | positive => rw [signed, hpositive, Sign.apply]

/-- Rounding half away from zero is exact on finite floats. -/
theorem roundAwayFromZero_spec (h : a.isFinite = true) :
    (roundAwayFromZero a).isFinite = true ∧ toRat (roundAwayFromZero a) = halfAway (toRat a) := by
  rcases unpack_of_isFinite h with ⟨s, ha⟩ | ⟨s, m, e, hm, ha⟩
  · have hround : roundAwayFromZero a = a := by rw [roundAwayFromZero, ha]
    rw [hround, toRat_of_unpack_zero ha, ← Int.cast_zero, halfAway_intCast, Int.cast_zero]
    exact ⟨h, rfl⟩
  · -- With an exponent that is not negative, there is nothing to round.
    rcases lt_or_ge e 0 with he | he
    · generalize hunit : 2 ^ (-e).toNat = unit
      have hone : 1 < unit := by
        rw [← hunit]
        exact Nat.one_lt_two_pow (by omega)
      have hround : roundAwayFromZero a =
          ofScaled (s.apply ((2 * m + unit) / (2 * unit) : ℕ)) 0 s := by
        rw [roundAwayFromZero, ha, ← hunit]
        exact if_pos he
      have hvalue : halfAway (toRat a) = s.apply ((2 * m + unit) / (2 * unit) : ℕ) := by
        have hpos : (0 : ℚ) < unit := by exact_mod_cast hone.le
        have hfraction : (m : ℚ) / unit + 1 / 2 = (2 * m + unit : ℕ) / (2 * unit : ℕ) := by
          push_cast
          field_simp
        rw [toRat_of_unpack_finite ha, mul_two_zpow_eq_div _ he, hunit,
          halfAway_signed s (by positivity), hfraction, Rat.floor_natCast_div_natCast,
          Int.natCast_ediv]
      have hnear := isNearest_ofScaled (s.apply ((2 * m + unit) / (2 * unit) : ℕ)) 0 s
      rw [zpow_zero, mul_one] at hnear
      rw [hround, hvalue]
      refine hnear.exact_intCast ?_
      -- The result is no larger than the mantissa, so it is stored without rounding.
      have hle : (2 * m + unit) / (2 * unit) ≤ m := by
        rw [Nat.div_le_iff_le_mul_add_pred (by omega)]
        nlinarith
      have hlt := (stored_of_toModel_unpack ha).lt
      cases s with
      | negative =>
        rw [Sign.apply, abs_neg, Nat.abs_cast]
        exact_mod_cast hle.trans_lt hlt
      | positive =>
        rw [Sign.apply, Nat.abs_cast]
        exact_mod_cast hle.trans_lt hlt
    · have hround : roundAwayFromZero a = a := by
        rw [roundAwayFromZero, ha]
        exact if_neg he.not_gt
      obtain ⟨n, hn⟩ := exists_intCast_eq s m he
      rw [hround, toRat_of_unpack_finite ha, hn, halfAway_intCast]
      exact ⟨h, rfl⟩

/-- A whole number is finite and without a fractional part. -/
theorem isWhole_iff : isWhole a = true ↔ a.isFinite = true ∧ ∃ n : ℤ, toRat a = n := by
  constructor
  · intro h
    cases ha : a.toModel.unpack with
    | notANumber =>
      rw [isWhole, ha] at h
      cases h
    | infinity s =>
      rw [isWhole, ha] at h
      cases h
    | zero s =>
      have hfinite : a.isFinite = true := congrArg UnpackedFloat.isFinite ha
      refine ⟨hfinite, 0, ?_⟩
      rw [toRat_of_unpack_zero ha, Int.cast_zero]
    | finite s m e hm =>
      have hfinite : a.isFinite = true := congrArg UnpackedFloat.isFinite ha
      refine ⟨hfinite, ?_⟩
      rw [toRat_of_unpack_finite ha]
      -- With a negative exponent, the number is whole if the power of two divides the mantissa.
      rcases lt_or_ge e 0 with he | he
      · have hmod : m % 2 ^ (-e).toNat = 0 := by
          rw [isWhole, ha] at h
          simpa [he.not_ge] using h
        obtain ⟨n, rfl⟩ := Nat.dvd_of_mod_eq_zero hmod
        have hpos : ((2 ^ (-e).toNat : ℕ) : ℚ) ≠ 0 := by positivity
        refine ⟨s.apply n, ?_⟩
        rw [mul_two_zpow_eq_div _ he, Nat.cast_mul, mul_div_cancel_left₀ _ hpos, intCast_apply]
        rfl
      · exact exists_intCast_eq s m he
  · rintro ⟨hfinite, n, hn⟩
    rcases unpack_of_isFinite hfinite with ⟨s, ha⟩ | ⟨s, m, e, hm, ha⟩
    · rw [isWhole, ha]
    · rcases lt_or_ge e 0 with he | he
      · have hdvd : 2 ^ (-e).toNat ∣ m := by
          have habs : (m : ℚ) = (n.natAbs * 2 ^ (-e).toNat : ℕ) := by
            have hvalue : |signed s (m * 2 ^ e)| = |(n : ℚ)| := by
              rw [← toRat_of_unpack_finite ha, hn]
            have hpos : (0 : ℚ) < (2 ^ (-e).toNat : ℕ) := by positivity
            rw [abs_signed, mul_two_zpow_eq_div _ he, abs_of_nonneg (by positivity),
              div_eq_iff hpos.ne', ← Int.cast_abs, Int.abs_eq_natAbs, Int.cast_natCast] at hvalue
            rw [hvalue, Nat.cast_mul]
          exact Dvd.intro_left _ (by exact_mod_cast habs.symm)
        rw [isWhole, ha]
        simpa [he.not_ge] using Nat.mod_eq_zero_of_dvd hdvd
      · rw [isWhole, ha]
        simp [he]

end

/-! ## Comparisons -/

/-- A greater exponent makes a greater number, whatever the mantissas are. -/
lemma Canonical.lt_of_exponent_lt {m m' : ℕ} {e e' : ℤ} (h : Canonical m e)
    (h' : Canonical m' e') (hlt : e < e') : (m * 2 ^ e : ℚ) < m' * 2 ^ e' := by
  have hm : (m : ℚ) < 2 ^ 53 := by exact_mod_cast h.lt
  have hm' : (2 : ℚ) ^ 52 ≤ m' := by
    have hle : 2 ^ 52 ≤ m' := h'.normal.resolve_right (by have hleast := h.least_le; omega)
    exact_mod_cast hle
  calc (m * 2 ^ e : ℚ) < 2 ^ 53 * 2 ^ e := mul_lt_mul_of_pos_right hm (zpow_pos two_pos e)
    _ = 2 ^ 52 * 2 ^ (e + 1) := by
      rw [zpow_add_one₀ two_ne_zero]
      ring
    _ ≤ 2 ^ 52 * 2 ^ e' :=
      mul_le_mul_of_nonneg_left (zpow_le_zpow_right₀ one_le_two (by omega)) (by positivity)
    _ ≤ m' * 2 ^ e' := mul_le_mul_of_nonneg_right hm' (zpow_pos two_pos e').le

/-- Numbers are compared by their exponents, and by their mantissas only if these are equal. -/
lemma Canonical.compare_eq {m m' : ℕ} {e e' : ℤ} (h : Canonical m e) (h' : Canonical m' e') :
    (compare e e').then (compare m m') = cmp (m * 2 ^ e : ℚ) (m' * 2 ^ e') := by
  rcases lt_trichotomy e e' with he | rfl | he
  · rw [compare_lt_iff_lt.mpr he, (cmp_eq_lt_iff _ _).mpr (h.lt_of_exponent_lt h' he)]
    rfl
  · rw [compare_eq_iff_eq.mpr rfl, cmp_mul_pos_right (zpow_pos two_pos e),
      Nat.strictMono_cast.cmp_map_eq, cmp_eq_compare]
    rfl
  · rw [compare_gt_iff_gt.mpr he, (cmp_eq_gt_iff _ _).mpr (h'.lt_of_exponent_lt h he)]
    rfl

/-- The exponent of a number is determined by what the number is equal to. -/
lemma Canonical.exponent_le {m m' : ℕ} {e e' : ℤ} (h : Canonical m e) (h' : Canonical m' e')
    (heq : (m * 2 ^ e : ℚ) = m' * 2 ^ e') : e' ≤ e := by
  by_contra! hlt
  exact (h.lt_of_exponent_lt h' hlt).ne heq

/-- Canonical pairs with one value are equal. -/
lemma Canonical.mul_two_zpow_inj {m m' : ℕ} {e e' : ℤ} (h : Canonical m e)
    (h' : Canonical m' e') : (m * 2 ^ e : ℚ) = m' * 2 ^ e' ↔ e = e' ∧ m = m' := by
  constructor
  · intro heq
    obtain rfl : e = e' := le_antisymm (h'.exponent_le h heq.symm) (h.exponent_le h' heq)
    have hm : (m : ℚ) = m' := mul_right_cancel₀ (zpow_ne_zero e two_ne_zero) heq
    exact ⟨rfl, by exact_mod_cast hm⟩
  · rintro ⟨rfl, rfl⟩
    rfl

section

variable {a b : Float}

/-- Floats are compared by what they unpack to. -/
lemma beq_iff_compare (a b : Float) :
    (a == b) = true ↔ a.toModel.unpack.compare b.toModel.unpack = some .eq :=
  beq_iff_eq (a := a.toModel.unpack.compare b.toModel.unpack)

lemma signed_inj {s s' : Sign} {x y : ℚ} (hx : 0 < x) (hy : 0 < y) :
    signed s x = signed s' y ↔ s = s' ∧ x = y := by
  cases s with
  | negative =>
    cases s' with
    | negative => simp [signed]
    | positive =>
      refine iff_of_false ?_ (fun h => Sign.noConfusion h.1)
      rw [signed, signed]
      linarith
  | positive =>
    cases s' with
    | negative =>
      refine iff_of_false ?_ (fun h => Sign.noConfusion h.1)
      rw [signed, signed]
      linarith
    | positive => simp [signed]

lemma mul_two_zpow_pos {m : ℕ} (hm : 0 < m) (e : ℤ) : (0 : ℚ) < m * 2 ^ e :=
  mul_pos (by exact_mod_cast hm) (zpow_pos two_pos e)

/-- Below zero the order is turned around. -/
lemma compare_signed {s s' : Sign} {m m' : ℕ} {e e' : ℤ} (h : Canonical m e)
    (h' : Canonical m' e') (hm : 0 < m) (hm' : 0 < m') :
    UnpackedFloat.compare (.finite s m e hm) (.finite s' m' e' hm') =
      some (cmp (signed s (m * 2 ^ e)) (signed s' (m' * 2 ^ e'))) := by
  have hpos := mul_two_zpow_pos hm e
  have hpos' := mul_two_zpow_pos hm' e'
  cases s with
  | negative =>
    cases s' with
    | negative =>
      have hswap := StrictAnti.cmp_map_eq (fun _ _ => neg_lt_neg) (m * 2 ^ e : ℚ) (m' * 2 ^ e')
      rw [signed, signed, hswap, ← cmp_swap, ← h.compare_eq h']
      rfl
    | positive =>
      rw [signed, signed, (cmp_eq_lt_iff _ _).mpr (by linarith)]
      rfl
  | positive =>
    cases s' with
    | negative =>
      rw [signed, signed, (cmp_eq_gt_iff _ _).mpr (by linarith)]
      rfl
    | positive =>
      rw [signed, signed, ← h.compare_eq h']
      rfl

/-- Finite numbers are compared as what they are equal to; both zeros are equal to zero. -/
theorem compare_unpack (ha : a.isFinite = true) (hb : b.isFinite = true) :
    a.toModel.unpack.compare b.toModel.unpack = some (cmp (toRat a) (toRat b)) := by
  rcases unpack_of_isFinite ha with ⟨s, hua⟩ | ⟨s, m, e, hm, hua⟩
  · rw [hua, toRat_of_unpack_zero hua]
    rcases unpack_of_isFinite hb with ⟨s', hub⟩ | ⟨s', m', e', hm', hub⟩
    · rw [hub, toRat_of_unpack_zero hub]
      rfl
    · have hpos := mul_two_zpow_pos hm' e'
      rw [hub, toRat_of_unpack_finite hub]
      cases s' with
      | negative =>
        rw [signed, (cmp_eq_gt_iff _ _).mpr (neg_neg_of_pos hpos)]
        rfl
      | positive =>
        rw [signed, (cmp_eq_lt_iff _ _).mpr hpos]
        rfl
  · have hpos := mul_two_zpow_pos hm e
    rw [hua, toRat_of_unpack_finite hua]
    rcases unpack_of_isFinite hb with ⟨s', hub⟩ | ⟨s', m', e', hm', hub⟩
    · rw [hub, toRat_of_unpack_zero hub]
      cases s with
      | negative =>
        rw [signed, (cmp_eq_lt_iff _ _).mpr (neg_neg_of_pos hpos)]
        rfl
      | positive =>
        rw [signed, (cmp_eq_gt_iff _ _).mpr hpos]
        rfl
    · rw [hub, toRat_of_unpack_finite hub]
      -- Only two numbers with mantissas are compared by sign, exponent and mantissa.
      exact compare_signed (stored_of_toModel_unpack hua).canonical
        (stored_of_toModel_unpack hub).canonical hm hm'

/-- Finite floats are equal if their values are. -/
theorem beq_iff (ha : a.isFinite = true) (hb : b.isFinite = true) :
    (a == b) = true ↔ toRat a = toRat b := by
  rw [beq_iff_compare, compare_unpack ha hb, Option.some_inj, cmp_eq_eq_iff]

/-- Finite floats are ordered as their values are. -/
theorem lt_iff (ha : a.isFinite = true) (hb : b.isFinite = true) :
    a < b ↔ toRat a < toRat b := by
  have hlt : a < b ↔ a.toModel.unpack.compare b.toModel.unpack = some .lt :=
    decide_eq_true_iff.trans beq_iff_eq
  rw [hlt, compare_unpack ha hb, Option.some_inj, cmp_eq_lt_iff]

/-- Finite floats are ordered as their values are, equality included. -/
theorem le_iff (ha : a.isFinite = true) (hb : b.isFinite = true) :
    a ≤ b ↔ toRat a ≤ toRat b := by
  have hle : a ≤ b ↔ (a.toModel.unpack.compare b.toModel.unpack).any (·.isLE) = true :=
    decide_eq_true_iff
  rw [hle, compare_unpack ha hb, Option.any_some, Ordering.isLE_iff_ne_gt,
    cmp_eq_gt_iff, not_lt]

/-- Finite numbers other than zero are determined by what they are equal to. -/
lemma eq_of_toRat_eq (ha : a.isFinite = true) (hb : b.isFinite = true) (h : toRat a = toRat b)
    (hne : toRat a ≠ 0) : a = b := by
  rcases unpack_of_isFinite ha with ⟨s, hua⟩ | ⟨s, m, e, hm, hua⟩
  · exact absurd (toRat_of_unpack_zero hua) hne
  · rcases unpack_of_isFinite hb with ⟨s', hub⟩ | ⟨s', m', e', hm', hub⟩
    · rw [toRat_of_unpack_zero hub] at h
      exact absurd h hne
    · rw [toRat_of_unpack_finite hua, toRat_of_unpack_finite hub] at h
      obtain ⟨rfl, hvalue⟩ := (signed_inj (mul_two_zpow_pos hm e) (mul_two_zpow_pos hm' e')).mp h
      obtain ⟨rfl, rfl⟩ := ((stored_of_toModel_unpack hua).canonical.mul_two_zpow_inj
        (stored_of_toModel_unpack hub).canonical).mp hvalue
      rw [← ofModel_pack_unpack a, hua, ← hub, ofModel_pack_unpack]

/-! ## Infinity and NaN -/

/-- Infinity with a sign. -/
def infinite (s : Sign) : Float := .ofModel (.pack (.infinity s))

lemma infinite_negative : infinite .negative = -infinity := neg_infinity.symm

lemma unpack_infinite (s : Sign) : (infinite s).toModel.unpack = .infinity s :=
  model_unpack_pack_infinity s

lemma unpack_nan : nan.toModel.unpack = .notANumber :=
  unpack_bits .positive (-1#11) (1#52 <<< 51)

/-- A number is finite, infinite or NaN. -/
lemma isFinite_or (a : Float) : a.isFinite = true ∨ (∃ s, a = infinite s) ∨ a = nan := by
  have hpack := ofModel_pack_unpack a
  cases hua : a.toModel.unpack with
  | notANumber =>
    rw [hua] at hpack
    exact .inr (.inr hpack.symm)
  | infinity s =>
    rw [hua] at hpack
    exact .inr (.inl ⟨s, hpack.symm⟩)
  | zero s => exact .inl (congrArg UnpackedFloat.isFinite hua)
  | finite s m e hm => exact .inl (congrArg UnpackedFloat.isFinite hua)

lemma isFinite_infinite (s : Sign) : (infinite s).isFinite = false :=
  congrArg UnpackedFloat.isFinite (unpack_infinite s)

lemma isFinite_nan : nan.isFinite = false :=
  congrArg UnpackedFloat.isFinite unpack_nan

lemma infinite_beq_self (s : Sign) : (infinite s == infinite s) = true := by
  rw [beq_iff_compare, unpack_infinite]
  cases s <;> rfl

lemma beq_nan (a : Float) : (a == nan) = false := by
  rw [Bool.eq_false_iff, ne_eq, beq_iff_compare, unpack_nan]
  cases a.toModel.unpack <;> nofun

/-- Only finite floats are equal to a finite one. -/
lemma isFinite_of_beq (h : (a == b) = true) (hb : b.isFinite = true) : a.isFinite = true := by
  rw [beq_iff_compare] at h
  rcases isFinite_or a with ha | ⟨s, rfl⟩ | rfl
  · exact ha
  · rw [unpack_infinite] at h
    rcases unpack_of_isFinite hb with ⟨s', hub⟩ | ⟨s', m', e', hm', hub⟩ <;> rw [hub] at h <;>
      cases s <;> cases h
  · rw [unpack_nan, UnpackedFloat.compare] at h
    cases h

/-- Only infinity with the same sign is equal to infinity. -/
lemma eq_of_beq_infinite {s : Sign} (h : (a == infinite s) = true) : a = infinite s := by
  rcases isFinite_or a with ha | ⟨s', rfl⟩ | rfl
  · rw [beq_iff_compare, unpack_infinite] at h
    rcases unpack_of_isFinite ha with ⟨s', hua⟩ | ⟨s', m, e, hm, hua⟩ <;> rw [hua] at h <;>
      cases s <;> cases s' <;> cases h
  · rw [beq_iff_compare, unpack_infinite, unpack_infinite] at h
    cases s <;> cases s' <;> first | rfl | cases h
  · rw [beq_iff_compare, unpack_nan, UnpackedFloat.compare] at h
    cases h

end

end BlockLang.Number
