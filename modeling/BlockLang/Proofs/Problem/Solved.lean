import BlockLang.Problem.Basic
import BlockLang.Proofs.Number.Whole

/-!
# Solved problems

A result and a target are compared after both are scaled up and rounded. Main statement: a problem
is solved by a result only if the result equals the target, or agrees with a target that is not
whole in all decimal places that count and that the format can tell apart, or if the target is
infinite and the result is too large to be scaled up.
-/

namespace BlockLang

open Float.Model.UnpackedFloat (Sign)

/-! ## Rounded numbers -/

namespace Number

open AddSubgroup (zmultiples)

variable {x y v w : ℚ} {n : ℤ}

/-- A number that is not negative is rounded to the whole number within half a unit, and up from the
middle. -/
lemma halfAway_eq_iff (hx : 0 ≤ x) : halfAway x = n ↔ (n - 1 / 2 : ℚ) ≤ x ∧ x < n + 1 / 2 := by
  rw [halfAway, if_pos hx, Int.floor_eq_iff]
  constructor <;> rintro ⟨hle, hlt⟩ <;> constructor <;> linarith

/-- A number that is rounded to a positive one is a half at least. -/
lemma half_le_of_halfAway_pos (h : 0 < halfAway x) : 1 / 2 ≤ x := by
  rcases lt_or_ge x 0 with hneg | hnonneg
  · rw [halfAway, if_neg hneg.not_ge] at h
    have hfloor : 0 ≤ ⌊-x + 1 / 2⌋ := Int.floor_nonneg.mpr (by linarith)
    omega
  · have hle := ((halfAway_eq_iff hnonneg).mp rfl).1
    have hone : (1 : ℚ) ≤ halfAway x := by exact_mod_cast h
    linarith

/-- A half is a number of the format, so that what is rounded to less is less. -/
lemma lt_half_of_halfAway_eq_zero (hx : Nearest x v) (h : halfAway v = 0) : x < 1 / 2 := by
  by_contra! hge
  have hmem := mem_zmultiples_spacing (m := 1) (e := -1) (by norm_num) (by norm_num)
  rw [Int.cast_one, one_mul, zpow_neg_one, ← one_div] at hmem
  have hle := hx.le_of_le_of_mem one_half_pos hmem hge
  have hlt := ((halfAway_eq_iff (by linarith)).mp h).2
  rw [Int.cast_zero] at hlt
  linarith

/-- Numbers whose nearest floats are rounded to zero are below one half. -/
lemma abs_lt_half_of_halfAway_eq_zero (hx : Nearest x v) (h : halfAway v = 0) : |x| < 1 / 2 := by
  have hneg : halfAway (-v) = 0 := by rw [halfAway_neg, h, neg_zero]
  have hlow := lt_half_of_halfAway_eq_zero hx.neg hneg
  exact abs_lt.mpr ⟨by linarith, lt_half_of_halfAway_eq_zero hx h⟩

/-- Two positive numbers that are rounded alike are at most one apart, or they are large and differ
in their last bit only. -/
lemma sub_le_of_halfAway_eq (hx : Nearest x v) (hy : Nearest y w) (hv : halfAway v = n)
    (hw : halfAway w = n) (hn : 0 < n) (hxy : x ≤ y) :
    y - x ≤ 1 ∨ 2 ^ 52 - 1 ≤ x ∧ y - x ≤ x / 2 ^ 51 := by
  have hvpos : 1 / 2 ≤ v := half_le_of_halfAway_pos (by omega)
  have hwpos : 1 / 2 ≤ w := half_le_of_halfAway_pos (by omega)
  have hlow := ((halfAway_eq_iff (by linarith)).mp hv).1
  have hhigh := ((halfAway_eq_iff (by linarith)).mp hw).2
  have hpos : 0 < x := by
    by_contra! hneg
    have hle : v ≤ 0 := hx.ge_of_ge (zero_mem _) hneg
    linarith
  have hypos : 0 < y := hpos.trans_le hxy
  have hspacing := spacing_of_pos hypos
  have hstep_pos := spacing_pos y
  have hstep : spacing x ≤ spacing y := by
    rw [spacing_of_pos hpos, hspacing]
    exact zpow_le_zpow_right₀ one_le_two (exponentOf_mono hpos hxy)
  have hmem := hy.mem
  have hdist := (abs_le.mp hx.abs_sub_le).1
  have hdist' := (abs_le.mp hy.abs_sub_le).2
  rcases lt_or_ge (exponentOf y) 0 with hexponent | hexponent
  -- A half above `n` has a place on the grid of the larger number, which is rounded to less.
  · refine .inl ?_
    have hgrid : (n + 1 / 2 : ℚ) ∈ zmultiples (spacing y) := by
      rw [hspacing]
      exact intCast_add_half_mem_zmultiples hexponent n
    have hbelow : 0 ≤ n + 1 / 2 - w - spacing y := by
      refine nonneg_of_mem_zmultiples hstep_pos ?_ (by linarith)
      exact sub_mem (sub_mem hgrid hmem) (AddSubgroup.mem_zmultiples _)
    linarith
  -- The format has whole numbers only for the larger number.
  · refine .inr ?_
    have hone : 1 ≤ spacing y := by
      rw [hspacing]
      exact one_le_zpow₀ one_le_two hexponent
    have hwhole : w = n := by
      rw [hspacing] at hmem
      obtain ⟨k, rfl⟩ := exists_intCast_of_mem_zmultiples hexponent hmem
      rw [← hw, halfAway_intCast]
    have hlarge : 2 ^ 52 * spacing y ≤ w := by
      have hpower : 2 ^ 52 * spacing y = 2 ^ (exponentOf y + 52) := by
        rw [hspacing, add_comm, zpow_add₀ two_ne_zero]
        norm_num
      rw [hpower]
      exact hy.le_of_le (two_zpow_mem_zmultiples_spacing hypos)
        (two_zpow_exponentOf_le hypos (by omega))
    constructor <;> linarith

/-- Two numbers are at most one apart, or they are large and differ in their last bit only. -/
def CloseBy (x y : ℚ) : Prop :=
  |x - y| ≤ 1 ∨ 2 ^ 52 - 1 ≤ |y| ∧ |x - y| ≤ |y| / 2 ^ 51

/-- Numbers whose nearest floats are rounded to the same positive number are close by. -/
lemma closeBy_of_halfAway_eq_of_pos (hx : Nearest x v) (hy : Nearest y w) (hv : halfAway v = n)
    (hw : halfAway w = n) (hn : 0 < n) : CloseBy x y := by
  rcases le_total x y with hxy | hyx
  · rw [CloseBy, abs_sub_comm, abs_of_nonneg (sub_nonneg.mpr hxy)]
    refine (sub_le_of_halfAway_eq hx hy hv hw hn hxy).imp_right ?_
    rintro ⟨hlarge, hle⟩
    have habs : |y| = y := abs_of_nonneg (by linarith)
    rw [habs]
    constructor <;> linarith
  · rw [CloseBy, abs_of_nonneg (sub_nonneg.mpr hyx)]
    refine (sub_le_of_halfAway_eq hy hx hw hv hn hyx).imp_right ?_
    rintro ⟨hlarge, hle⟩
    have habs : |y| = y := abs_of_nonneg (by linarith)
    rw [habs]
    exact ⟨hlarge, hle⟩

/-- Numbers that are rounded alike are close by. -/
theorem closeBy_of_halfAway_eq (hx : Nearest x v) (hy : Nearest y w)
    (h : halfAway v = halfAway w) : CloseBy x y := by
  rcases lt_trichotomy (halfAway w) 0 with hneg | hzero | hpos
  · have hclose := closeBy_of_halfAway_eq_of_pos (n := -halfAway w) hx.neg hy.neg
      (by rw [halfAway_neg, h]) (halfAway_neg w) (by omega)
    rwa [CloseBy, ← neg_sub', abs_neg, abs_neg] at hclose
  · have hless := abs_lt_half_of_halfAway_eq_zero hx (h.trans hzero)
    have hless' := abs_lt_half_of_halfAway_eq_zero hy hzero
    refine .inl ?_
    have htriangle := abs_sub x y
    linarith
  · exact closeBy_of_halfAway_eq_of_pos hx hy h rfl hpos

end Number

open Number (toRat infinite overflowBound halfAway Nearest CloseBy)

namespace Problem

/-! ## Scaling up -/

/-- How many decimal places count. -/
def places (problem : Problem) : ℕ := min problem.precision.toNat maxPrecision

lemma places_le (problem : Problem) : problem.places ≤ 15 :=
  min_le_right _ _

section

variable (problem : Problem) {a b : Float}

lemma rounded_eq (a : Float) :
    problem.rounded a =
      Number.roundAwayFromZero (a * Decimal.toFloat ⟨1, (problem.places : ℤ)⟩) := rfl

/-- The power of ten that numbers are scaled with is exact. -/
lemma toFloat_places_spec :
    (Decimal.toFloat ⟨1, (problem.places : ℤ)⟩).isFinite = true ∧
      toRat (Decimal.toFloat ⟨1, (problem.places : ℤ)⟩) = 10 ^ problem.places :=
  Number.toRat_toFloat_power problem.places_le

/-- The scaled number is the float nearest to the exact product. -/
lemma isNearest_scaled (ha : a.isFinite = true) :
    Number.IsNearest (a * Decimal.toFloat ⟨1, (problem.places : ℤ)⟩)
      (toRat a * 10 ^ problem.places) := by
  obtain ⟨hfinite, hvalue⟩ := problem.toFloat_places_spec
  rw [← hvalue]
  exact Number.isNearest_mul ha hfinite

/-- A number that is not too large is rounded to a whole number. -/
lemma rounded_of_lt (ha : a.isFinite = true)
    (hlt : |toRat a * 10 ^ problem.places| < overflowBound) :
    (problem.rounded a).isFinite = true ∧
      ∃ v, Nearest (toRat a * 10 ^ problem.places) v ∧ toRat (problem.rounded a) = halfAway v := by
  obtain ⟨hfinite, hnear⟩ := (problem.isNearest_scaled ha).finite hlt
  obtain ⟨hround, hvalue⟩ := Number.roundAwayFromZero_spec hfinite
  exact ⟨hround, _, hnear, hvalue⟩

/-- To round does not change an infinity. -/
lemma roundAwayFromZero_infinite (s : Sign) :
    Number.roundAwayFromZero (infinite s) = infinite s := by
  rw [Number.roundAwayFromZero, Number.unpack_infinite]

/-- A number whose exact product is too great is rounded to infinity. -/
lemma rounded_of_le (ha : a.isFinite = true)
    (hle : overflowBound ≤ toRat a * 10 ^ problem.places) :
    problem.rounded a = infinite .positive := by
  rw [rounded_eq, (problem.isNearest_scaled ha).eq_infinity hle]
  exact roundAwayFromZero_infinite .positive

/-- One whose exact product is too far below zero is rounded to the other infinity. -/
lemma rounded_of_le_neg (ha : a.isFinite = true)
    (hle : toRat a * 10 ^ problem.places ≤ -overflowBound) :
    problem.rounded a = infinite .negative := by
  rw [rounded_eq, (problem.isNearest_scaled ha).eq_neg_infinity hle, ← Number.infinite_negative]
  exact roundAwayFromZero_infinite .negative

lemma rounded_infinite (s : Sign) : problem.rounded (infinite s) = infinite s := by
  obtain ⟨hfinite, hvalue⟩ := problem.toFloat_places_spec
  have hpos : (0 : ℚ) < 10 ^ problem.places := by positivity
  rw [rounded_eq]
  generalize Decimal.toFloat ⟨1, (problem.places : ℤ)⟩ = c at hfinite hvalue
  have hmul : infinite s * c = infinite s := by
    have hproduct : infinite s * c = .ofModel (.pack (.mul .binary64
      (infinite s).toModel.unpack c.toModel.unpack)) := rfl
    rw [hproduct, Number.unpack_infinite]
    rcases Number.unpack_of_isFinite hfinite with ⟨t, hc⟩ | ⟨t, m, e, hm, hc⟩
    · rw [Number.toRat_of_unpack_zero hc] at hvalue
      exact absurd hvalue hpos.ne
    · rw [Number.toRat_of_unpack_finite hc] at hvalue
      rw [hc]
      cases t with
      | negative =>
        have hnonneg := Number.mul_two_zpow_pos hm e
        rw [Number.signed] at hvalue
        linarith
      | positive => cases s <;> rfl
  rw [hmul, roundAwayFromZero_infinite]

lemma rounded_nan : problem.rounded Number.nan = Number.nan := by
  have hmul : ∀ c : Float, Number.nan * c = Number.nan := fun c => by
    have hproduct : Number.nan * c = .ofModel (.pack (.mul .binary64
      Number.nan.toModel.unpack c.toModel.unpack)) := rfl
    rw [hproduct, Number.unpack_nan]
    rfl
  rw [rounded_eq, hmul, Number.roundAwayFromZero, Number.unpack_nan]

/-- A number that is rounded to a finite one is finite and not too large. -/
lemma lt_of_isFinite_rounded (h : (problem.rounded a).isFinite = true) :
    a.isFinite = true ∧ |toRat a * 10 ^ problem.places| < overflowBound := by
  rcases Number.isFinite_or a with ha | ⟨s, rfl⟩ | rfl
  · refine ⟨ha, abs_lt.mpr ⟨?_, ?_⟩⟩
    · by_contra! hle
      rw [problem.rounded_of_le_neg ha hle, Number.isFinite_infinite] at h
      cases h
    · by_contra! hle
      rw [problem.rounded_of_le ha hle, Number.isFinite_infinite] at h
      cases h
  · rw [rounded_infinite, Number.isFinite_infinite] at h
    cases h
  · rw [rounded_nan, Number.isFinite_nan] at h
    cases h

end

/-! ## Solutions -/

/-- The result and the target agree in the decimal places that count. Where the format has not so
many places they may differ in the last bits. -/
def Agree (places : ℕ) (result target : ℚ) : Prop :=
  |result - target| ≤ (10 ^ places)⁻¹ ∨
    2 ^ 52 - 1 ≤ |target| * 10 ^ places ∧ |result - target| ≤ |target| / 2 ^ 51

/-- Numbers whose products are close by agree in their places. -/
lemma agree_of_closeBy {places : ℕ} {x y : ℚ} (h : CloseBy (x * 10 ^ places) (y * 10 ^ places)) :
    Agree places x y := by
  have hpos : (0 : ℚ) < 10 ^ places := by positivity
  have hscaled : |x * 10 ^ places - y * 10 ^ places| = |x - y| * 10 ^ places := by
    rw [← sub_mul, abs_mul, abs_of_pos hpos]
  rw [CloseBy, hscaled, abs_mul, abs_of_pos hpos] at h
  refine h.imp (fun hle => ?_) (And.imp_right fun hle => ?_)
  · rwa [← one_div, le_div_iff₀ hpos]
  · rw [mul_div_right_comm] at hle
    exact le_of_mul_le_mul_right hle hpos

/-- The target is infinite, and the result is so large that it becomes infinite too when it is
scaled up. -/
def Overshoots (places : ℕ) (result target : Float) : Prop :=
  result.isFinite = true ∧
    (target = Number.infinity ∧ overflowBound ≤ toRat result * 10 ^ places ∨
      target = -Number.infinity ∧ toRat result * 10 ^ places ≤ -overflowBound)

/-- A target that is not whole is not too large. -/
lemma lt_of_not_whole {target : Float} (hfinite : target.isFinite = true)
    (hnot : ¬∃ n : ℤ, toRat target = n) {places : ℕ} (hplaces : places ≤ 15) :
    |toRat target * 10 ^ places| < overflowBound := by
  obtain ⟨m, e, hstored, hvalue⟩ := Number.exists_stored hfinite
  have he : e ≤ -1 := by
    by_contra! hle
    rw [hvalue] at hnot
    exact hnot (Number.exists_intCast_of_mem_zmultiples (by omega)
      (Number.mul_two_zpow_mem_zmultiples le_rfl m))
  -- With a negative exponent, 53 bits reach no further than this.
  have hless : |toRat target| ≤ 2 ^ 52 := by
    calc |toRat target| ≤ (2 ^ 53 - 1) * 2 ^ (-1 : ℤ) := by
          rw [hvalue]
          exact Number.abs_mul_two_zpow_le hstored.abs_lt he
      _ ≤ 2 ^ 52 := by norm_num
  have hpow : (10 : ℚ) ^ places ≤ 2 ^ 50 := by
    calc (10 : ℚ) ^ places ≤ 10 ^ 15 := pow_le_pow_right₀ (by norm_num) hplaces
      _ ≤ 2 ^ 50 := by norm_num
  have hbound : (2 : ℚ) ^ 52 * 2 ^ 50 < 2 ^ (971 : ℤ) := by
    calc (2 : ℚ) ^ 52 * 2 ^ 50 = 2 ^ (102 : ℤ) := by norm_num
      _ < 2 ^ (971 : ℤ) := zpow_lt_zpow_right₀ one_lt_two (by norm_num)
  have hpos : (0 : ℚ) < 10 ^ places := by positivity
  rw [abs_mul, abs_of_pos hpos, overflowBound, Number.limit_eq]
  generalize (2 : ℚ) ^ (971 : ℤ) = unit at hbound
  calc |toRat target| * 10 ^ places ≤ 2 ^ 52 * 2 ^ 50 :=
        mul_le_mul hless hpow hpos.le (by norm_num)
    _ < 2 ^ 53 * unit - unit / 2 := by linarith

section

variable {problem : Problem} {result target : Float}

/-- A number is rounded to an infinite one only if it is infinite itself or too large. -/
lemma of_rounded_eq_infinite {s : Sign} (h : problem.rounded result = infinite s) :
    result = infinite s ∨ Overshoots problem.places result (infinite s) := by
  rcases Number.isFinite_or result with hfinite | ⟨t, rfl⟩ | rfl
  · refine .inr ⟨hfinite, ?_⟩
    rcases lt_or_ge |toRat result * 10 ^ problem.places| overflowBound with hlt | hge
    · have hrounded := (problem.rounded_of_lt hfinite hlt).1
      rw [h, Number.isFinite_infinite] at hrounded
      cases hrounded
    · rcases le_abs'.mp hge with hle | hle
      · rw [problem.rounded_of_le_neg hfinite hle] at h
        rw [← h]
        exact .inr ⟨Number.infinite_negative, hle⟩
      · rw [problem.rounded_of_le hfinite hle] at h
        rw [← h]
        exact .inl ⟨rfl, hle⟩
  · rw [rounded_infinite] at h
    exact .inl h
  · rw [rounded_nan] at h
    have hunpack := congrArg (fun a : Float => a.toModel.unpack) h
    rw [Number.unpack_nan, Number.unpack_infinite] at hunpack
    cases hunpack

/-- What is rounded to the same number as a target that is not whole agrees with it. -/
lemma agree_of_rounded_beq (hfinite : target.isFinite = true)
    (hnot : ¬∃ n : ℤ, toRat target = n)
    (h : (problem.rounded result == problem.rounded target) = true) :
    result.isFinite = true ∧ Agree problem.places (toRat result) (toRat target) := by
  have hlt := lt_of_not_whole hfinite hnot problem.places_le
  obtain ⟨hrounded, w, hnear, hvalue⟩ := problem.rounded_of_lt hfinite hlt
  have hrounded' := Number.isFinite_of_beq h hrounded
  obtain ⟨hfinite', hlt'⟩ := problem.lt_of_isFinite_rounded hrounded'
  obtain ⟨-, v, hnear', hvalue'⟩ := problem.rounded_of_lt hfinite' hlt'
  have hsame : halfAway v = halfAway w := by
    have hequal := (Number.beq_iff hrounded' hrounded).mp h
    rw [hvalue, hvalue'] at hequal
    exact_mod_cast hequal
  exact ⟨hfinite', agree_of_closeBy (Number.closeBy_of_halfAway_eq hnear' hnear hsame)⟩

/-- What equals the target is rounded to the same number. -/
lemma rounded_beq_of_beq (hwhole : Number.isWhole target = false)
    (h : (result == target) = true) :
    (problem.rounded result == problem.rounded target) = true := by
  rcases Number.isFinite_or target with hfinite | ⟨s, rfl⟩ | rfl
  · have hnot : ¬∃ n : ℤ, toRat target = n := fun hn => by
      rw [Number.isWhole_iff.mpr ⟨hfinite, hn⟩] at hwhole
      cases hwhole
    have hfinite' := Number.isFinite_of_beq h hfinite
    have hvalue := (Number.beq_iff hfinite' hfinite).mp h
    have hne : toRat result ≠ 0 := fun hzero => hnot ⟨0, by rw [← hvalue, hzero, Int.cast_zero]⟩
    obtain rfl := Number.eq_of_toRat_eq hfinite' hfinite hvalue hne
    have hlt := lt_of_not_whole hfinite hnot problem.places_le
    have hrounded := (problem.rounded_of_lt hfinite hlt).1
    exact (Number.beq_iff hrounded hrounded).mpr rfl
  · rw [Number.eq_of_beq_infinite h, rounded_infinite]
    exact Number.infinite_beq_self s
  · rw [Number.beq_nan] at h
    cases h

/-- Where both products overflow, the rounded numbers are equal. -/
lemma rounded_beq_of_overshoots (h : Overshoots problem.places result target) :
    Number.isWhole target = false ∧
      (problem.rounded result == problem.rounded target) = true := by
  obtain ⟨hfinite, hside⟩ := h
  obtain ⟨s, rfl, hrounded⟩ :
      ∃ s, target = infinite s ∧ problem.rounded result = infinite s := by
    rcases hside with ⟨rfl, hle⟩ | ⟨rfl, hle⟩
    · exact ⟨.positive, rfl, problem.rounded_of_le hfinite hle⟩
    · exact ⟨.negative, Number.infinite_negative.symm, problem.rounded_of_le_neg hfinite hle⟩
  refine ⟨?_, ?_⟩
  · rw [Number.isWhole, Number.unpack_infinite]
  · rw [hrounded, rounded_infinite]
    exact Number.infinite_beq_self s

end

/-- Whether a problem is solved depends on whether its target is whole. -/
lemma isSolved_of_targetValue {problem : Problem} {target : Float}
    (h : problem.targetValue = some target) (result : Float) :
    problem.isSolved result = if Number.isWhole target then result == target
      else problem.rounded result == problem.rounded target := by
  rw [isSolved, h]

/-- What solves a problem. A result that equals the target does. Any other result can do so only if
the target is finite and not whole, and the two agree, or if it overshoots an infinite target; if it
overshoots, it does. -/
theorem isSolved_spec (problem : Problem) (result : Float) :
    (problem.isSolved result = true → ∃ target, problem.targetValue = some target ∧
      ((result == target) = true ∨
        (target.isFinite = true ∧ (¬∃ n : ℤ, toRat target = n) ∧ result.isFinite = true ∧
          Agree problem.places (toRat result) (toRat target)) ∨
        Overshoots problem.places result target)) ∧
      ∀ target, problem.targetValue = some target →
        (result == target) = true ∨ Overshoots problem.places result target →
          problem.isSolved result = true := by
  constructor
  · intro h
    cases htarget : problem.targetValue with
    | none =>
      rw [isSolved, htarget] at h
      cases h
    | some target =>
      refine ⟨target, rfl, ?_⟩
      rw [isSolved_of_targetValue htarget] at h
      cases hwhole : Number.isWhole target with
      -- A whole target has to be met.
      | true =>
        rw [if_pos hwhole] at h
        exact .inl h
      | false =>
        rw [if_neg (by rw [hwhole]; exact Bool.false_ne_true)] at h
        -- Any other one is compared after rounding, and not all of these are finite.
        rcases Number.isFinite_or target with hfinite | ⟨s, rfl⟩ | rfl
        · have hnot : ¬∃ n : ℤ, toRat target = n := fun hn => by
            rw [Number.isWhole_iff.mpr ⟨hfinite, hn⟩] at hwhole
            cases hwhole
          exact .inr (.inl ⟨hfinite, hnot, agree_of_rounded_beq hfinite hnot h⟩)
        · rw [rounded_infinite] at h
          rcases of_rounded_eq_infinite (Number.eq_of_beq_infinite h) with rfl | hover
          · exact .inl (Number.infinite_beq_self s)
          · exact .inr (.inr hover)
        · rw [rounded_nan, Number.beq_nan] at h
          cases h
  · rintro target htarget (h | h)
    · rw [isSolved_of_targetValue htarget]
      cases hwhole : Number.isWhole target with
      | true => rwa [if_pos rfl]
      | false =>
        rw [if_neg Bool.false_ne_true]
        exact rounded_beq_of_beq hwhole h
    · obtain ⟨hwhole, hrounded⟩ := rounded_beq_of_overshoots h
      rw [isSolved_of_targetValue htarget, hwhole, if_neg Bool.false_ne_true]
      exact hrounded

/-- A finite number solves a problem whose target is infinite. -/
theorem isSolved_infinite_of_finite :
    (1e308 : Float).isFinite = true ∧
      isSolved { initialValue := 0, targetValue := some Number.infinity } 1e308 = true := by
  have hstored : Number.Stored 5010420900022432 971 :=
    ⟨by decide, by decide, by decide, .inl (by decide)⟩
  have hpack : (1e308 : Float) =
      .ofModel (.pack (.finite .positive 5010420900022432 971 (by decide))) := by decide +kernel
  obtain ⟨hfinite, hvalue⟩ := hstored.spec hpack
  have hover : overflowBound ≤ toRat 1e308 * 10 ^ 2 := by
    rw [hvalue, Number.signed, overflowBound, Number.limit_eq]
    have hpos : (0 : ℚ) < 2 ^ (971 : ℤ) := zpow_pos two_pos _
    generalize (2 : ℚ) ^ (971 : ℤ) = unit at hpos
    push_cast
    linarith
  refine ⟨hfinite, ?_⟩
  exact (isSolved_spec { initialValue := 0, targetValue := some Number.infinity } 1e308).2 _ rfl
    (.inr ⟨hfinite, .inl ⟨rfl, hover⟩⟩)

end Problem

end BlockLang
