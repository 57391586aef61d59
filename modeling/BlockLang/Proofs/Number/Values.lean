import BlockLang.Proofs.Number.Packing
import BlockLang.Proofs.Number.Spacing

/-!
# What finite numbers are equal to

A finite number of the format is equal to a rational number. Main statement: what a positive
rational number is rounded to, with any sign, is equal to the number of the grid nearest to it, or
infinite if that is too large.
-/

namespace BlockLang.Number

open Float.Model Float.Model.UnpackedFloat
open AddSubgroup (zmultiples)

/-! ## Signs -/

/-- A number with a sign put in front. -/
def signed (s : Sign) (x : ℚ) : ℚ :=
  match s with
  | .negative => -x
  | .positive => x

lemma abs_signed (s : Sign) (x : ℚ) : |signed s x| = |x| := by
  cases s with
  | negative => exact abs_neg x
  | positive => rfl

lemma intCast_apply (s : Sign) (n : ℤ) : ((s.apply n : ℤ) : ℚ) = signed s n := by
  cases s with
  | negative => exact Int.cast_neg n
  | positive => rfl

lemma signed_mul (s : Sign) (x y : ℚ) : signed s (x * y) = signed s x * y := by
  cases s with
  | negative => exact (neg_mul x y).symm
  | positive => rfl

lemma signed_mul_signed (s s' : Sign) (x y : ℚ) :
    signed s x * signed s' y = signed (s * s') (x * y) := by
  cases s with
  | negative =>
    cases s' with
    | negative => exact neg_mul_neg x y
    | positive => exact neg_mul x y
  | positive =>
    cases s' with
    | negative => exact mul_neg x y
    | positive => rfl

/-- Rounding does not depend on the sign. -/
lemma Nearest.signed {x v : ℚ} (h : Nearest x v) (s : Sign) :
    Nearest (signed s x) (signed s v) := by
  cases s with
  | negative => exact h.neg
  | positive => exact h

/-! ## Values -/

/-- The power of two that no finite number reaches. -/
def limit : ℚ := 2 ^ (1024 : ℤ)

lemma limit_pos : 0 < limit := zpow_pos two_pos _

lemma limit_eq : limit = 2 ^ 53 * 2 ^ (971 : ℤ) := by
  rw [limit, ← zpow_natCast, ← zpow_add₀ two_ne_zero]
  congr 1

/-- What the parts of a number are equal to. There is nothing that infinity and NaN are equal to,
for which zero stands. -/
def partsToRat : UnpackedFloat → ℚ
  | .finite s m e _ => signed s (m * 2 ^ e)
  | _ => 0

/-- What a finite number is equal to. -/
def toRat (a : Float) : ℚ := partsToRat a.toModel.unpack

/-- A finite float is a zero or has a mantissa. -/
lemma unpack_of_isFinite {a : Float} (h : a.isFinite = true) :
    (∃ s, a.toModel.unpack = .zero s) ∨ ∃ s m e hm, a.toModel.unpack = .finite s m e hm := by
  have hparts : a.toModel.unpack.isFinite = true := h
  cases ha : a.toModel.unpack with
  | notANumber =>
    rw [ha] at hparts
    cases hparts
  | infinity s =>
    rw [ha] at hparts
    cases hparts
  | zero s => exact .inl ⟨s, rfl⟩
  | finite s m e hm => exact .inr ⟨s, m, e, hm, rfl⟩

section

variable {a : Float} {s : Sign}

lemma toRat_of_unpack_zero (h : a.toModel.unpack = .zero s) : toRat a = 0 := by
  rw [toRat, h]
  rfl

lemma toRat_of_unpack_finite {m : ℕ} {e : ℤ} {hm : 0 < m}
    (h : a.toModel.unpack = .finite s m e hm) : toRat a = signed s (m * 2 ^ e) := by
  rw [toRat, h]
  rfl

/-- What is stored is a finite float with the value of its parts. -/
lemma Stored.spec {m : ℕ} {e : ℤ} (h : Stored m e) {hm : 0 < m}
    (ha : a = .ofModel (.pack (.finite s m e hm))) :
    a.isFinite = true ∧ toRat a = signed s (m * 2 ^ e) := by
  have hunpack : a.toModel.unpack = .finite s m e hm := by
    rw [ha]
    exact h.model_unpack_pack s hm
  exact ⟨congrArg UnpackedFloat.isFinite hunpack, toRat_of_unpack_finite hunpack⟩

lemma Stored.positive_spec {m : ℕ} {e : ℤ} {x : ℚ} (h : Stored m e) (hm : 0 < m)
    (ha : a = .ofModel (.pack (.finite .positive m e hm))) (hx : m * 2 ^ e = x) :
    a.isFinite = true ∧ toRat a = x := by
  obtain ⟨hfinite, hvalue⟩ := h.spec ha
  exact ⟨hfinite, hvalue.trans hx⟩

/-- A stored mantissa has at most 53 bits. -/
lemma Stored.abs_lt {m e : ℤ} (h : Stored m.natAbs e) : |m| < 2 ^ 53 := by
  rw [Int.abs_eq_natAbs]
  exact_mod_cast h.lt

/-- A finite number is a whole number of at most 53 bits times a power of two. -/
lemma exists_stored (h : a.isFinite = true) :
    ∃ m e : ℤ, Stored m.natAbs e ∧ toRat a = m * 2 ^ e := by
  rcases unpack_of_isFinite h with ⟨s, ha⟩ | ⟨s, m, e, hm, ha⟩
  · refine ⟨0, -1074, ⟨by decide, le_rfl, by decide, .inr rfl⟩, ?_⟩
    rw [toRat_of_unpack_zero ha, Int.cast_zero, zero_mul]
  · have hstored := stored_of_toModel_unpack ha
    refine ⟨s.apply m, e, ?_, ?_⟩
    · cases s with
      | negative => rwa [Sign.apply, Int.natAbs_neg, Int.natAbs_natCast]
      | positive => rwa [Sign.apply, Int.natAbs_natCast]
    · rw [toRat_of_unpack_finite ha, intCast_apply, signed_mul]
      rfl

/-- A finite number is on the grid. -/
lemma toRat_mem_zmultiples (h : a.isFinite = true) :
    toRat a ∈ zmultiples (spacing (toRat a)) := by
  obtain ⟨m, e, hstored, htoRat⟩ := exists_stored h
  rw [htoRat]
  exact mem_zmultiples_spacing hstored.abs_lt hstored.least_le

/-- With a canonical exponent that is too large, the limit is reached. -/
lemma Canonical.two_zpow_le {m : ℕ} {e : ℤ} (h : Canonical m e) (he : 971 < e) :
    limit ≤ m * 2 ^ e := by
  have hm : (2 : ℚ) ^ 52 ≤ m := by
    have hle : 2 ^ 52 ≤ m := h.normal.resolve_right (by omega)
    exact_mod_cast hle
  calc limit ≤ 2 ^ (52 + e) := zpow_le_zpow_right₀ one_le_two (by omega)
    _ = 2 ^ 52 * 2 ^ e := by
      rw [zpow_add₀ two_ne_zero]
      norm_num
    _ ≤ m * 2 ^ e := mul_le_mul_of_nonneg_right hm (zpow_pos two_pos e).le

/-- With an exponent that is not too large, a canonical value stays below the limit. -/
lemma Canonical.lt_two_zpow {m : ℕ} {e : ℤ} (h : Canonical m e) (he : e ≤ 971) :
    (m * 2 ^ e : ℚ) < limit := by
  have hm : (m : ℚ) < 2 ^ 53 := by exact_mod_cast h.lt
  calc (m * 2 ^ e : ℚ) < 2 ^ 53 * 2 ^ e := mul_lt_mul_of_pos_right hm (zpow_pos two_pos e)
    _ = 2 ^ (53 + e) := by
      rw [zpow_add₀ two_ne_zero]
      norm_num
    _ ≤ limit := zpow_le_zpow_right₀ one_le_two (by omega)

/-- Finite floats stay below the limit. -/
lemma abs_toRat_lt (h : a.isFinite = true) : |toRat a| < limit := by
  obtain ⟨m, e, hstored, htoRat⟩ := exists_stored h
  have hpow : (0 : ℚ) < 2 ^ e := zpow_pos two_pos e
  rw [htoRat, abs_mul, abs_of_pos hpow, ← Int.cast_abs, ← Int.natCast_natAbs,
    Int.cast_natCast]
  exact hstored.canonical.lt_two_zpow hstored.le_greatest

end

/-! ## Packed numbers -/

/-- The number is the one that `v` is packed as: infinity if `v` is too large. -/
structure Represents (c : Float) (v : ℚ) : Prop where
  finite : |v| < limit → c.isFinite = true ∧ toRat c = v
  infinite : limit ≤ v → c = infinity
  neg_infinite : v ≤ -limit → c = -infinity

lemma neg_infinity : -infinity = .ofModel (.pack (.infinity .negative)) :=
  neg_ofModel_pack (model_unpack_pack_infinity .positive)

/-- The parts of a number that may be too large for the format, but is none of its special ones. -/
def IsCanonical : UnpackedFloat → Prop
  | .finite _ m e _ => Canonical m e
  | .zero _ => True
  | _ => False

/-- A finite float represents its value. -/
lemma Represents.of_finite {c : Float} (h : c.isFinite = true) : Represents c (toRat c) where
  finite _ := ⟨h, rfl⟩
  infinite hle := absurd ((le_abs_self _).trans_lt (abs_toRat_lt h)) hle.not_gt
  neg_infinite hle := by
    have hlt := (abs_lt.mp (abs_toRat_lt h)).1
    linarith

/-- A canonical value is represented by the float that it is packed to. -/
theorem represents_pack {u : UnpackedFloat} (h : IsCanonical u) :
    Represents (.ofModel (.pack u)) (partsToRat u) := by
  cases u with
  | notANumber => exact h.elim
  | infinity s => exact h.elim
  | zero s =>
    have hunpack : (Float.ofModel (.pack (.zero s))).toModel.unpack = .zero s :=
      model_unpack_pack_zero s
    have hfinite : (Float.ofModel (.pack (.zero s))).isFinite = true :=
      congrArg UnpackedFloat.isFinite hunpack
    have hrepresents := Represents.of_finite hfinite
    rwa [toRat, hunpack] at hrepresents
  | finite s m e hm =>
    have hcanonical : Canonical m e := h
    rcases le_or_gt e 971 with he | he
    · have hstored : Stored m e := ⟨hcanonical.lt, hcanonical.least_le, he, hcanonical.normal⟩
      have hunpack : (Float.ofModel (.pack (.finite s m e hm))).toModel.unpack =
          .finite s m e hm := hstored.model_unpack_pack s hm
      have hfinite : (Float.ofModel (.pack (.finite s m e hm))).isFinite = true :=
        congrArg UnpackedFloat.isFinite hunpack
      have hrepresents := Represents.of_finite hfinite
      rwa [toRat, hunpack] at hrepresents
    -- The exponent field has no room for the exponent.
    · have hlarge := hcanonical.two_zpow_le he
      have hpositive := limit_pos
      have hbiased : 2 ^ 11 ≤ (e + 1023 + 52).toNat + 1 := by omega
      have hpack : UnpackedFloat.pack .binary64 (.finite s m e hm) = packedInfinity .binary64 s :=
        if_pos hbiased
      have hsame : Float.ofModel (.pack (.finite s m e hm)) = .ofModel (.pack (.infinity s)) := by
        simp only [Float.Model.pack, hpack]
        rfl
      rw [hsame]
      cases s with
      | negative =>
        have hvalue : partsToRat (.finite .negative m e hm) = -(m * 2 ^ e) := rfl
        rw [hvalue]
        refine ⟨fun hlt => ?_, fun hle => ?_, fun _ => neg_infinity.symm⟩
        · rw [abs_neg] at hlt
          exact absurd ((le_abs_self _).trans_lt hlt) hlarge.not_gt
        · linarith
      | positive =>
        have hvalue : partsToRat (.finite .positive m e hm) = m * 2 ^ e := rfl
        rw [hvalue]
        refine ⟨fun hlt => ?_, fun _ => rfl, fun hle => ?_⟩
        · exact absurd ((le_abs_self _).trans_lt hlt) hlarge.not_gt
        · linarith

/-! ## Rounded numbers -/

namespace Marks

variable {em : ExtendedMantissa} {y : ℚ}

/-- A mantissa is rounded to a whole number that is nearest to what it stands for. -/
lemma abs_sub_roundedMantissa (h : Marks em y) :
    |y - em.roundedMantissa| ≤ 1 / 2 ∧
      (|y - em.roundedMantissa| = 1 / 2 → Even (em.roundedMantissa : ℤ)) := by
  obtain ⟨m, r, t⟩ := em
  obtain ⟨hle, hlt, hround, hsticky⟩ := h
  dsimp only at hle hlt hround hsticky
  cases r with
  -- Below a half, the mantissa stays.
  | false =>
    have hless : y < m + 1 / 2 := not_le.mp fun hge => Bool.false_ne_true (hround.mpr hge)
    have hrounded : (⟨m, false, t⟩ : ExtendedMantissa).roundedMantissa = m := by cases t <;> rfl
    have habs : |y - m| < 1 / 2 := abs_lt.mpr ⟨by linarith, by linarith⟩
    rw [hrounded]
    exact ⟨habs.le, fun heq => absurd heq habs.ne⟩
  | true =>
    have hmore : (m : ℚ) + 1 / 2 ≤ y := hround.mp rfl
    cases t with
    -- At a half, it is rounded to an even one.
    | false =>
      have hhalf : y = m + 1 / 2 := by
        by_contra hne
        exact Bool.false_ne_true (hsticky.mpr ⟨fun heq => by linarith, hne⟩)
      have hrounded : (⟨m, true, false⟩ : ExtendedMantissa).roundedMantissa = m + m % 2 := rfl
      rw [hrounded]
      refine ⟨?_, fun _ => ?_⟩
      · rcases Nat.mod_two_eq_zero_or_one m with hmod | hmod <;>
          rw [hmod, hhalf, abs_le] <;> push_cast <;> constructor <;> linarith
      · have heven : Even (m + m % 2) := by
          rw [Nat.even_iff]
          omega
        exact_mod_cast heven
    -- Above a half, it is rounded up.
    | true =>
      have hne : y ≠ m + 1 / 2 := (hsticky.mp rfl).2
      have hrounded : (⟨m, true, true⟩ : ExtendedMantissa).roundedMantissa = m + 1 := rfl
      have habs : |y - ((m + 1 : ℕ) : ℚ)| < 1 / 2 := by
        have hgt : (m : ℚ) + 1 / 2 < y := lt_of_le_of_ne hmore hne.symm
        push_cast
        exact abs_lt.mpr ⟨by linarith, by linarith⟩
      rw [hrounded]
      exact ⟨habs.le, fun heq => absurd heq habs.ne⟩

end Marks

/-- A rounded mantissa is given the parts that the format asks for, and keeps what it is equal
to. -/
lemma finish_spec (s : Sign) {em : ExtendedMantissa} {e : ℤ} (he : -1074 ≤ e)
    (hle : em.roundedMantissa ≤ 2 ^ 53) (hnormal : 2 ^ 52 ≤ em.roundedMantissa ∨ e = -1074) :
    IsCanonical (finish s em e) ∧
      partsToRat (finish s em e) = signed s (em.roundedMantissa * 2 ^ e) := by
  rw [finish]
  generalize em.roundedMantissa = r at hle hnormal
  by_cases hr : r = 0
  · obtain rfl : e = -1074 := hnormal.resolve_left (by omega)
    subst hr
    refine ⟨trivial, ?_⟩
    rw [Nat.cast_zero, zero_mul]
    cases s with
    | negative => exact neg_zero.symm
    | positive => rfl
  · have hpos : 0 < r := Nat.pos_of_ne_zero hr
    rcases hle.eq_or_lt with hmax | hlt
    -- The mantissa has got a bit more, which is zero, and is shifted by one.
    · subst hmax
      have hshift : shiftToTargetExponent .binary64 (2 ^ 53) e .exact =
          (⟨2 ^ 52, false, false⟩, e + 1) := by
        have htarget : Format.binary64.targetExponent (totalExponent (2 ^ 53) e) = e + 1 := by
          rw [Number.targetExponent_eq, totalExponent, Nat.log2_two_pow]
          omega
        rw [shiftToTargetExponent, htarget, shiftToExponent, add_sub_cancel_left]
        rfl
      rw [hshift]
      refine ⟨⟨by norm_num, by omega, .inl le_rfl⟩, congrArg (signed s) ?_⟩
      rw [zpow_add_one₀ two_ne_zero]
      push_cast
      ring
    · have hcanonical : Canonical r e := ⟨hlt, he, hnormal⟩
      rw [shiftToTargetExponent_of_eq (hcanonical.targetExponent_eq hpos)]
      dsimp only
      rw [dif_neg hr]
      exact ⟨hcanonical, rfl⟩

/-- What is rounded becomes the nearest number. -/
theorem Rounds.exists_nearest {s : Sign} {x : ℚ} {u : UnpackedFloat} (h : Rounds s x u)
    (hx : 0 < x) : IsCanonical u ∧ Nearest (signed s x) (partsToRat u) := by
  obtain ⟨em, hem, rfl⟩ := h
  have hleast := least_le_exponentOf x
  have hlt := lt_two_zpow_exponentOf hx.le
  have hge := two_zpow_exponentOf_le hx
  have hspacing := spacing_of_pos hx
  generalize exponentOf x = e at hem hleast hlt hge hspacing
  have hpow : (0 : ℚ) < 2 ^ e := zpow_pos two_pos e
  obtain ⟨hnear, heven⟩ := hem.abs_sub_roundedMantissa
  generalize hr : em.roundedMantissa = r at hnear heven
  have hbounds := abs_le.mp hnear
  -- The mantissa fits into 53 bits, or is rounded up to the next power of two.
  have hle : r ≤ 2 ^ 53 := by
    have hless : x / 2 ^ e < 2 ^ 53 := by
      rw [div_lt_iff₀ hpow]
      rwa [add_comm, zpow_add₀ two_ne_zero] at hlt
    have hlt : (r : ℚ) < 2 ^ 53 + 1 := by linarith
    have hlt : r < 2 ^ 53 + 1 := by exact_mod_cast hlt
    omega
  -- And it has all its bits, unless the exponent is the least one.
  have hnormal : 2 ^ 52 ≤ r ∨ e = -1074 := by
    rcases hleast.eq_or_lt with heq | hlt
    · exact .inr heq.symm
    · have hmore : (2 : ℚ) ^ 52 ≤ x / 2 ^ e := by
        have hge := hge hlt
        rw [le_div_iff₀ hpow]
        rwa [add_comm, zpow_add₀ two_ne_zero] at hge
      have hlt : (2 : ℚ) ^ 52 < r + 1 := by linarith
      have hlt : 2 ^ 52 < r + 1 := by exact_mod_cast hlt
      exact .inl (by omega)
  rw [← hr] at hle hnormal
  obtain ⟨hcanonical, hvalue⟩ := finish_spec s hleast hle hnormal
  refine ⟨hcanonical, ?_⟩
  rw [hvalue, hr]
  refine Nearest.signed ⟨?_, ?_, ?_⟩ s
  · rw [hspacing]
    exact AddSubgroup.mem_zmultiples_iff.mpr ⟨r, zsmul_eq_mul _ _⟩
  all_goals
    have hscaled : |x - r * 2 ^ e| = |x / 2 ^ e - r| * 2 ^ e := by
      rw [← abs_of_pos hpow, ← abs_mul, abs_of_pos hpow, sub_mul, div_mul_cancel₀ _ hpow.ne']
  · rw [hscaled, hspacing, div_eq_inv_mul (2 ^ e), ← one_div]
    exact mul_le_mul_of_nonneg_right hnear hpow.le
  · intro k hk htie
    rw [hscaled, hspacing, div_eq_inv_mul (2 ^ e), ← one_div] at htie
    rw [hspacing] at hk
    have hk : (r : ℚ) = k := mul_right_cancel₀ hpow.ne' hk
    have hk : (r : ℤ) = k := by exact_mod_cast hk
    rw [← hk]
    exact heven (mul_right_cancel₀ hpow.ne' htie)

end BlockLang.Number
