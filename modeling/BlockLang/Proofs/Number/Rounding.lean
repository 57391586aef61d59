import BlockLang.Number.Decimal
import Mathlib

/-!
# Rounding to binary64

A mantissa with an exponent and an accuracy stands for a rational number, and is rounded to a
number of the format. Main statement: the number that it is rounded to depends on the rational
number only, not on how it is given.
-/

namespace BlockLang.Number

open Float.Model Float.Model.UnpackedFloat

/-! ## Mantissas with residual bits -/

/-- The mantissa is the whole part of `y`, the round bit says whether a half or more is left, and
the sticky bit whether something else than nothing or a half is left. -/
structure Marks (em : ExtendedMantissa) (y : ℚ) : Prop where
  le : (em.mantissa : ℚ) ≤ y
  lt : y < em.mantissa + 1
  round : em.roundBit = true ↔ (em.mantissa : ℚ) + 1 / 2 ≤ y
  sticky : em.stickyBit = true ↔ y ≠ em.mantissa ∧ y ≠ em.mantissa + 1 / 2

namespace Marks

variable {em em' : ExtendedMantissa} {y : ℚ}

/-- There is one way to mark a number. -/
lemma eq (h : Marks em y) (h' : Marks em' y) : em = em' := by
  obtain ⟨m, r, s⟩ := em
  obtain ⟨m', r', s'⟩ := em'
  have hlt : (m : ℚ) < m' + 1 := h.le.trans_lt h'.lt
  have hlt' : (m' : ℚ) < m + 1 := h'.le.trans_lt h.lt
  have hm : m = m' := by
    have hlt : m < m' + 1 := by exact_mod_cast hlt
    have hlt' : m' < m + 1 := by exact_mod_cast hlt'
    omega
  subst hm
  have hr : r = r' := Bool.eq_iff_iff.mpr (h.round.trans h'.round.symm)
  have hs : s = s' := Bool.eq_iff_iff.mpr (h.sticky.trans h'.sticky.symm)
  rw [hr, hs]

/-- The two bits tell how what is left over the whole part compares with a half. -/
lemma of_fraction {q : ℕ} {f : ℚ} {r s : Bool} (hnonneg : 0 ≤ f) (hlt : f < 1)
    (hround : r = true ↔ 1 / 2 ≤ f) (hsticky : s = true ↔ f ≠ 0 ∧ f ≠ 1 / 2) :
    Marks ⟨q, r, s⟩ (q + f) where
  le := le_add_of_nonneg_right hnonneg
  lt := (add_lt_add_iff_left _).mpr hlt
  round := hround.trans (add_le_add_iff_left _).symm
  sticky := hsticky.trans (and_congr add_ne_left.symm (add_ne_add_right _).symm)

/-- A whole number leaves nothing over. -/
lemma exact (m : ℕ) : Marks (.ofMantissaAndAccuracy m .exact) m := by
  have hmarks := of_fraction (q := m) (le_refl 0) one_pos
    (iff_of_false Bool.false_ne_true (by norm_num)) (iff_of_false Bool.false_ne_true (by simp))
  rwa [add_zero] at hmarks

/-- One shift to the right keeps the marks of half the value. -/
lemma shiftRightOne (h : Marks em y) : Marks em.shiftRightOne (y / 2) := by
  obtain ⟨m, r, s⟩ := em
  obtain ⟨hle, hlt, hround, hsticky⟩ := h
  dsimp only at hle hlt hround hsticky
  -- Something is left over by the number itself exactly when one of its bits is set.
  have hrest : (r || s) = true ↔ y ≠ m := by
    rw [Bool.or_eq_true, hround, hsticky]
    constructor
    · rintro (h | h) rfl
      · linarith
      · exact h.1 rfl
    · intro hne
      by_cases hhalf : (m : ℚ) + 1 / 2 ≤ y
      · exact .inl hhalf
      · exact .inr ⟨hne, fun heq => hhalf heq.ge⟩
  -- The last bit of the mantissa is added to what is left over, and both are halved.
  have hsplit : y / 2 = (m / 2 : ℕ) + (y - m + (m % 2 : ℕ)) / 2 := by
    have hcast : (m : ℚ) = 2 * (m / 2 : ℕ) + (m % 2 : ℕ) := by
      exact_mod_cast (Nat.div_add_mod m 2).symm
    linarith
  rw [hsplit]
  show Marks ⟨m / 2, m % 2 != 0, r || s⟩ _
  rcases Nat.mod_two_eq_zero_or_one m with hmod | hmod
  · rw [hmod, Nat.cast_zero, add_zero]
    refine of_fraction (by linarith) (by linarith) ?_ ?_
    · exact iff_of_false Bool.false_ne_true (by linarith)
    · rw [hrest]
      constructor
      · intro hne
        exact ⟨fun heq => hne (by linarith), fun heq => by linarith⟩
      · rintro ⟨hne, -⟩ heq
        exact hne (by linarith)
  · rw [hmod, Nat.cast_one]
    refine of_fraction (by linarith) (by linarith) ?_ ?_
    · exact iff_of_true rfl (by linarith)
    · rw [hrest]
      constructor
      · intro hne
        exact ⟨fun heq => by linarith, fun heq => hne (by linarith)⟩
      · rintro ⟨-, hne⟩ heq
        exact hne (by linarith)

/-- A shift to the right keeps the marks of the value divided. -/
lemma shiftRight (h : Marks em y) (n : ℕ) : Marks (em >>> n) (y / 2 ^ n) := by
  induction n with
  | zero =>
    rw [pow_zero, div_one]
    exact h
  | succ n ih =>
    have hnext := ih.shiftRightOne
    rw [div_div, ← pow_succ] at hnext
    exact hnext

end Marks

/-! ## The exponent of the format -/

/-- The exponent with which the format represents numbers of the size of `x`. -/
def exponentOf (x : ℚ) : ℤ := Format.binary64.targetExponent (Int.log 2 x + 1)

lemma targetExponent_eq (n : ℤ) : Format.binary64.targetExponent n = max (n - 53) (-1074) := rfl

/-- The exponent is not above the one that the format asks for, so that rounding drops bits only. -/
structure Fits (m : ℕ) (e : ℤ) : Prop where
  le : e ≤ Format.binary64.targetExponent (totalExponent m e)
  of_zero : m = 0 → e = -1074

/-- The exponent that the format asks for is found from the mantissa. -/
lemma Fits.targetExponent_eq {m : ℕ} {e : ℤ} (h : Fits m e) {x : ℚ} (hx : 0 < x)
    (hle : (m : ℚ) * 2 ^ e ≤ x) (hlt : x < (m + 1) * 2 ^ e) :
    Format.binary64.targetExponent (totalExponent m e) = exponentOf x := by
  have hpos : (0 : ℚ) ≤ 2 ^ e := (zpow_pos two_pos e).le
  by_cases hm : m = 0
  · -- Below the least of its numbers the format has one exponent.
    obtain rfl := h.of_zero hm
    rw [hm, Nat.cast_zero, zero_add, one_mul] at hlt
    have hlog : Int.log 2 x < -1074 :=
      (Int.lt_zpow_iff_log_lt one_lt_two hx).mp (by exact_mod_cast hlt)
    rw [hm, exponentOf, Number.targetExponent_eq, Number.targetExponent_eq, totalExponent,
      Nat.log2_zero]
    omega
  · -- Otherwise the value has its highest bit where the mantissa has it.
    have hpow_le : (2 : ℚ) ^ (m.log2 + e : ℤ) ≤ x := by
      have hself : ((2 ^ m.log2 : ℕ) : ℚ) ≤ m := by exact_mod_cast Nat.log2_self_le hm
      calc (2 : ℚ) ^ (m.log2 + e : ℤ) = ((2 ^ m.log2 : ℕ) : ℚ) * 2 ^ e := by
            rw [zpow_add₀ two_ne_zero, zpow_natCast, Nat.cast_pow, Nat.cast_ofNat]
        _ ≤ m * 2 ^ e := mul_le_mul_of_nonneg_right hself hpos
        _ ≤ x := hle
    have hlt_pow : x < (2 : ℚ) ^ (m.log2 + e + 1 : ℤ) := by
      have hself : (m : ℚ) + 1 ≤ ((2 ^ (m.log2 + 1) : ℕ) : ℚ) := by
        exact_mod_cast Nat.succ_le_of_lt Nat.lt_log2_self
      calc x < (m + 1) * 2 ^ e := hlt
        _ ≤ ((2 ^ (m.log2 + 1) : ℕ) : ℚ) * 2 ^ e := mul_le_mul_of_nonneg_right hself hpos
        _ = (2 : ℚ) ^ (m.log2 + e + 1 : ℤ) := by
            rw [add_right_comm, zpow_add₀ two_ne_zero, Nat.cast_pow, Nat.cast_ofNat,
              ← zpow_natCast, Nat.cast_add, Nat.cast_one]
    have hlog : Int.log 2 x = m.log2 + e := by
      apply le_antisymm
      · have hless := (Int.lt_zpow_iff_log_lt one_lt_two hx).mp (by exact_mod_cast hlt_pow)
        omega
      · exact (Int.zpow_le_iff_le_log one_lt_two hx).mp (by exact_mod_cast hpow_le)
    rw [exponentOf, hlog, totalExponent, add_right_comm]

/-! ## Rounding -/

/-- Rounds a mantissa to its bits. A mantissa that gets a bit more is shifted once again. -/
def finish (s : Sign) (em : ExtendedMantissa) (e : ℤ) : UnpackedFloat :=
  let (final, exponent) := shiftToTargetExponent .binary64 em.roundedMantissa e .exact
  if h : final.mantissa = 0 then .zero s
  else .finite s final.mantissa exponent (Nat.pos_of_ne_zero h)

/-- The number of the format that `x` is rounded to, with a sign. -/
def Rounds (s : Sign) (x : ℚ) (u : UnpackedFloat) : Prop :=
  ∃ em, Marks em (x / 2 ^ exponentOf x) ∧ u = finish s em (exponentOf x)

/-- A value is rounded in one way only. -/
lemma Rounds.eq {s : Sign} {x : ℚ} {u u' : UnpackedFloat} (h : Rounds s x u) (h' : Rounds s x u') :
    u = u' := by
  obtain ⟨em, hem, rfl⟩ := h
  obtain ⟨em', hem', rfl⟩ := h'
  rw [hem.eq hem']

/-- A mantissa with an exponent and an accuracy is rounded as the number that it stands for. -/
theorem rounds_roundWithAccuracy {m : ℕ} {e : ℤ} {a : Accuracy} {x : ℚ} (s : Sign) (hx : 0 < x)
    (h : Marks (.ofMantissaAndAccuracy m a) (x / 2 ^ e)) (hfits : Fits m e) :
    Rounds s x (roundWithAccuracy .binary64 s m e a) := by
  have hpos : (0 : ℚ) < 2 ^ e := zpow_pos two_pos e
  have hmantissa : (ExtendedMantissa.ofMantissaAndAccuracy m a).mantissa = m := by
    rcases a with _ | _ | _ | _ <;> rfl
  have hle : (m : ℚ) * 2 ^ e ≤ x := by
    have hle := h.le
    rwa [hmantissa, le_div_iff₀ hpos] at hle
  have hlt : x < (m + 1) * 2 ^ e := by
    have hlt := h.lt
    rwa [hmantissa, div_lt_iff₀ hpos] at hlt
  have htarget := hfits.targetExponent_eq hx hle hlt
  -- The exponent is raised to the one of the format, so shifting never adds bits.
  have hamount : e + ((exponentOf x - e).toNat : ℤ) = exponentOf x := by
    have hle := hfits.le
    rw [htarget] at hle
    omega
  refine ⟨ExtendedMantissa.ofMantissaAndAccuracy m a >>> (exponentOf x - e).toNat, ?_, ?_⟩
  · have hshift := h.shiftRight (exponentOf x - e).toNat
    rwa [div_div, ← zpow_natCast, ← zpow_add₀ two_ne_zero, hamount] at hshift
  · rw [roundWithAccuracy, shiftToTargetExponent, htarget, shiftToExponent, hamount]
    rfl

/-! ## Numbers of the format, too large and too small ones -/

/-- What has the target exponent is not shifted. -/
lemma shiftToTargetExponent_of_eq {m : ℕ} {e : ℤ}
    (h : Format.binary64.targetExponent (totalExponent m e) = e) :
    shiftToTargetExponent .binary64 m e .exact = (⟨m, false, false⟩, e) := by
  rw [shiftToTargetExponent, h, shiftToExponent, sub_self]
  exact congrArg _ (add_zero e)

/-- A number of the format is rounded to itself. -/
theorem rounds_of_targetExponent {m : ℕ} {e : ℤ} (s : Sign) (hm : 0 < m)
    (h : Format.binary64.targetExponent (totalExponent m e) = e) :
    Rounds s (m * 2 ^ e) (.finite s m e hm) := by
  have hpos : (0 : ℚ) < 2 ^ e := zpow_pos two_pos e
  have hx : (0 : ℚ) < m * 2 ^ e := mul_pos (by exact_mod_cast hm) hpos
  have hmarks : Marks (.ofMantissaAndAccuracy m .exact) (m * 2 ^ e / 2 ^ e) := by
    rw [mul_div_cancel_right₀ _ hpos.ne']
    exact Marks.exact m
  have hfits : Fits m e := ⟨h.ge, fun hzero => absurd hzero hm.ne'⟩
  have hrounds := rounds_roundWithAccuracy s hx hmarks hfits
  have hsame : roundWithAccuracy .binary64 s m e .exact = .finite s m e hm := by
    have hrounded : (⟨m, false, false⟩ : ExtendedMantissa).roundedMantissa = m := rfl
    simp only [roundWithAccuracy, shiftToTargetExponent_of_eq h, hrounded, dif_neg hm.ne']
  rwa [hsame] at hrounds

lemma mantissa_shiftRight (em : ExtendedMantissa) (n : ℕ) :
    (em >>> n).mantissa = em.mantissa / 2 ^ n := by
  induction n with
  | zero => exact (Nat.div_one _).symm
  | succ n ih =>
    show (em >>> n).mantissa / 2 = _
    rw [ih, Nat.div_div_eq_div_mul, pow_succ]

/-- What is rounded to a mantissa other than zero has at least the exponent it is rounded with. -/
lemma exists_finish_eq_finite (s : Sign) {em : ExtendedMantissa} {e : ℤ} (he : -1074 ≤ e)
    (hem : 0 < em.mantissa) :
    ∃ m e' hm, finish s em e = .finite s m e' hm ∧ e ≤ e' := by
  -- Rounding up or down leaves the mantissa at least what it is without its residual bits.
  have hrounded : em.mantissa ≤ em.roundedMantissa := by
    rw [ExtendedMantissa.roundedMantissa]
    rcases em.accuracy with _ | _ | _ | _ <;> simp [Accuracy.roundToNearestEven]
  have hpos : em.roundedMantissa ≠ 0 := by omega
  rw [finish]
  generalize em.roundedMantissa = r at hpos
  rw [shiftToTargetExponent, shiftToExponent, Number.targetExponent_eq, totalExponent]
  generalize hn : (max ((r.log2 : ℤ) + 1 + e - 53) (-1074) - e).toNat = n
  have hmantissa : ((ExtendedMantissa.ofMantissaAndAccuracy r .exact) >>> n).mantissa ≠ 0 := by
    -- No more bits are dropped than there are below the first one.
    have hle : 2 ^ n ≤ r := by
      calc 2 ^ n ≤ 2 ^ r.log2 := Nat.pow_le_pow_right two_pos (by omega)
        _ ≤ r := Nat.log2_self_le hpos
    rw [mantissa_shiftRight]
    exact (Nat.div_pos hle (Nat.two_pow_pos n)).ne'
  simp only [dif_neg hmantissa]
  exact ⟨_, _, Nat.pos_of_ne_zero hmantissa, rfl, by omega⟩

/-- Numbers that are too large are packed as infinity. -/
theorem Rounds.pack_of_large {s : Sign} {x : ℚ} {u : UnpackedFloat} (h : Rounds s x u) {k : ℤ}
    (hk : 1024 ≤ k) (hx : (2 : ℚ) ^ k ≤ x) :
    UnpackedFloat.pack .binary64 u = packedInfinity .binary64 s := by
  have hpos : 0 < x := lt_of_lt_of_le (zpow_pos two_pos _) hx
  have hlog : k ≤ Int.log 2 x := (Int.zpow_le_iff_le_log one_lt_two hpos).mp (by exact_mod_cast hx)
  have hexponent : exponentOf x = Int.log 2 x - 52 := by
    rw [exponentOf, targetExponent_eq]
    omega
  obtain ⟨em, hem, rfl⟩ := h
  have hmantissa : 0 < em.mantissa := by
    have hself : (2 : ℚ) ^ Int.log 2 x ≤ x := by exact_mod_cast Int.zpow_log_le_self one_lt_two hpos
    have hone : 1 ≤ x / 2 ^ exponentOf x := by
      rw [one_le_div (zpow_pos two_pos _)]
      exact (zpow_le_zpow_right₀ one_le_two (by omega)).trans hself
    have hlt : (0 : ℚ) < em.mantissa := by linarith [hem.lt]
    exact_mod_cast hlt
  have hleast : -1074 ≤ exponentOf x := by omega
  obtain ⟨m, e, hm, hfinish, hle⟩ := exists_finish_eq_finite s hleast hmantissa
  have hbiased : 2 ^ 11 ≤ (e + 1023 + 52).toNat + 1 := by omega
  rw [hfinish]
  exact if_pos hbiased

/-- Numbers that are too small are rounded to zero. -/
theorem Rounds.eq_zero_of_small {s : Sign} {x : ℚ} {u : UnpackedFloat} (h : Rounds s x u)
    (hpos : 0 < x) {k : ℤ} (hk : k ≤ -1075) (hx : x < (2 : ℚ) ^ k) : u = .zero s := by
  have hlog : Int.log 2 x < k := (Int.lt_zpow_iff_log_lt one_lt_two hpos).mp (by exact_mod_cast hx)
  have hexponent : exponentOf x = -1074 := by
    rw [exponentOf, targetExponent_eq]
    omega
  obtain ⟨em, hem, rfl⟩ := h
  -- The value is less than half of the least number, so no bit of it is kept.
  have hhalf : x / 2 ^ exponentOf x < 1 / 2 := by
    rw [hexponent, div_lt_iff₀ (zpow_pos two_pos _)]
    calc x < (2 : ℚ) ^ k := hx
      _ ≤ 2 ^ (-1074 - 1 : ℤ) := zpow_le_zpow_right₀ one_le_two (by omega)
      _ = 1 / 2 * 2 ^ (-1074 : ℤ) := by rw [zpow_sub_one₀ two_ne_zero, mul_comm, one_div]
  obtain ⟨m, r, t⟩ := em
  have hm : m = 0 := by
    have hlt : (m : ℚ) < 1 := by linarith [hem.le]
    have hlt : m < 1 := by exact_mod_cast hlt
    omega
  have hr : r = false := by
    by_contra hr
    have hround := hem.round.mp (Bool.eq_true_of_not_eq_false hr)
    rw [hm] at hround
    simp only [Nat.cast_zero] at hround
    linarith
  have hrounded : (⟨m, r, t⟩ : ExtendedMantissa).roundedMantissa = 0 := by
    rw [hm, hr]
    cases t <;> rfl
  rw [finish, hrounded, hexponent]
  rfl

end BlockLang.Number
