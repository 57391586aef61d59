import BlockLang.Proofs.Number.Rounding

/-!
# Numbers nearest to decimals

Main statement: the number nearest to a decimal depends on what the decimal is equal to, not on how
its digits and its exponent are chosen.
-/

namespace BlockLang

open Float.Model Float.Model.UnpackedFloat
open Number (Marks Fits Rounds)

namespace Decimal

/-- What the decimal is equal to. -/
def toRat (d : Decimal) : ℚ := d.digits * 10 ^ d.exponent

variable {d d' : Decimal}

/-! ## Products -/

/-- The product of the digits, with bits to spare, and a power of ten. -/
lemma rounds_product {n : ℕ} (hn : 0 < n) (k : ℕ) :
    Rounds .positive (n * 10 ^ k)
      (roundWithAccuracy .binary64 .positive ((n <<< 53) * 10 ^ k) (-53) .exact) := by
  have hx : (0 : ℚ) < n * 10 ^ k := mul_pos (by exact_mod_cast hn) (pow_pos (by norm_num) k)
  have hmantissa : (n <<< 53) * 10 ^ k ≠ 0 := by
    rw [Nat.shiftLeft_eq]
    positivity
  refine Number.rounds_roundWithAccuracy .positive hx ?_ ⟨?_, fun hzero => absurd hzero hmantissa⟩
  · have hcast : (n : ℚ) * (10 : ℚ) ^ k / (2 : ℚ) ^ (-53 : ℤ) = ((n <<< 53 * 10 ^ k : ℕ) : ℚ) := by
      rw [Nat.shiftLeft_eq, zpow_neg, div_inv_eq_mul, mul_right_comm]
      push_cast
      rfl
    rw [hcast]
    exact Marks.exact _
  · have hlog : 53 ≤ ((n <<< 53) * 10 ^ k).log2 := by
      rw [Nat.le_log2 hmantissa, Nat.shiftLeft_eq]
      calc 2 ^ 53 = 1 * 2 ^ 53 * 1 := by norm_num
        _ ≤ n * 2 ^ 53 * 10 ^ k :=
          Nat.mul_le_mul (Nat.mul_le_mul_right _ hn) (Nat.one_le_pow _ _ (by norm_num))
    rw [Number.targetExponent_eq, totalExponent]
    omega

/-! ## Quotients -/

/-- What is left over by a division is compared with a half of the divisor. -/
lemma marks_quotient (n : ℕ) {c : ℕ} (hc : 0 < c) :
    Marks (.ofMantissaAndAccuracy (n / c) (accuracyOfFraction (n % c) c)) ((n : ℚ) / c) := by
  have hcpos : (0 : ℚ) < c := by exact_mod_cast hc
  have hquotient : (n : ℚ) / c = ((n / c : ℕ) : ℚ) + ((n % c : ℕ) : ℚ) / c := by
    have hdiv : (n : ℚ) = c * ((n / c : ℕ) : ℚ) + ((n % c : ℕ) : ℚ) := by
      exact_mod_cast (Nat.div_add_mod n c).symm
    rw [div_eq_iff hcpos.ne', add_mul, div_mul_cancel₀ _ hcpos.ne', hdiv]
    ring
  rw [hquotient]
  have hrest : n % c < c := Nat.mod_lt n hc
  generalize n / c = q
  generalize n % c = r at hrest
  have hlt : (r : ℚ) / c < 1 := (div_lt_one hcpos).mpr (by exact_mod_cast hrest)
  have hnonneg : 0 ≤ (r : ℚ) / c := by positivity
  rw [accuracyOfFraction]
  split
  · rename_i hzero
    rw [hzero, Nat.cast_zero, zero_div, add_zero]
    exact Marks.exact q
  · rename_i hzero
    have hpos : 0 < (r : ℚ) / c := div_pos (by exact_mod_cast Nat.pos_of_ne_zero hzero) hcpos
    -- What is left over is compared with a half of the divisor, as a whole number.
    cases hcompare : compare (2 * r) c with
    | lt =>
      have hhalf : (r : ℚ) / c < 1 / 2 := by
        have hless : 2 * (r : ℚ) < c := by exact_mod_cast Nat.compare_eq_lt.mp hcompare
        rw [div_lt_iff₀ hcpos]
        linarith
      exact Marks.of_fraction hnonneg hlt (iff_of_false Bool.false_ne_true hhalf.not_ge)
        (iff_of_true rfl ⟨hpos.ne', hhalf.ne⟩)
    | eq =>
      have hhalf : (r : ℚ) / c = 1 / 2 := by
        have hsame : 2 * (r : ℚ) = c := by exact_mod_cast Nat.compare_eq_eq.mp hcompare
        rw [div_eq_iff hcpos.ne']
        linarith
      exact Marks.of_fraction hnonneg hlt (iff_of_true rfl hhalf.ge)
        (iff_of_false Bool.false_ne_true fun h => h.2 hhalf)
    | gt =>
      have hhalf : 1 / 2 < (r : ℚ) / c := by
        have hmore : (c : ℚ) < 2 * r := by exact_mod_cast Nat.compare_eq_gt.mp hcompare
        rw [lt_div_iff₀ hcpos]
        linarith
      exact Marks.of_fraction hnonneg hlt (iff_of_true rfl hhalf.le)
        (iff_of_true rfl ⟨hpos.ne', hhalf.ne'⟩)

/-- A quotient has about as many bits as the number that is divided has more than the divisor. -/
lemma two_pow_le_quotient {n c j a : ℕ} (hn : n ≠ 0) (hc : 0 < c)
    (h : j + c.log2 + 1 ≤ n.log2 + a) : 2 ^ j ≤ (n <<< a) / c := by
  rw [Nat.le_div_iff_mul_le hc, Nat.shiftLeft_eq]
  calc 2 ^ j * c ≤ 2 ^ j * 2 ^ (c.log2 + 1) := Nat.mul_le_mul_left _ Nat.lt_log2_self.le
    _ = 2 ^ (j + c.log2 + 1) := by rw [← pow_add, Nat.add_assoc]
    _ ≤ 2 ^ (n.log2 + a) := Nat.pow_le_pow_right two_pos h
    _ = 2 ^ n.log2 * 2 ^ a := pow_add 2 _ _
    _ ≤ n * 2 ^ a := Nat.mul_le_mul_right _ (Nat.log2_self_le hn)

/-- The bits of a quotient are as many as the format has, unless the quotient is very small. -/
lemma fits_quotient {n c : ℕ} (hn : n ≠ 0) (hc : 0 < c) {t : ℤ}
    (ht : t = min 0 (Format.binary64.targetExponent (totalExponent n 0 - totalExponent c 0))) :
    Fits ((n <<< (-t).toNat) / c) t := by
  rw [Number.targetExponent_eq, totalExponent, totalExponent] at ht
  generalize hq : (n <<< (-t).toNat) / c = q
  have hbits : ∀ j, j + c.log2 + 1 ≤ n.log2 + (-t).toNat → 2 ^ j ≤ q := by
    intro j hj
    rw [← hq]
    exact two_pow_le_quotient hn hc hj
  -- A quotient can be zero only if the least exponent keeps it from getting its bits.
  have hzero : q = 0 → t = -1074 := by
    intro hzero
    have hless : ¬ 0 + c.log2 + 1 ≤ n.log2 + (-t).toNat := by
      intro hj
      have hone := hbits 0 hj
      omega
    omega
  refine ⟨?_, hzero⟩
  rw [Number.targetExponent_eq, totalExponent]
  by_cases hq0 : q = 0
  · have hleast := hzero hq0
    omega
  · by_cases hj : c.log2 + 1 ≤ n.log2 + (-t).toNat
    · have hlog : n.log2 + (-t).toNat - (c.log2 + 1) ≤ q.log2 := by
        rw [Nat.le_log2 hq0]
        exact hbits _ (by omega)
      omega
    · omega

/-- The digits divided by a power of ten, with as many bits as the format has. -/
lemma rounds_quotient {n : ℕ} (hn : 0 < n) {c : ℕ} (hc : 0 < c) :
    Rounds .positive ((n : ℚ) / c)
      (UnpackedFloat.div .binary64 (.finite .positive n 0 hn) (.finite .positive c 0 hc)) := by
  have hx : (0 : ℚ) < (n : ℚ) / c := div_pos (by exact_mod_cast hn) (by exact_mod_cast hc)
  generalize ht : min 0 (Format.binary64.targetExponent (totalExponent n 0 - totalExponent c 0)) = t
  have hfits := fits_quotient hn.ne' hc ht.symm
  have hdiv : UnpackedFloat.div .binary64 (.finite .positive n 0 hn) (.finite .positive c 0 hc) =
      roundWithAccuracy .binary64 .positive ((n <<< (-t).toNat) / c) t
        (accuracyOfFraction ((n <<< (-t).toNat) % c) c) := by
    rw [← ht, ← Int.zero_sub]
    rfl
  rw [hdiv]
  refine Number.rounds_roundWithAccuracy .positive hx ?_ hfits
  have hmarks := marks_quotient (n <<< (-t).toNat) hc
  have hle : t ≤ 0 := by omega
  have hscaled : ((n <<< (-t).toNat : ℕ) : ℚ) / c = (n : ℚ) / c / 2 ^ t := by
    have hnat : ((-t).toNat : ℤ) = -t := by omega
    rw [Nat.shiftLeft_eq, Nat.cast_mul, Nat.cast_pow, Nat.cast_ofNat, ← zpow_natCast, hnat,
      zpow_neg, div_right_comm, div_eq_mul_inv (n : ℚ)]
  rwa [hscaled] at hmarks

/-! ## Decimals -/

lemma pack_congr {u u' : UnpackedFloat}
    (h : UnpackedFloat.pack .binary64 u = UnpackedFloat.pack .binary64 u') :
    Float.Model.pack u = Float.Model.pack u' := by
  simp only [Float.Model.pack, h]

/-- Exponents that are not looked at because they are large belong to numbers that are too large. -/
lemma pack_of_rounds_product {n : ℕ} (hn : 0 < n) {k : ℕ} (hk : 2048 < k) {u : UnpackedFloat}
    (h : Rounds .positive (n * 10 ^ k) u) :
    Float.Model.pack (.infinity .positive) = Float.Model.pack u := by
  have hlarge : (2 : ℚ) ^ (k : ℤ) ≤ n * 10 ^ k := by
    have hone : (1 : ℚ) ≤ n := by exact_mod_cast hn
    calc (2 : ℚ) ^ (k : ℤ) = 2 ^ k := zpow_natCast 2 k
      _ ≤ 10 ^ k := pow_le_pow_left₀ zero_le_two (by norm_num) k
      _ ≤ n * 10 ^ k := le_mul_of_one_le_left (by positivity) hone
  exact pack_congr (h.pack_of_large (by omega) hlarge).symm

/-- Exponents that are not looked at because they are small belong to numbers that are too small. -/
lemma eq_zero_of_rounds_quotient {n : ℕ} (hn : 0 < n) {k : ℕ} (hk : 2048 + n.log2 < k)
    {u : UnpackedFloat} (h : Rounds .positive ((n : ℚ) / (10 ^ k : ℕ)) u) :
    u = .zero .positive := by
  have hpow : (0 : ℚ) < (10 ^ k : ℕ) := by positivity
  have hpos : (0 : ℚ) < (n : ℚ) / (10 ^ k : ℕ) := div_pos (by exact_mod_cast hn) hpow
  have hsmall : (n : ℚ) / (10 ^ k : ℕ) < 2 ^ (n.log2 + 1 - 3 * k : ℤ) := by
    have hdigits : (n : ℚ) < 2 ^ (n.log2 + 1) := by exact_mod_cast Nat.lt_log2_self
    have height : ((2 : ℚ) ^ (3 * k)) ≤ (10 ^ k : ℕ) := by
      rw [pow_mul, Nat.cast_pow]
      exact pow_le_pow_left₀ (by norm_num) (by norm_num) k
    rw [div_lt_iff₀ hpow]
    calc (n : ℚ) < 2 ^ (n.log2 + 1) := hdigits
      _ = 2 ^ (n.log2 + 1 - 3 * k : ℤ) * 2 ^ (3 * k) := by
        rw [← zpow_natCast, ← zpow_natCast, ← zpow_add₀ two_ne_zero]
        push_cast
        ring_nf
      _ ≤ 2 ^ (n.log2 + 1 - 3 * k : ℤ) * (10 ^ k : ℕ) :=
        mul_le_mul_of_nonneg_left height (zpow_pos two_pos _).le
  exact h.eq_zero_of_small hpos (by omega) hsmall

/-- The number nearest to a decimal is the one that what it is equal to is rounded to. -/
theorem exists_rounds (h : 0 < d.digits) :
    ∃ u, Rounds .positive d.toRat u ∧ d.toFloat = .ofModel (.pack u) := by
  obtain ⟨n, k⟩ := d
  have hpos : 0 < n := h
  have hn : n ≠ 0 := hpos.ne'
  have htoFloat : toFloat ⟨n, k⟩ = .ofModel (.pack (.ofScientific .binary64 n k)) := rfl
  rw [htoFloat, UnpackedFloat.ofScientific, dif_neg hn]
  by_cases hk : 0 ≤ k
  · obtain ⟨k, rfl⟩ := Int.eq_ofNat_of_zero_le hk
    have hrounds := rounds_product hpos k
    have htoRat : toRat ⟨n, k⟩ = n * 10 ^ k := by rw [toRat, zpow_natCast]
    rw [htoRat]
    refine ⟨_, hrounds, ?_⟩
    -- A product that is sure to be infinite is not computed.
    by_cases hlarge : (k : ℤ) > 2 ^ 11
    · rw [if_pos hlarge]
      exact congrArg Float.ofModel (pack_of_rounds_product hpos (by omega) hrounds)
    · have hnot_small : ¬ (k : ℤ) < -(2 ^ 11 + n.log2) := by omega
      rw [if_neg hlarge, if_neg hnot_small, if_pos hk]
      rfl
  · obtain ⟨k, rfl⟩ := Int.exists_eq_neg_ofNat (Int.not_le.mp hk).le
    have hpow : 0 < 10 ^ k := Nat.pow_pos (by norm_num)
    have hrounds := rounds_quotient hpos hpow
    have htoRat : toRat ⟨n, -k⟩ = (n : ℚ) / (10 ^ k : ℕ) := by
      rw [toRat, zpow_neg, zpow_natCast, div_eq_mul_inv, Nat.cast_pow, Nat.cast_ofNat]
    rw [htoRat]
    refine ⟨_, hrounds, ?_⟩
    have hnot_large : ¬ (-k : ℤ) > 2 ^ 11 := by omega
    rw [if_neg hnot_large]
    -- Neither is a quotient that is sure to be zero.
    by_cases hsmall : (-k : ℤ) < -(2 ^ 11 + n.log2)
    · rw [if_pos hsmall, eq_zero_of_rounds_quotient hpos (by omega) hrounds]
    · rw [if_neg hsmall, if_neg hk]
      have hnat : (- -(k : ℤ)).toNat = k := by omega
      simp only [hnat]

/-- Decimals that are equal have the same nearest number. -/
theorem toFloat_eq_of_toRat_eq (h : d.toRat = d'.toRat) : d.toFloat = d'.toFloat := by
  have hpow : ∀ k : ℤ, (10 : ℚ) ^ k ≠ 0 := fun k => zpow_ne_zero k (by norm_num)
  by_cases hd : d.digits = 0
  · have hd' : d'.digits = 0 := by
      rw [toRat, hd, Nat.cast_zero, zero_mul] at h
      exact_mod_cast (mul_eq_zero.mp h.symm).resolve_right (hpow _)
    rw [toFloat, hd, toFloat, hd']
    rfl
  · have hd' : d'.digits ≠ 0 := by
      intro hd'
      rw [toRat, toRat, hd', Nat.cast_zero, zero_mul] at h
      exact hd (by exact_mod_cast (mul_eq_zero.mp h).resolve_right (hpow _))
    obtain ⟨u, hu, hfloat⟩ := exists_rounds (Nat.pos_of_ne_zero hd)
    obtain ⟨u', hu', hfloat'⟩ := exists_rounds (Nat.pos_of_ne_zero hd')
    rw [← h] at hu'
    rw [hfloat, hfloat', hu.eq hu']

end Decimal

end BlockLang
