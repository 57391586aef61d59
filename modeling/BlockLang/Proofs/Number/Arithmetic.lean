import BlockLang.Proofs.Number.Nearest
import BlockLang.Proofs.Number.Values

/-!
# Sums and products

Main statements: the sum and the product of two finite numbers are the numbers nearest to the sum
and the product of what they are equal to, and a whole number of at most 53 bits is its own nearest
number.
-/

namespace BlockLang.Number

open Float.Model Float.Model.UnpackedFloat
open AddSubgroup (zmultiples)

/-! ## Numbers nearest to a rational number -/

/-- The number that `x` is rounded to, which is infinite if `x` is too large. -/
def IsNearest (c : Float) (x : ℚ) : Prop :=
  ∃ v, Nearest x v ∧ Represents c v

/-- From here on numbers are too large for the format: half a step below `limit`. -/
def overflowBound : ℚ := limit - 2 ^ (971 : ℤ) / 2

section

variable {a b c : Float} {x v : ℚ}

/-- What is nearest to a value reaches the limit just where the value reaches the bound of
overflow. -/
lemma Nearest.limit_le_iff (h : Nearest x v) : limit ≤ v ↔ overflowBound ≤ x := by
  have hleast : (-1074 : ℤ) ≤ 971 := by norm_num
  have hlimit : limit = 2 ^ (971 + 53 : ℤ) := congrArg (fun e : ℤ => (2 : ℚ) ^ e) (by norm_num)
  have hiff := h.two_zpow_le_iff hleast
  rwa [← hlimit] at hiff

lemma Nearest.le_neg_limit_iff (h : Nearest x v) : v ≤ -limit ↔ x ≤ -overflowBound := by
  have hiff := h.neg.limit_le_iff
  rwa [le_neg, le_neg (a := overflowBound)] at hiff

/-- What is packed is the nearest float to every value that its parts are nearest to. -/
lemma IsNearest.of_isCanonical {u : UnpackedFloat} (h : IsCanonical u)
    (hnear : Nearest x (partsToRat u)) : IsNearest (.ofModel (.pack u)) x :=
  ⟨_, hnear, represents_pack h⟩

/-- A finite float is nearest to its own value. -/
lemma IsNearest.of_isFinite (h : a.isFinite = true) : IsNearest a (toRat a) :=
  ⟨_, .of_mem (toRat_mem_zmultiples h), .of_finite h⟩

lemma isNearest_zero (s : Sign) : IsNearest (.ofModel (.pack (.zero s))) 0 :=
  .of_isCanonical (u := .zero s) trivial .zero

/-- Below the bound of overflow, the nearest float is finite. -/
lemma IsNearest.finite (h : IsNearest c x) (hlt : |x| < overflowBound) :
    c.isFinite = true ∧ Nearest x (toRat c) := by
  obtain ⟨v, hnear, hrepresents⟩ := h
  have hbounds := abs_lt.mp hlt
  have hv : |v| < limit := by
    rw [abs_lt]
    constructor
    · exact not_le.mp fun hle => (hnear.le_neg_limit_iff.mp hle).not_gt hbounds.1
    · exact not_le.mp fun hle => (hnear.limit_le_iff.mp hle).not_gt hbounds.2
  obtain ⟨hfinite, htoRat⟩ := hrepresents.finite hv
  refine ⟨hfinite, ?_⟩
  rwa [htoRat]

/-- A number on the grid below the limit of the format is a number of the format. -/
lemma IsNearest.exact (h : IsNearest c x) (hmem : x ∈ zmultiples (spacing x)) (hlt : |x| < limit) :
    c.isFinite = true ∧ toRat c = x := by
  obtain ⟨v, hnear, hrepresents⟩ := h
  obtain rfl := hnear.eq_of_mem hmem
  exact hrepresents.finite hlt

/-- A value that is stored without rounding is its own nearest float. -/
lemma IsNearest.exact_of_lt {m e : ℤ} (h : IsNearest c (m * 2 ^ e)) (hm : |m| < 2 ^ 53)
    (hleast : -1074 ≤ e) (he : e ≤ 971) : c.isFinite = true ∧ toRat c = m * 2 ^ e := by
  refine h.exact (mem_zmultiples_spacing hm hleast) ?_
  have hpow : (0 : ℚ) < 2 ^ e := zpow_pos two_pos e
  rw [abs_mul, abs_of_pos hpow]
  calc |(m : ℚ)| * 2 ^ e < 2 ^ 53 * 2 ^ e := mul_lt_mul_of_pos_right (by exact_mod_cast hm) hpow
    _ = 2 ^ (53 + e) := by
      rw [zpow_add₀ two_ne_zero]
      norm_num
    _ ≤ limit := zpow_le_zpow_right₀ one_le_two (by omega)

/-- A whole number of at most 53 bits is a number of the format. -/
lemma IsNearest.exact_intCast {n : ℤ} (h : IsNearest c n) (hn : |n| < 2 ^ 53) :
    c.isFinite = true ∧ toRat c = n := by
  have hscaled : (n : ℚ) = n * 2 ^ (0 : ℤ) := by rw [zpow_zero, mul_one]
  rw [hscaled] at h ⊢
  exact h.exact_of_lt hn (by norm_num) (by norm_num)

/-- From the bound of overflow on, the nearest float is infinite. -/
lemma IsNearest.eq_infinity (h : IsNearest c x) (hle : overflowBound ≤ x) : c = infinity := by
  obtain ⟨v, hnear, hrepresents⟩ := h
  exact hrepresents.infinite (hnear.limit_le_iff.mpr hle)

lemma IsNearest.eq_neg_infinity (h : IsNearest c x) (hle : x ≤ -overflowBound) :
    c = -infinity := by
  obtain ⟨v, hnear, hrepresents⟩ := h
  exact hrepresents.neg_infinite (hnear.le_neg_limit_iff.mpr hle)

/-- What a value is rounded to is packed to the nearest float. -/
lemma Rounds.isNearest {s : Sign} {u : UnpackedFloat} (h : Rounds s x u) (hx : 0 < x) :
    IsNearest (.ofModel (.pack u)) (signed s x) := by
  obtain ⟨hcanonical, hnear⟩ := h.exists_nearest hx
  exact .of_isCanonical hcanonical hnear

end

/-! ## Rounding to the format -/

/-- What fits is rounded to itself. -/
lemma rounds_exact {m : ℕ} {e : ℤ} (s : Sign) (hm : 0 < m) (hfits : Fits m e) :
    Rounds s (m * 2 ^ e) (roundWithAccuracy .binary64 s m e .exact) := by
  have hpow : (0 : ℚ) < 2 ^ e := zpow_pos two_pos e
  refine rounds_roundWithAccuracy s (mul_pos (by exact_mod_cast hm) hpow) ?_ hfits
  rw [mul_div_cancel_right₀ _ hpow.ne']
  exact Marks.exact m

lemma log2_mul_two_pow {m : ℕ} (hm : m ≠ 0) (k : ℕ) : (m * 2 ^ k).log2 = m.log2 + k := by
  have hpos : m * 2 ^ k ≠ 0 := mul_ne_zero hm (Nat.two_pow_pos k).ne'
  rw [Nat.log2_eq_iff hpos, pow_add, add_right_comm, pow_add _ (m.log2 + 1)]
  constructor
  · exact Nat.mul_le_mul_right _ (Nat.log2_self_le hm)
  · exact Nat.mul_lt_mul_of_pos_right Nat.lt_log2_self (Nat.two_pow_pos k)

/-- Bits are added to a mantissa that has less of them than the format, so that none gets lost. -/
lemma rounds_round {m : ℕ} (s : Sign) (hm : 0 < m) (e : ℤ) :
    Rounds s (m * 2 ^ e) (UnpackedFloat.round .binary64 s m e) := by
  generalize hk : (e - Format.binary64.targetExponent (totalExponent m e)).toNat = k
  have hround : UnpackedFloat.round .binary64 s m e =
      roundWithAccuracy .binary64 s (m * 2 ^ k) (e - k) .exact := by
    rw [← Nat.shiftLeft_eq, ← hk]
    rfl
  have hsame : (m * 2 ^ e : ℚ) = (m * 2 ^ k : ℕ) * 2 ^ (e - k : ℤ) := by
    rw [zpow_sub₀ two_ne_zero, zpow_natCast, Nat.cast_mul, Nat.cast_pow, Nat.cast_ofNat, mul_assoc,
      mul_div_cancel₀ _ (pow_ne_zero k two_ne_zero)]
  have htotal : totalExponent (m * 2 ^ k) (e - k) = totalExponent m e := by
    rw [totalExponent, totalExponent, log2_mul_two_pow hm.ne']
    push_cast
    ring
  rw [hround, hsame]
  refine rounds_exact s (Nat.mul_pos hm (Nat.two_pow_pos k)) ⟨?_, fun hzero => ?_⟩
  · rw [htotal]
    omega
  · exact absurd hzero (Nat.mul_pos hm (Nat.two_pow_pos k)).ne'

/-- An integer times a power of two is normalized to the nearest float. -/
lemma isNearest_normalize (m e : ℤ) (zero : Sign) :
    IsNearest (.ofModel (.pack (normalize .binary64 m e zero))) (m * 2 ^ e) := by
  have hpow : (0 : ℚ) < 2 ^ e := zpow_pos two_pos e
  rw [UnpackedFloat.normalize]
  rcases lt_trichotomy m 0 with hm | rfl | hm
  · obtain ⟨n, rfl⟩ := Int.eq_negSucc_of_lt_zero hm
    have hrounds := (rounds_round .negative n.succ_pos e).isNearest
      (mul_pos (by exact_mod_cast n.succ_pos) hpow)
    have hvalue : signed .negative ((n.succ : ℕ) * 2 ^ e) = (Int.negSucc n : ℚ) * 2 ^ e := by
      rw [signed, Int.cast_negSucc, neg_mul]
    have hcompare : compare (Int.negSucc n) 0 = .lt := Int.compare_eq_lt.mpr hm
    rw [hvalue] at hrounds
    rw [hcompare]
    exact hrounds
  · rw [Int.cast_zero, zero_mul]
    exact isNearest_zero zero
  · obtain ⟨n, rfl⟩ := Int.eq_ofNat_of_zero_le hm.le
    have hn : 0 < n := by exact_mod_cast hm
    have hrounds := (rounds_round .positive hn e).isNearest
      (mul_pos (by exact_mod_cast hn) hpow)
    have hcompare : compare (n : ℤ) 0 = .gt := Int.compare_eq_gt.mpr hm
    rw [hcompare]
    exact hrounds

/-- An integer times a power of two becomes the nearest float. -/
lemma isNearest_ofScaled (m e : ℤ) (zero : Sign) :
    IsNearest (ofScaled m e zero) (m * 2 ^ e) :=
  isNearest_normalize m e zero

/-! ## Sums and products -/

section

variable {a b : Float}

/-- A mantissa whose exponent is lowered keeps what it is equal to. -/
lemma signed_decreaseExponent (s : Sign) (m : ℕ) {e e' : ℤ} (h : e' ≤ e) :
    ((s.apply (decreaseExponent m e e').1 : ℤ) : ℚ) * 2 ^ e' = signed s (m * 2 ^ e) := by
  obtain ⟨k, rfl⟩ := Int.le.dest h
  have hshift : (decreaseExponent m (e' + k) e').1 = m * 2 ^ k := by
    rw [decreaseExponent, add_sub_cancel_left, Int.toNat_natCast, Nat.shiftLeft_eq]
  rw [hshift, intCast_apply, ← signed_mul, zpow_add₀ two_ne_zero, zpow_natCast]
  congr 1
  push_cast
  ring

/-- A number that is not changed by adding zero. -/
lemma isNearest_of_unpack {a : Float} {u : UnpackedFloat} (h : a.toModel.unpack = u)
    (hfinite : a.isFinite = true) : IsNearest (.ofModel (.pack u)) (toRat a) := by
  rw [← h, ofModel_pack_unpack]
  exact .of_isFinite hfinite

/-- A sum is the nearest float to the sum of the values. -/
theorem isNearest_add (ha : a.isFinite = true) (hb : b.isFinite = true) :
    IsNearest (a + b) (toRat a + toRat b) := by
  have hadd : a + b = .ofModel (.pack (.add .binary64 a.toModel.unpack b.toModel.unpack)) := rfl
  rw [hadd]
  rcases unpack_of_isFinite ha with ⟨s, hua⟩ | ⟨s, m, e, hm, hua⟩
  · rw [hua, toRat_of_unpack_zero hua, zero_add]
    rcases unpack_of_isFinite hb with ⟨s', hub⟩ | ⟨s', m', e', hm', hub⟩
    · rw [hub, toRat_of_unpack_zero hub]
      cases s <;> cases s' <;> exact isNearest_zero _
    · rw [hub]
      exact isNearest_of_unpack hub hb
  · rw [hua]
    rcases unpack_of_isFinite hb with ⟨s', hub⟩ | ⟨s', m', e', hm', hub⟩
    · rw [hub, toRat_of_unpack_zero hub, add_zero]
      exact isNearest_of_unpack hua ha
    · rw [hub, toRat_of_unpack_finite hua, toRat_of_unpack_finite hub]
      -- Both mantissas are brought to the smaller exponent, which loses nothing.
      have hsum := isNearest_normalize (s.apply (decreaseExponent m e (min e e')).1 +
        s'.apply (decreaseExponent m' e' (min e e')).1) (min e e') .positive
      rw [Int.cast_add, add_mul, signed_decreaseExponent s m (min_le_left e e'),
        signed_decreaseExponent s' m' (min_le_right e e')] at hsum
      exact hsum

/-- A product has all bits that are needed to round it. -/
lemma Canonical.fits_mul {m m' : ℕ} {e e' : ℤ} (h : Canonical m e) (h' : Canonical m' e')
    (hm : 0 < m) (hm' : 0 < m') : Fits (m * m') (e + e') := by
  have hpos : m * m' ≠ 0 := (Nat.mul_pos hm hm').ne'
  refine ⟨?_, fun hzero => absurd hzero hpos⟩
  have hleast := h.least_le
  have hleast' := h'.least_le
  rw [Number.targetExponent_eq, totalExponent]
  rcases h.normal with hle | he
  · have hlog : 52 ≤ (m * m').log2 := by
      rw [Nat.le_log2 hpos]
      exact hle.trans (Nat.le_mul_of_pos_right m hm')
    omega
  · rcases h'.normal with hle' | he'
    · have hlog : 52 ≤ (m * m').log2 := by
        rw [Nat.le_log2 hpos]
        exact hle'.trans (Nat.le_mul_of_pos_left m' hm)
      omega
    · omega

/-- A product is the nearest float to the product of the values. -/
theorem isNearest_mul (ha : a.isFinite = true) (hb : b.isFinite = true) :
    IsNearest (a * b) (toRat a * toRat b) := by
  have hmul : a * b = .ofModel (.pack (.mul .binary64 a.toModel.unpack b.toModel.unpack)) := rfl
  rw [hmul]
  rcases unpack_of_isFinite ha with ⟨s, hua⟩ | ⟨s, m, e, hm, hua⟩
  · rw [hua, toRat_of_unpack_zero hua, zero_mul]
    rcases unpack_of_isFinite hb with ⟨s', hub⟩ | ⟨s', m', e', hm', hub⟩
    · rw [hub]
      exact isNearest_zero _
    · rw [hub]
      exact isNearest_zero _
  · rw [hua]
    rcases unpack_of_isFinite hb with ⟨s', hub⟩ | ⟨s', m', e', hm', hub⟩
    · rw [hub, toRat_of_unpack_zero hub, mul_zero]
      exact isNearest_zero _
    · have hfits := (stored_of_toModel_unpack hua).canonical.fits_mul
        (stored_of_toModel_unpack hub).canonical hm hm'
      have hpos : 0 < m * m' := Nat.mul_pos hm hm'
      have hproduct := (rounds_exact (s * s') hpos hfits).isNearest
        (mul_pos (by exact_mod_cast hpos) (zpow_pos two_pos _))
      have hvalue : toRat a * toRat b = signed (s * s') ((m * m' : ℕ) * 2 ^ (e + e')) := by
        rw [toRat_of_unpack_finite hua, toRat_of_unpack_finite hub, signed_mul_signed,
          zpow_add₀ two_ne_zero, mul_mul_mul_comm, Nat.cast_mul]
      rw [hub, hvalue]
      exact hproduct

end

end BlockLang.Number
