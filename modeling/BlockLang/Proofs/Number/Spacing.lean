import BlockLang.Proofs.Number.Rounding

/-!
# The grid of binary64

The numbers of the format that are of the size of `x` are the whole multiples of a power of two, and
`x` is rounded to one of them. Main statements: a bound on the grid is a bound of the rounded number
too, and the rounded number reaches a power of two exactly if `x` is not more than half a step
below it.
-/

namespace BlockLang.Number

open AddSubgroup (zmultiples mem_zmultiples_iff)

/-! ## Exponents -/

section

variable {x y : ℚ} {e : ℤ}

/-- No exponent is less than that of the subnormal floats. -/
lemma least_le_exponentOf (x : ℚ) : -1074 ≤ exponentOf x := by
  rw [exponentOf, targetExponent_eq]
  exact le_max_right _ _

/-- A value has at most 53 bits above its exponent. -/
lemma lt_two_zpow_exponentOf (hx : 0 ≤ x) : x < 2 ^ (exponentOf x + 53) := by
  rcases hx.eq_or_lt with rfl | hpos
  · exact zpow_pos two_pos _
  · have hlog : Int.log 2 x < exponentOf x + 53 := by
      rw [exponentOf, targetExponent_eq]
      omega
    exact_mod_cast (Int.lt_zpow_iff_log_lt one_lt_two hpos).mpr hlog

/-- Above the least exponent, a value has all 53 bits. -/
lemma two_zpow_exponentOf_le (hx : 0 < x) (he : -1074 < exponentOf x) :
    2 ^ (exponentOf x + 52) ≤ x := by
  have hlog : exponentOf x + 52 ≤ Int.log 2 x := by
    rw [exponentOf, targetExponent_eq] at he ⊢
    omega
  exact_mod_cast (Int.zpow_le_iff_le_log one_lt_two hx).mpr hlog

lemma exponentOf_le (hx : 0 < x) (he : -1074 ≤ e) (hlt : x < 2 ^ (e + 53)) : exponentOf x ≤ e := by
  have hlog : Int.log 2 x < e + 53 :=
    (Int.lt_zpow_iff_log_lt one_lt_two hx).mp (by exact_mod_cast hlt)
  rw [exponentOf, targetExponent_eq]
  omega

lemma le_exponentOf (hx : 0 < x) (hle : 2 ^ (e + 52) ≤ x) : e ≤ exponentOf x := by
  have hlog : e + 52 ≤ Int.log 2 x :=
    (Int.zpow_le_iff_le_log one_lt_two hx).mp (by exact_mod_cast hle)
  rw [exponentOf, targetExponent_eq]
  omega

/-- The exponent is known from the bounds of the value. -/
lemma exponentOf_eq (hx : 0 < x) (he : -1074 ≤ e) (hle : 2 ^ (e + 52) ≤ x)
    (hlt : x < 2 ^ (e + 53)) : exponentOf x = e :=
  le_antisymm (exponentOf_le hx he hlt) (le_exponentOf hx hle)

lemma exponentOf_zero : exponentOf 0 = -52 := by
  rw [exponentOf, Int.log_zero_right]
  rfl

/-- Larger values have larger exponents. -/
lemma exponentOf_mono (hx : 0 < x) (hle : x ≤ y) : exponentOf x ≤ exponentOf y :=
  exponentOf_le hx (least_le_exponentOf y)
    (hle.trans_lt (lt_two_zpow_exponentOf (hx.le.trans hle)))

end

/-! ## Multiples -/

/-- A power of two is a multiple of every smaller one. -/
lemma mul_two_zpow_mem_zmultiples {e e' : ℤ} (h : e ≤ e') (k : ℤ) :
    (k * 2 ^ e' : ℚ) ∈ zmultiples (2 ^ e : ℚ) := by
  obtain ⟨n, hn⟩ := Int.le.dest h
  refine mem_zmultiples_iff.mpr ⟨k * 2 ^ n, ?_⟩
  rw [← hn, zpow_add₀ two_ne_zero, zpow_natCast, zsmul_eq_mul]
  push_cast
  ring

lemma intCast_mem_zmultiples {e : ℤ} (h : e ≤ 0) (k : ℤ) : (k : ℚ) ∈ zmultiples (2 ^ e : ℚ) := by
  have hmem := mul_two_zpow_mem_zmultiples h k
  rwa [zpow_zero, mul_one] at hmem

lemma exists_intCast_of_mem_zmultiples {e : ℤ} (h : 0 ≤ e) {x : ℚ}
    (hx : x ∈ zmultiples (2 ^ e : ℚ)) : ∃ k : ℤ, x = k := by
  obtain ⟨n, rfl⟩ := Int.eq_ofNat_of_zero_le h
  obtain ⟨k, rfl⟩ := mem_zmultiples_iff.mp hx
  refine ⟨k * 2 ^ n, ?_⟩
  rw [zsmul_eq_mul, zpow_natCast]
  push_cast
  rfl

lemma intCast_add_half_mem_zmultiples {e : ℤ} (he : e < 0) (n : ℤ) :
    (n + 1 / 2 : ℚ) ∈ zmultiples (2 ^ e : ℚ) := by
  have hle : e ≤ -1 := by omega
  have hmem := mul_two_zpow_mem_zmultiples hle (2 * n + 1)
  have hhalf : ((2 * n + 1 : ℤ) : ℚ) * 2 ^ (-1 : ℤ) = n + 1 / 2 := by
    push_cast
    ring
  rwa [hhalf] at hmem

/-- No multiple lies strictly between `-s` and zero. -/
lemma nonneg_of_mem_zmultiples {s d : ℚ} (hs : 0 < s) (hd : d ∈ zmultiples s) (hlt : -s < d) :
    0 ≤ d := by
  obtain ⟨k, rfl⟩ := mem_zmultiples_iff.mp hd
  rw [zsmul_eq_mul] at hlt ⊢
  have hk : (-1 : ℚ) < k := by
    rw [← neg_one_mul] at hlt
    exact lt_of_mul_lt_mul_right hlt hs.le
  have hk : 0 ≤ k := by
    have hk : -1 < k := by exact_mod_cast hk
    omega
  exact mul_nonneg (by exact_mod_cast hk) hs.le

/-- Two multiples whose distance is less than the step are equal. -/
lemma eq_of_mem_zmultiples {s g g' : ℚ} (hs : 0 < s) (hg : g ∈ zmultiples s)
    (hg' : g' ∈ zmultiples s) (hlt : |g - g'| < s) : g = g' := by
  obtain ⟨hgt, hlt⟩ := abs_lt.mp hlt
  have hle : 0 ≤ g - g' := nonneg_of_mem_zmultiples hs (sub_mem hg hg') hgt
  have hge : 0 ≤ g' - g := nonneg_of_mem_zmultiples hs (sub_mem hg' hg) (by linarith)
  linarith

/-! ## Nearest numbers -/

/-- The distance of neighbours among the numbers of the format that are of the size of `x`. -/
def spacing (x : ℚ) : ℚ := 2 ^ exponentOf |x|

lemma spacing_pos (x : ℚ) : 0 < spacing x := zpow_pos two_pos _

lemma spacing_of_pos {x : ℚ} (hx : 0 < x) : spacing x = 2 ^ exponentOf x := by
  rw [spacing, abs_of_pos hx]

lemma spacing_neg (x : ℚ) : spacing (-x) = spacing x := by rw [spacing, abs_neg, spacing]

/-- The number that `x` is rounded to if the format has no greatest number: the nearest one, and of
two that are as near the one with an even mantissa. -/
structure Nearest (x v : ℚ) : Prop where
  mem : v ∈ zmultiples (spacing x)
  abs_sub_le : |x - v| ≤ spacing x / 2
  even_of_tie : ∀ k : ℤ, v = k * spacing x → |x - v| = spacing x / 2 → Even k

namespace Nearest

variable {x v g : ℚ}

lemma neg (h : Nearest x v) : Nearest (-x) (-v) where
  mem := by
    rw [spacing_neg]
    exact neg_mem h.mem
  abs_sub_le := by
    rw [spacing_neg, ← neg_sub', abs_neg]
    exact h.abs_sub_le
  even_of_tie k hk htie := by
    rw [spacing_neg] at hk htie
    rw [← neg_sub', abs_neg] at htie
    have heven := h.even_of_tie (-k) (by rw [Int.cast_neg, neg_mul, ← hk, neg_neg]) htie
    rwa [even_neg] at heven

/-- A number on the grid is rounded to itself. -/
lemma of_mem (hx : x ∈ zmultiples (spacing x)) : Nearest x x where
  mem := hx
  abs_sub_le := by
    rw [sub_self, abs_zero]
    exact (half_pos (spacing_pos x)).le
  even_of_tie k _ htie := by
    rw [sub_self, abs_zero] at htie
    exact absurd htie.symm (half_pos (spacing_pos x)).ne'

lemma zero : Nearest 0 0 := of_mem (zero_mem _)

/-- Rounding does not go past a point of the grid below. -/
lemma le_of_le (h : Nearest x v) (hg : g ∈ zmultiples (spacing x)) (hle : g ≤ x) : g ≤ v := by
  have hpos := spacing_pos x
  have hdist := (abs_le.mp h.abs_sub_le).2
  have hnonneg : 0 ≤ v - g := nonneg_of_mem_zmultiples hpos (sub_mem h.mem hg) (by linarith)
  linarith

/-- Rounding does not go past a point of the grid above. -/
lemma ge_of_ge (h : Nearest x v) (hg : g ∈ zmultiples (spacing x)) (hge : x ≤ g) : v ≤ g := by
  have hneg : -g ∈ zmultiples (spacing (-x)) := by
    rw [spacing_neg]
    exact neg_mem hg
  exact neg_le_neg_iff.mp (h.neg.le_of_le hneg (neg_le_neg hge))

/-- A value that is on the grid is rounded to itself. -/
lemma eq_of_mem (h : Nearest x v) (hx : x ∈ zmultiples (spacing x)) : v = x :=
  le_antisymm (h.ge_of_ge hx le_rfl) (h.le_of_le hx le_rfl)

/-- Of the two neighbours of a number in the middle between them the even one is taken. -/
lemma eq_of_tie (h : Nearest x v) {k : ℤ} (hk : Even k)
    (hdist : |x - k * spacing x| = spacing x / 2) : v = k * spacing x := by
  have hpos := spacing_pos x
  obtain ⟨j, hj⟩ := mem_zmultiples_iff.mp h.mem
  rw [zsmul_eq_mul] at hj
  -- The distance of the two multiples is at most one step, so `j` is `k` or one of its neighbours.
  have hstep : |((j - k : ℤ) : ℚ)| ≤ 1 := by
    have habs : |((j - k : ℤ) : ℚ)| * spacing x ≤ 1 * spacing x := by
      calc |((j - k : ℤ) : ℚ)| * spacing x = |(x - k * spacing x) - (x - v)| := by
            rw [← hj, ← abs_of_pos hpos, ← abs_mul, abs_of_pos hpos]
            push_cast
            ring_nf
        _ ≤ |x - k * spacing x| + |x - v| := abs_sub _ _
        _ ≤ spacing x / 2 + spacing x / 2 := add_le_add hdist.le h.abs_sub_le
        _ = 1 * spacing x := by ring
    exact le_of_mul_le_mul_right habs hpos
  have hstep : |j - k| ≤ 1 := by exact_mod_cast hstep
  by_cases hjk : j = k
  · rw [← hj, hjk]
  -- A neighbour of `k` is as far away on the other side, but is not even.
  · have htie : |x - v| = spacing x / 2 := by
      refine le_antisymm h.abs_sub_le ?_
      have hone : |((j - k : ℤ) : ℚ)| = 1 := by
        have hone : |j - k| = 1 := by
          have hpos := abs_pos.mpr (sub_ne_zero.mpr hjk)
          omega
        exact_mod_cast hone
      have hsum : spacing x = |(x - k * spacing x) - (x - v)| := by
        calc spacing x = |((j - k : ℤ) : ℚ)| * |spacing x| := by rw [hone, one_mul, abs_of_pos hpos]
          _ = |(x - k * spacing x) - (x - v)| := by
            rw [← abs_mul, ← hj]
            push_cast
            ring_nf
      have hle := abs_sub (x - k * spacing x) (x - v)
      linarith
    have heven := h.even_of_tie j hj.symm htie
    obtain ⟨a, ha⟩ := hk
    obtain ⟨b, hb⟩ := heven
    rw [abs_le] at hstep
    omega

end Nearest

/-! ## Numbers of the format -/

/-- A mantissa of at most 53 bits falls short of the next power of two. -/
lemma abs_mul_two_zpow_le {m e e' : ℤ} (hm : |m| < 2 ^ 53) (he : e ≤ e') :
    |(m * 2 ^ e : ℚ)| ≤ (2 ^ 53 - 1) * 2 ^ e' := by
  have hle : |(m : ℚ)| ≤ 2 ^ 53 - 1 := by
    have hle : |m| ≤ 2 ^ 53 - 1 := by omega
    exact_mod_cast hle
  have hpow : (0 : ℚ) < 2 ^ e := zpow_pos two_pos e
  rw [abs_mul, abs_of_pos hpow]
  exact mul_le_mul hle (zpow_le_zpow_right₀ one_le_two he) hpow.le (by norm_num)

/-- A mantissa of at most 53 bits with an exponent of the format is a number on the grid. -/
lemma mem_zmultiples_spacing {m e : ℤ} (hm : |m| < 2 ^ 53) (he : -1074 ≤ e) :
    (m * 2 ^ e : ℚ) ∈ zmultiples (spacing (m * 2 ^ e)) := by
  by_cases hzero : m = 0
  · rw [hzero, Int.cast_zero, zero_mul]
    exact zero_mem _
  · apply mul_two_zpow_mem_zmultiples
    have hpow : (0 : ℚ) < 2 ^ e := zpow_pos two_pos e
    have habs : |(m * 2 ^ e : ℚ)| = |(m : ℚ)| * 2 ^ e := by rw [abs_mul, abs_of_pos hpow]
    rw [habs]
    refine exponentOf_le (mul_pos (abs_pos.mpr (by exact_mod_cast hzero)) hpow) he ?_
    rw [add_comm, zpow_add₀ two_ne_zero]
    exact mul_lt_mul_of_pos_right (by exact_mod_cast hm) hpow

/-- So is a whole number of at most 53 bits. -/
lemma intCast_mem_zmultiples_spacing {n : ℤ} (hn : |n| < 2 ^ 53) :
    (n : ℚ) ∈ zmultiples (spacing n) := by
  have hleast : (-1074 : ℤ) ≤ 0 := by norm_num
  have hmem := mem_zmultiples_spacing hn hleast
  rwa [zpow_zero, mul_one] at hmem

lemma two_zpow_mem_zmultiples_spacing {x : ℚ} (hx : 0 < x) :
    (2 : ℚ) ^ (exponentOf x + 52) ∈ zmultiples (spacing x) := by
  have hle : exponentOf x ≤ exponentOf x + 52 := by omega
  have hmem := mul_two_zpow_mem_zmultiples hle 1
  rwa [Int.cast_one, one_mul, ← spacing_of_pos hx] at hmem

/-- A positive number of the format that is a lower bound of `x` is one of the rounded number, even
if it is on a finer grid. -/
lemma Nearest.le_of_le_of_mem {x v g : ℚ} (h : Nearest x v) (hpos : 0 < g)
    (hg : g ∈ zmultiples (spacing g)) (hle : g ≤ x) : g ≤ v := by
  have hx : 0 < x := hpos.trans_le hle
  rw [spacing_of_pos hpos] at hg
  rcases (exponentOf_mono hpos hle).eq_or_lt with hexponent | hexponent
  · refine h.le_of_le ?_ hle
    rwa [spacing_of_pos hx, ← hexponent]
  -- There is a power of two in between.
  · have hleast := least_le_exponentOf g
    calc g ≤ 2 ^ (exponentOf g + 53) := (lt_two_zpow_exponentOf hpos.le).le
      _ ≤ 2 ^ (exponentOf x + 52) := zpow_le_zpow_right₀ one_le_two (by omega)
      _ ≤ v := h.le_of_le (two_zpow_mem_zmultiples_spacing hx)
        (two_zpow_exponentOf_le hx (by omega))

/-- The numbers that are rounded to a power of two or to more are those from half a step below it
on: the number half a step below it is as near to it as to the number before, which is odd. -/
theorem Nearest.two_zpow_le_iff {x v : ℚ} (h : Nearest x v) {e : ℤ} (he : -1074 ≤ e) :
    2 ^ (e + 53) ≤ v ↔ (2 ^ (e + 53) - 2 ^ e / 2 : ℚ) ≤ x := by
  have hstep_pos : (0 : ℚ) < 2 ^ e := zpow_pos two_pos e
  have hpower : (2 : ℚ) ^ (e + 53) = 2 ^ 53 * 2 ^ e := by
    rw [add_comm, zpow_add₀ two_ne_zero]
    norm_num
  constructor
  · intro hv
    by_contra! hlt
    have hpos : 0 < x := by
      by_contra! hx
      have hle : v ≤ 0 := h.ge_of_ge (zero_mem _) hx
      linarith
    have hstep : spacing x ≤ 2 ^ e := by
      rw [spacing_of_pos hpos]
      exact zpow_le_zpow_right₀ one_le_two (exponentOf_le hpos he (by linarith))
    have hdist := (abs_le.mp h.abs_sub_le).1
    linarith
  · intro hx
    have hpos : 0 < x := by linarith
    -- Below the power of two, the step is `2 ^ e`, and the power itself is the next number.
    rcases lt_or_ge x (2 ^ (e + 53)) with hlt | hge
    · have hexponent : exponentOf x = e := by
        refine exponentOf_eq hpos he ?_ hlt
        have hhalf : (2 : ℚ) ^ (e + 52) = 2 ^ 52 * 2 ^ e := by
          rw [add_comm, zpow_add₀ two_ne_zero]
          norm_num
        linarith
      have hstep : spacing x = 2 ^ e := by rw [spacing_of_pos hpos, hexponent]
      have hmultiple : (2 : ℚ) ^ (e + 53) = (2 ^ 53 : ℤ) * spacing x := by
        rw [hstep, hpower]
        norm_num
      -- Half a step below it there is a tie, which goes to the power of two as it is even.
      rcases hx.eq_or_lt with htie | hgt
      · have hdist : |x - (2 ^ 53 : ℤ) * spacing x| = spacing x / 2 := by
          rw [← hmultiple, hstep, ← htie, sub_sub_cancel_left, abs_neg, abs_of_pos (by linarith)]
        rw [h.eq_of_tie (by decide) hdist, hmultiple]
      · have hmem : (2 : ℚ) ^ (e + 53) ∈ zmultiples (spacing x) := by
          rw [hmultiple]
          exact mem_zmultiples_iff.mpr ⟨2 ^ 53, zsmul_eq_mul _ _⟩
        have hdist := (abs_le.mp h.abs_sub_le).2
        have hnonneg : 0 ≤ v - 2 ^ (e + 53) :=
          nonneg_of_mem_zmultiples (spacing_pos x) (sub_mem h.mem hmem) (by linarith)
        linarith
    · refine h.le_of_le_of_mem (zpow_pos two_pos _) ?_ hge
      have hmem := mem_zmultiples_spacing (m := 1) (e := e + 53) (by norm_num) (by omega)
      rwa [Int.cast_one, one_mul] at hmem

end BlockLang.Number
