import BlockLang.Expr.Eval
import BlockLang.Proofs.Number.Whole

/-!
# Rounding by adding a half

A call of `round` adds a half and rounds the sum down, where the sum is rounded to the format
before. Main statement: the call gives the nearest whole number, a half going up, except for the
number just below a half and the odd whole numbers of 53 bits, for which it gives the whole number
after that one.
-/

namespace BlockLang

namespace Number

open AddSubgroup (zmultiples)

/-- The numbers whose sum with a half has no place in the format and is rounded up to a whole
number. -/
def SlipsUp (a : ℚ) : Prop :=
  a = 1 / 2 - 2 ^ (-54 : ℤ) ∨ ∃ n : ℤ, a = n ∧ Odd n ∧ 2 ^ 52 < |n| ∧ |n| < 2 ^ 53

section

variable {a v : ℚ} {m e : ℤ}

/-- The sum for the number just below a half is in the middle between the last number below one
and one. -/
lemma eq_one_of_nearest_add_half (h : Nearest (a + 1 / 2) v) (ha : a = 1 / 2 - 2 ^ (-54 : ℤ)) :
    v = 1 := by
  have hx : a + 1 / 2 = 1 - 2 ^ (-54 : ℤ) := by
    rw [ha]
    ring
  have hspacing : spacing (a + 1 / 2) = 2 ^ (-53 : ℤ) := by
    have hpos : (0 : ℚ) < 1 - 2 ^ (-54 : ℤ) := by norm_num
    have hexponent : exponentOf (1 - 2 ^ (-54 : ℤ)) = -53 := by
      apply exponentOf_eq hpos <;> norm_num
    rw [hx, spacing_of_pos hpos, hexponent]
  have hone : ((2 ^ 53 : ℤ) : ℚ) * 2 ^ (-53 : ℤ) = 1 := by norm_num
  have hdist : |a + 1 / 2 - (2 ^ 53 : ℤ) * spacing (a + 1 / 2)| = spacing (a + 1 / 2) / 2 := by
    rw [hspacing, hone, hx]
    norm_num
  rw [h.eq_of_tie (by decide) hdist, hspacing, hone]

/-- A number on a finer grid than that of numbers around `2 ^ (E + 52)` is below these. -/
lemma abs_le_of_finer {E : ℤ} (ha : a = m * 2 ^ e) (hm : |m| < 2 ^ 53) (hfiner : e < E) :
    |a| ≤ 2 ^ (E + 52) - 2 ^ (E - 1) := by
  have htwice : (2 : ℚ) ^ (E + 52) = 2 ^ 53 * 2 ^ (E - 1) := by
    rw [← zpow_natCast, ← zpow_add₀ two_ne_zero]
    congr 1
    push_cast
    ring
  calc |a| ≤ (2 ^ 53 - 1) * 2 ^ (E - 1) := by
        rw [ha]
        exact abs_mul_two_zpow_le hm (by omega)
    _ = 2 ^ (E + 52) - 2 ^ (E - 1) := by rw [htwice, sub_one_mul]

/-- On the grid of a sum that is rounded up to the next whole number, the number has no place: a
half has one. -/
lemma finer_of_near_ceil {E n : ℤ} (ha : a = m * 2 ^ e) (hE : E < 0)
    (hnear : -(2 ^ E / 2) ≤ a + 1 / 2 - (n + 1)) (hlt : a + 1 / 2 < n + 1) : e < E := by
  by_contra! hge
  have hstep : (0 : ℚ) < 2 ^ E := zpow_pos two_pos E
  have hmem : a - (n + 1 / 2) ∈ zmultiples (2 ^ E : ℚ) := by
    rw [ha]
    exact sub_mem (mul_two_zpow_mem_zmultiples hge m) (intCast_add_half_mem_zmultiples hE n)
  have hnonneg := nonneg_of_mem_zmultiples hstep hmem (by linarith)
  linarith

/-- A number whose sum with a half comes near the next whole number, and reaches a power of two that
the number does not reach, is below a half. -/
lemma exponent_le_of_near_ceil {E n : ℤ} (hE : E < 0) (hsmall : a < 2 ^ (E + 52))
    (hbound : 2 ^ (E + 52) ≤ a + 1 / 2) (hn : ⌊a + 1 / 2⌋ = n)
    (hnear : -(2 ^ E / 2) ≤ a + 1 / 2 - (n + 1)) : E ≤ -53 := by
  by_contra! hge
  have hstep_le : (2 : ℚ) ^ E ≤ 1 / 2 := by
    calc (2 : ℚ) ^ E ≤ 2 ^ (-1 : ℤ) := zpow_le_zpow_right₀ one_le_two (by omega)
      _ = 1 / 2 := by norm_num
  obtain ⟨k, hk⟩ := Int.eq_ofNat_of_zero_le (a := E + 52) (by omega)
  have hwhole : (2 : ℚ) ^ (E + 52) = ((2 ^ k : ℤ) : ℚ) := by
    rw [hk, zpow_natCast, Int.cast_pow, Int.cast_ofNat]
  rw [hwhole] at hbound hsmall
  have hfloor : n = 2 ^ k := by
    rw [← hn, Int.floor_eq_iff]
    constructor <;> linarith
  rw [hfloor] at hnear
  linarith

/-- If the sum is below `2 ^ 52`, it is rounded up to a whole number only for the number just below
a half. -/
lemma eq_of_nearest_add_half_eq_ceil (ha : a = m * 2 ^ e) (hm : |m| < 2 ^ 53) (hleast : -1074 ≤ e)
    (hexponent : exponentOf |a + 1 / 2| < 0) (h : Nearest (a + 1 / 2) v)
    (hv : v = ⌊a + 1 / 2⌋ + 1) : a = 1 / 2 - 2 ^ (-54 : ℤ) := by
  have hnear := (abs_le.mp h.abs_sub_le).1
  have hbound := two_zpow_exponentOf_le (x := |a + 1 / 2|)
  have hless := lt_two_zpow_exponentOf (abs_nonneg (a + 1 / 2))
  have hlt := Int.lt_floor_add_one (a + 1 / 2)
  rw [spacing, hv] at hnear
  generalize exponentOf |a + 1 / 2| = E at hexponent hnear hbound hless
  have hfiner := finer_of_near_ceil ha hexponent hnear hlt
  have hstep : (0 : ℚ) < 2 ^ (E - 1) := zpow_pos two_pos _
  have hhalfStep : (2 : ℚ) ^ E / 2 = 2 ^ (E - 1) := (zpow_sub_one₀ two_ne_zero E).symm
  have hsmall := abs_le.mp (abs_le_of_finer ha hm hfiner)
  -- Adding a half has made the number larger, so the sum is positive.
  have hne : a + 1 / 2 ≠ 0 := by
    intro hzero
    have hhalf : (2 : ℚ) ^ (E - 1) ≤ 2 ^ (-2 : ℤ) := zpow_le_zpow_right₀ one_le_two (by omega)
    rw [hzero, Int.floor_zero, Int.cast_zero, hhalfStep] at hnear
    norm_num at hhalf
    linarith
  have hbound := hbound (abs_pos.mpr hne) (by omega)
  have hpos : 0 < a + 1 / 2 := by
    by_contra! hneg
    rw [abs_of_nonpos hneg] at hbound
    linarith
  rw [abs_of_pos hpos] at hbound hless
  have hE : E ≤ -53 := exponent_le_of_near_ceil hexponent (by linarith) hbound rfl hnear
  have hone : a + 1 / 2 < 1 := by
    calc a + 1 / 2 < 2 ^ (E + 53) := hless
      _ ≤ 2 ^ (0 : ℤ) := zpow_le_zpow_right₀ one_le_two (by omega)
      _ = 1 := zpow_zero 2
  have hfloor : ⌊a + 1 / 2⌋ = 0 := Int.floor_eq_zero_iff.mpr ⟨hpos.le, hone⟩
  rw [hfloor, Int.cast_zero, hhalfStep] at hnear
  have hstep_le : (2 : ℚ) ^ (E - 1) ≤ 2 ^ (-54 : ℤ) := zpow_le_zpow_right₀ one_le_two (by omega)
  apply le_antisymm
  · calc a ≤ |a| := le_abs_self a
      _ ≤ (2 ^ 53 - 1) * 2 ^ (-54 : ℤ) := by
        rw [ha]
        exact abs_mul_two_zpow_le hm (by omega)
      _ = 1 / 2 - 2 ^ (-54 : ℤ) := by norm_num
  · calc 1 / 2 - (2 : ℚ) ^ (-54 : ℤ) ≤ 1 / 2 - 2 ^ (E - 1) := sub_le_sub_left hstep_le _
      _ ≤ a := by linarith

/-- A sum of at least `2 ^ 52` for a number that is not whole is a number of the format. -/
lemma eq_of_two_zpow_le_add_half (ha : a = m * 2 ^ e) (hm : |m| < 2 ^ 53) (he : e < 0)
    (hbound : 2 ^ 52 ≤ |a + 1 / 2|) : a = 2 ^ 52 - 1 / 2 := by
  have hle : |a| ≤ 2 ^ 52 - 1 / 2 := by
    calc |a| ≤ (2 ^ 53 - 1) * 2 ^ (-1 : ℤ) := by
          rw [ha]
          exact abs_mul_two_zpow_le hm (by omega)
      _ = 2 ^ 52 - 1 / 2 := by norm_num
  have hbounds := abs_le.mp hle
  rcases le_abs'.mp hbound with hneg | hpos
  · linarith
  · linarith

/-- How a whole number and a half compares with a whole number. -/
lemma intCast_le_abs_add_half_iff {k n : ℤ} :
    (k : ℚ) ≤ |(n + 1 / 2 : ℚ)| ↔ n ≤ -k - 1 ∨ k ≤ n := by
  rw [le_abs']
  apply or_congr
  · constructor
    · intro hle
      have hlt : n < -k := by
        have hlt : (n : ℚ) < -k := by linarith
        exact_mod_cast hlt
      omega
    · intro hle
      have hle : (n : ℚ) ≤ -k - 1 := by exact_mod_cast hle
      linarith
  · constructor
    · intro hle
      have hlt : k < n + 1 := by
        have hlt : (k : ℚ) < n + 1 := by linarith
        exact_mod_cast hlt
      omega
    · intro hle
      have hle : (k : ℚ) ≤ n := by exact_mod_cast hle
      linarith

/-- If the sum is in the middle between two whole numbers, the even one is taken. -/
lemma nearest_intCast_add_half {n : ℤ} (hexponent : exponentOf |(n + 1 / 2 : ℚ)| = 0)
    (h : Nearest (n + 1 / 2 : ℚ) v) : v = (n + n % 2 : ℤ) := by
  have hspacing : spacing (n + 1 / 2 : ℚ) = 1 := by rw [spacing, hexponent, zpow_zero]
  have heven : Even (n + n % 2) := by
    rw [Int.even_iff]
    omega
  have hdist : |(n + 1 / 2 : ℚ) - (n + n % 2 : ℤ) * spacing (n + 1 / 2 : ℚ)| =
      spacing (n + 1 / 2 : ℚ) / 2 := by
    rw [hspacing]
    rcases Int.emod_two_eq_zero_or_one n with hmod | hmod <;> rw [hmod] <;> push_cast <;>
      norm_num
  rw [h.eq_of_tie heven hdist, hspacing, mul_one]

/-- Above `2 ^ 53` adding a half changes nothing. -/
lemma nearest_add_half_eq_self (ha : a = m * 2 ^ e) (hm : |m| < 2 ^ 53)
    (hexponent : 0 < exponentOf |a + 1 / 2|) (h : Nearest (a + 1 / 2) v) : v = a := by
  have hne : a + 1 / 2 ≠ 0 := by
    intro hzero
    rw [hzero, abs_zero, exponentOf_zero] at hexponent
    omega
  have hbound := two_zpow_exponentOf_le (abs_pos.mpr hne) (by omega)
  have hnear := h.abs_sub_le
  have hmem := h.mem
  rw [spacing] at hnear hmem
  generalize exponentOf |a + 1 / 2| = E at hexponent hbound hnear hmem
  have hstep : (2 : ℚ) ≤ 2 ^ E := by
    calc (2 : ℚ) = 2 ^ (1 : ℤ) := (zpow_one 2).symm
      _ ≤ 2 ^ E := zpow_le_zpow_right₀ one_le_two (by omega)
  -- The grid at the sum is no finer than the number, so the number is on it.
  have hcoarser : E ≤ e := by
    by_contra! hfiner
    have hsmall := abs_le_of_finer ha hm hfiner
    have hone : (1 : ℚ) ≤ 2 ^ (E - 1) := one_le_zpow₀ one_le_two (by omega)
    have htriangle := abs_add_le a (1 / 2)
    rw [abs_of_pos (one_half_pos : (0 : ℚ) < 1 / 2)] at htriangle
    linarith
  have hgrid : a ∈ zmultiples (2 ^ E : ℚ) := by
    rw [ha]
    exact mul_two_zpow_mem_zmultiples hcoarser m
  have hbounds := abs_le.mp hnear
  refine eq_of_mem_zmultiples (zpow_pos two_pos E) hmem hgrid (abs_lt.mpr ?_)
  constructor <;> linarith

lemma not_slipsUp_of_not_whole (ha : a = 2 ^ 52 - 1 / 2) : ¬SlipsUp a := by
  rw [ha]
  rintro (hbelow | ⟨n, hn, -⟩)
  · norm_num at hbelow
  · have hodd : 2 * n = 2 ^ 53 - 1 := by
      have hcast : (2 * n : ℚ) = 2 ^ 53 - 1 := by linarith
      exact_mod_cast hcast
    omega

/-- The integers that slip up are odd and need all 53 bits. -/
lemma slipsUp_intCast_iff {n : ℤ} :
    SlipsUp n ↔ Odd n ∧ 2 ^ 52 < |n| ∧ |n| < 2 ^ 53 := by
  constructor
  · rintro (hbelow | ⟨k, hk, hslips⟩)
    · have hpos : (0 : ℚ) < n := by
        rw [hbelow]
        norm_num
      have hlt : (n : ℚ) < 1 := by
        rw [hbelow]
        norm_num
      have hpos : 0 < n := by exact_mod_cast hpos
      have hlt : n < 1 := by exact_mod_cast hlt
      omega
    · rw [Int.cast_inj] at hk
      rwa [hk]
  · exact fun hslips => .inr ⟨n, rfl, hslips⟩

/-- Rounding the nearest number to the sum down gives what rounding the sum down gives, or the next
whole number if the sum slips. -/
def FloorsTo (a v : ℚ) : Prop :=
  SlipsUp a ∧ ⌊v⌋ = ⌊a + 1 / 2⌋ + 1 ∨ ¬SlipsUp a ∧ ⌊v⌋ = ⌊a + 1 / 2⌋

/-- Below `2 ^ 52` whole numbers are on the grid, so that the sum does not pass one of them. -/
lemma floorsTo_of_small (ha : a = m * 2 ^ e) (hm : |m| < 2 ^ 53) (hleast : -1074 ≤ e)
    (hexponent : exponentOf |a + 1 / 2| < 0) (h : Nearest (a + 1 / 2) v) : FloorsTo a v := by
  have hgrid : ∀ k : ℤ, (k : ℚ) ∈ zmultiples (spacing (a + 1 / 2)) :=
    intCast_mem_zmultiples hexponent.le
  have hlower : (⌊a + 1 / 2⌋ : ℚ) ≤ v := h.le_of_le (hgrid _) (Int.floor_le _)
  have hupper : v ≤ ⌊a + 1 / 2⌋ + 1 := by
    have hle := h.ge_of_ge (hgrid (⌊a + 1 / 2⌋ + 1)) (by
      push_cast
      exact (Int.lt_floor_add_one _).le)
    exact_mod_cast hle
  -- The sum reaches the next whole number only by rounding, and that is a slip.
  rcases hupper.eq_or_lt with hv | hlt
  · refine .inl ⟨.inl (eq_of_nearest_add_half_eq_ceil ha hm hleast hexponent h hv), ?_⟩
    rw [hv, Int.floor_add_one, Int.floor_intCast]
  · refine .inr ⟨?_, Int.floor_eq_iff.mpr ⟨hlower, hlt⟩⟩
    rintro (hbelow | ⟨n, rfl, -, hlarge, -⟩)
    · have hfloor : ⌊a + 1 / 2⌋ = 0 := by
        rw [hbelow, Int.floor_eq_zero_iff]
        constructor <;> norm_num
      rw [eq_one_of_nearest_add_half h hbelow, hfloor] at hlt
      norm_num at hlt
    · have hsmall : |(n + 1 / 2 : ℚ)| < (2 ^ 52 : ℤ) := by
        calc |(n + 1 / 2 : ℚ)| < 2 ^ (exponentOf |(n + 1 / 2 : ℚ)| + 53) :=
              lt_two_zpow_exponentOf (abs_nonneg _)
          _ ≤ 2 ^ (52 : ℤ) := zpow_le_zpow_right₀ one_le_two (by omega)
          _ = (2 ^ 52 : ℤ) := by norm_num
      have hrange := mt intCast_le_abs_add_half_iff.mpr hsmall.not_ge
      rcases lt_abs.mp hlarge with hlt | hlt <;> omega

/-- A sum of at least `2 ^ 52` is kept if the number is not whole. -/
lemma floorsTo_of_not_whole (ha : a = m * 2 ^ e) (hm : |m| < 2 ^ 53) (he : e < 0)
    (hbound : 2 ^ 52 ≤ |a + 1 / 2|) (h : Nearest (a + 1 / 2) v) : FloorsTo a v := by
  have hhalf := eq_of_two_zpow_le_add_half ha hm he hbound
  have hwhole : a + 1 / 2 = ((2 ^ 52 : ℤ) : ℚ) := by
    rw [hhalf]
    norm_num
  have hv : v = a + 1 / 2 := by
    apply h.eq_of_mem
    rw [hwhole]
    exact intCast_mem_zmultiples_spacing (by norm_num)
  exact .inr ⟨not_slipsUp_of_not_whole hhalf, congrArg Int.floor hv⟩

/-- Between `2 ^ 52` and `2 ^ 53` a whole number slips if it is odd. -/
lemma floorsTo_intCast_of_tie {n : ℤ} (hexponent : exponentOf |(n + 1 / 2 : ℚ)| = 0)
    (hbound : 2 ^ (exponentOf |(n + 1 / 2 : ℚ)| + 52) ≤ |(n + 1 / 2 : ℚ)|)
    (hfloor : ⌊(n + 1 / 2 : ℚ)⌋ = n) (h : Nearest (n + 1 / 2 : ℚ) v) : FloorsTo n v := by
  have hless := lt_two_zpow_exponentOf (abs_nonneg (n + 1 / 2 : ℚ))
  rw [FloorsTo, hfloor, slipsUp_intCast_iff, nearest_intCast_add_half hexponent h,
    Int.floor_intCast]
  rw [hexponent] at hbound hless
  have hlow := intCast_le_abs_add_half_iff (k := 2 ^ 52) (n := n)
  have hhigh := intCast_le_abs_add_half_iff (k := 2 ^ 53) (n := n)
  push_cast at hlow hhigh
  norm_num1 at hbound hless hlow hhigh
  have hlow := hlow.mp hbound
  have hhigh := mt hhigh.mpr hless.not_ge
  rcases Int.emod_two_eq_zero_or_one n with hmod | hmod
  · refine .inr ⟨fun hslips => ?_, by omega⟩
    exact Int.not_odd_iff_even.mpr (Int.even_iff.mpr hmod) hslips.1
  · refine .inl ⟨⟨Int.odd_iff.mpr hmod, ?_, ?_⟩, by omega⟩
    · rw [lt_abs]
      omega
    · rw [abs_lt]
      omega

/-- Above `2 ^ 53` no whole number slips. -/
lemma floorsTo_intCast_of_large {n : ℤ} (hv : v = n)
    (hbound : (2 ^ 53 : ℚ) ≤ |(n + 1 / 2 : ℚ)|) (hfloor : ⌊(n + 1 / 2 : ℚ)⌋ = n) :
    FloorsTo n v := by
  rw [FloorsTo, hfloor, slipsUp_intCast_iff, hv, Int.floor_intCast]
  refine .inr ⟨fun hslips => ?_, rfl⟩
  have hlarge : ((2 ^ 53 : ℤ) : ℚ) ≤ |(n + 1 / 2 : ℚ)| := by exact_mod_cast hbound
  have hrange := intCast_le_abs_add_half_iff.mp hlarge
  have hbounds := abs_lt.mp hslips.2.2
  omega

/-- Which whole number the sum with a half is rounded down to after it was rounded to the format. -/
theorem floorsTo_of_nearest (ha : a = m * 2 ^ e) (hm : |m| < 2 ^ 53) (hleast : -1074 ≤ e)
    (h : Nearest (a + 1 / 2) v) : FloorsTo a v := by
  -- The exponent of the sum tells whether halves, whole numbers or only even ones are on the
  -- grid.
  rcases lt_or_ge (exponentOf |a + 1 / 2|) 0 with hexponent | hexponent
  · exact floorsTo_of_small ha hm hleast hexponent h
  have hne : a + 1 / 2 ≠ 0 := by
    intro hzero
    rw [hzero, abs_zero, exponentOf_zero] at hexponent
    omega
  have hbound := two_zpow_exponentOf_le (abs_pos.mpr hne) (by omega)
  rcases lt_or_ge e 0 with he | he
  · refine floorsTo_of_not_whole ha hm he ?_ h
    calc (2 : ℚ) ^ 52 = 2 ^ (52 : ℤ) := by norm_num
      _ ≤ 2 ^ (exponentOf |a + 1 / 2| + 52) := zpow_le_zpow_right₀ one_le_two (by omega)
      _ ≤ |a + 1 / 2| := hbound
  · obtain ⟨n, rfl⟩ : ∃ n : ℤ, a = n := by
      rw [ha]
      exact exists_intCast_of_mem_zmultiples he (mul_two_zpow_mem_zmultiples le_rfl m)
    have hfloor : ⌊(n + 1 / 2 : ℚ)⌋ = n := by
      rw [Int.floor_eq_iff]
      constructor <;> linarith
    rcases hexponent.eq_or_lt with hzero | hpos
    · exact floorsTo_intCast_of_tie hzero.symm hbound hfloor h
    · refine floorsTo_intCast_of_large (nearest_add_half_eq_self ha hm hpos h) ?_ hfloor
      calc (2 : ℚ) ^ 53 = 2 ^ (53 : ℤ) := by norm_num
        _ ≤ 2 ^ (exponentOf |(n + 1 / 2 : ℚ)| + 52) := zpow_le_zpow_right₀ one_le_two (by omega)
        _ ≤ |(n + 1 / 2 : ℚ)| := hbound

end

/-! ## The sum in the format -/

lemma half_spec : (0.5 : Float).isFinite = true ∧ toRat 0.5 = 1 / 2 := by
  have hstored : Stored (2 ^ 52) (-53) := ⟨by decide, by decide, by decide, .inl le_rfl⟩
  exact hstored.positive_spec (by decide) (by decide +kernel) (by norm_num)

/-- A half added to a finite float is rounded once. -/
lemma add_half_spec {a : Float} (h : a.isFinite = true) :
    (a + 0.5).isFinite = true ∧ Nearest (toRat a + 1 / 2) (toRat (a + 0.5)) := by
  have hnear := isNearest_add h half_spec.1
  rw [half_spec.2] at hnear
  refine hnear.finite ?_
  obtain ⟨m, e, hstored, ha⟩ := exists_stored h
  have hle : |toRat a| ≤ (2 ^ 53 - 1) * 2 ^ (971 : ℤ) := by
    rw [ha]
    exact abs_mul_two_zpow_le hstored.abs_lt hstored.le_greatest
  have hone : (1 : ℚ) < 2 ^ (971 : ℤ) := one_lt_zpow₀ one_lt_two (by norm_num)
  have htriangle := abs_add_le (toRat a) (1 / 2)
  rw [abs_of_pos (one_half_pos : (0 : ℚ) < 1 / 2)] at htriangle
  rw [overflowBound, limit_eq]
  generalize (2 : ℚ) ^ (971 : ℤ) = unit at hle hone
  linarith

/-- `n` is the whole number nearest to `a`; a half goes up. -/
def IsHalfUp (n : ℤ) (a : ℚ) : Prop := (n - 1 / 2 : ℚ) ≤ a ∧ a < n + 1 / 2

/-- To add a half and take the floor is to round halves up. -/
lemma isHalfUp_floor (a : ℚ) : IsHalfUp ⌊a + 1 / 2⌋ a := by
  have hle := Int.floor_le (a + 1 / 2)
  have hlt := Int.lt_floor_add_one (a + 1 / 2)
  constructor <;> linarith

/-- An integer is rounded to itself. -/
lemma isHalfUp_intCast (k : ℤ) : IsHalfUp k k := by
  constructor <;> linarith

/-- Halves are rounded up in one way only. -/
lemma IsHalfUp.eq {n n' : ℤ} {a : ℚ} (h : IsHalfUp n a) (h' : IsHalfUp n' a) : n = n' := by
  obtain ⟨hle, hlt⟩ := h
  obtain ⟨hle', hlt'⟩ := h'
  have hless : n < n' + 1 := by
    have hless : (n : ℚ) < n' + 1 := by linarith
    exact_mod_cast hless
  have hless' : n' < n + 1 := by
    have hless' : (n' : ℚ) < n + 1 := by linarith
    exact_mod_cast hless'
  omega

end Number

open Number (toRat SlipsUp IsHalfUp)

namespace Expr

variable {x : Float} {scopes : Scopes} {argument : Expr} {v : Value}

/-- The value of a call of `round` is a whole number: the one nearest to the argument, a half going
up, or, where adding a half slips, the one after it. A whole argument is kept but for those that are
odd and have 53 bits. -/
theorem eval_round (span : Span) (h : argument.eval x scopes = .ok v)
    (hfinite : v.toNumber.isFinite = true) :
    ∃ (r : Float) (n : ℤ), (call .round [argument] span).eval x scopes = .ok (.number r) ∧
      r.isFinite = true ∧ toRat r = n ∧
      (¬SlipsUp (toRat v.toNumber) → IsHalfUp n (toRat v.toNumber)) ∧
      (SlipsUp (toRat v.toNumber) → IsHalfUp (n - 1) (toRat v.toNumber)) ∧
      ∀ k : ℤ, toRat v.toNumber = k →
        n = if Odd k ∧ 2 ^ 52 < |k| ∧ |k| < 2 ^ 53 then k + 1 else k := by
  have heval : (call .round [argument] span).eval x scopes =
      .ok (.number (Number.floor (v.toNumber + 0.5))) := by
    rw [eval, evalList, h]
    rfl
  obtain ⟨hsum, hnear⟩ := Number.add_half_spec hfinite
  obtain ⟨hfloor, hvalue⟩ := Number.floor_spec hsum
  obtain ⟨m, e, hstored, ha⟩ := Number.exists_stored hfinite
  refine ⟨_, _, heval, hfloor, hvalue, ?_⟩
  have hup := Number.isHalfUp_floor (toRat v.toNumber)
  -- Either the sum slips, and its floor is one too high, or it is the floor of the exact sum.
  rcases Number.floorsTo_of_nearest ha hstored.abs_lt hstored.least_le hnear with
    ⟨hslips, hn⟩ | ⟨hslips, hn⟩
  · have hprevious : ⌊toRat (v.toNumber + 0.5)⌋ - 1 = ⌊toRat v.toNumber + 1 / 2⌋ := by omega
    refine ⟨fun hnot => absurd hslips hnot, fun _ => ?_, fun k hk => ?_⟩
    · rwa [hprevious]
    · rw [hk, Number.slipsUp_intCast_iff] at hslips
      rw [hk] at hup hn
      rw [if_pos hslips, hn, hup.eq (Number.isHalfUp_intCast k)]
  · refine ⟨fun _ => ?_, fun hdoes => absurd hdoes hslips, fun k hk => ?_⟩
    · rwa [hn]
    · rw [hk, Number.slipsUp_intCast_iff] at hslips
      rw [hk] at hup hn
      rw [if_neg hslips, hn, hup.eq (Number.isHalfUp_intCast k)]

/-- The number just below a half slips: it is rounded to one, although zero is nearer. -/
theorem eval_round_belowHalf :
    (0.49999999999999994 : Float).isFinite = true ∧ IsHalfUp 0 (toRat 0.49999999999999994) ∧
      ∃ r, (call .round [number 0.49999999999999994] ⟨0, 26⟩).eval 0 [] = .ok (.number r) ∧
        toRat r = 1 := by
  have hstored : Number.Stored (2 ^ 53 - 1) (-54) :=
    ⟨by decide, by decide, by decide, .inl (by decide)⟩
  have hpack : (0.49999999999999994 : Float) =
      .ofModel (.pack (.finite .positive (2 ^ 53 - 1) (-54) (by decide))) := by decide +kernel
  obtain ⟨hfinite, hvalue⟩ := hstored.spec hpack
  have hvalue : toRat 0.49999999999999994 = 1 / 2 - 2 ^ (-54 : ℤ) := by
    rw [hvalue, Number.signed]
    norm_num
  have hargument : (number 0.49999999999999994).eval 0 [] =
      .ok (.number 0.49999999999999994) := rfl
  obtain ⟨r, n, heval, -, hr, -, hslips, -⟩ := eval_round ⟨0, 26⟩ hargument hfinite
  have hzero : IsHalfUp 0 (toRat 0.49999999999999994) := by
    rw [hvalue]
    constructor <;> norm_num
  have hn : n - 1 = 0 := (hslips (.inl hvalue)).eq hzero
  have hone : n = 1 := by omega
  refine ⟨hfinite, hzero, r, heval, ?_⟩
  rw [hr, hone, Int.cast_one]

end Expr

end BlockLang
