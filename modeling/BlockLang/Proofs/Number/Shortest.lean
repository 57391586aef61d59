import BlockLang.Number.Text
import BlockLang.Proofs.Number.Nearest
import BlockLang.Proofs.Number.Packing

/-!
# The shortest digits of a number

Main statement: the number nearest to the shortest decimal of a finite number is the number itself.
-/

namespace BlockLang

open Float.Model Float.Model.UnpackedFloat
open Number (Stored Rounds)

namespace Decimal

variable {m : ℕ} {e : ℤ}

/-! ## Exact decimals -/

lemma toRat_trim (d : Decimal) : d.trim.toRat = d.toRat := by
  fun_induction trim d with
  | case1 d h => rfl
  | case2 d h ih =>
    have hdigits : 10 * (d.digits / 10) = d.digits := by omega
    have hcast : (10 : ℚ) * (d.digits / 10 : ℕ) = d.digits := by exact_mod_cast hdigits
    rw [ih, toRat, toRat, zpow_add_one₀ (by norm_num), ← hcast]
    ring

/-- A negative power of two is a power of five over a power of ten. -/
lemma toRat_ofScaled (m : ℕ) (e : ℤ) : (ofScaled m e).toRat = m * 2 ^ e := by
  by_cases he : 0 ≤ e
  · obtain ⟨k, rfl⟩ := Int.eq_ofNat_of_zero_le he
    rw [ofScaled, if_pos he, toRat, zpow_zero, mul_one, zpow_natCast, Int.toNat_natCast]
    show ((m * 2 ^ k : ℕ) : ℚ) = m * 2 ^ k
    push_cast
    rfl
  · obtain ⟨k, rfl⟩ := Int.exists_eq_neg_ofNat (Int.not_le.mp he).le
    rw [ofScaled, if_neg he, toRat, neg_neg, Int.toNat_natCast, zpow_neg, zpow_neg, zpow_natCast,
      zpow_natCast]
    show ((m * 5 ^ k : ℕ) : ℚ) * (10 ^ k)⁻¹ = m * (2 ^ k)⁻¹
    have hten : (10 : ℚ) ^ k = 5 ^ k * 2 ^ k := by rw [← mul_pow]; norm_num
    have hfive : (5 : ℚ) ^ k ≠ 0 := pow_ne_zero k (by norm_num)
    rw [hten, mul_inv, Nat.cast_mul, Nat.cast_pow, Nat.cast_ofNat, mul_assoc,
      mul_inv_cancel_left₀ hfive]

lemma toFloat_ofScaled (h : Stored m e) (hm : 0 < m) :
    (ofScaled m e).toFloat = .ofModel (.pack (.finite .positive m e hm)) := by
  have hrat := toRat_ofScaled m e
  have hdigits : 0 < (ofScaled m e).digits := by
    rw [ofScaled]
    split
    · exact Nat.mul_pos hm (Nat.pow_pos two_pos)
    · exact Nat.mul_pos hm (Nat.pow_pos (by norm_num))
  obtain ⟨u, hu, hfloat⟩ := exists_rounds hdigits
  rw [hrat] at hu
  have hfinite := Number.rounds_of_targetExponent .positive hm (h.targetExponent_eq hm)
  rw [hfloat, hu.eq hfinite]

/-! ## Fewer digits -/

/-- If the test asks for the nearest number, the decimal that is found has that number. -/
lemma toFloat_shortest {d : Decimal} {a : Float} (hd : d.toFloat = a) (dropped : ℕ) :
    (shortest (fun d' => decide (d'.toFloat = a)) d dropped).toFloat = a := by
  induction dropped with
  | zero => exact hd
  | succ dropped ih =>
    rw [shortest]
    cases hfind : (d.neighbours (dropped + 1)).find? fun d' => decide (d'.toFloat = a) with
    | none => exact ih
    | some found =>
      have htest := List.find?_some hfind
      have hfound : found.toFloat = a := of_decide_eq_true htest
      show found.trim.toFloat = a
      rw [toFloat_eq_of_toRat_eq (toRat_trim found), hfound]

end Decimal

namespace Number

variable {m : ℕ} {e : ℤ}

/-- The shortest decimal of a finite number reads back as the number. -/
theorem toFloat_shortest (h : Stored m e) (hm : 0 < m) :
    (shortest m e hm).toFloat = .ofModel (.pack (.finite .positive m e hm)) := by
  apply Decimal.toFloat_shortest
  rw [Decimal.toFloat_eq_of_toRat_eq (Decimal.toRat_trim _), Decimal.toFloat_ofScaled h hm]

/-- The shortest decimal of a finite number has digits that are not all zero. -/
lemma digits_shortest_pos (h : Stored m e) (hm : 0 < m) : 0 < (shortest m e hm).digits := by
  have hfloat := toFloat_shortest h hm
  rw [Nat.pos_iff_ne_zero]
  intro hzero
  have hunpack : (Float.Model.pack (.zero .positive)).unpack = .finite .positive m e hm := by
    have hmodel : Float.Model.pack (.zero .positive) = .pack (.finite .positive m e hm) := by
      rw [Decimal.toFloat, hzero] at hfloat
      exact Float.ofModel.inj hfloat
    rw [hmodel, h.model_unpack_pack]
  rw [model_unpack_pack_zero] at hunpack
  cases hunpack

end Number

end BlockLang
