import BlockLang.Expr.Value
import BlockLang.Proofs.Number.Whole

/-!
# Factorials

A factor that has more than 53 bits does not grow any more when one is added to it, so that the
product up to a greater number would go on for ever if it stayed finite. Main statements: it gets
infinite after 170 multiplications, whatever the number is, and the factorial is finite exactly for
the whole numbers up to 170, where it is right but for one rounding in each multiplication.
-/

namespace BlockLang

/-! ## Infinity, NaN and rounding -/

namespace Number

open Float.Model Float.Model.UnpackedFloat

section

variable {a b : Float}

lemma isNaN_of_isFinite (h : a.isFinite = true) : a.isNaN = false := by
  rcases unpack_of_isFinite h with ⟨s, ha⟩ | ⟨s, m, e, hm, ha⟩
  · exact congrArg UnpackedFloat.isNaN ha
  · exact congrArg UnpackedFloat.isNaN ha

lemma isInf_of_isFinite (h : a.isFinite = true) : a.isInf = false := by
  rcases unpack_of_isFinite h with ⟨s, ha⟩ | ⟨s, m, e, hm, ha⟩
  · exact congrArg UnpackedFloat.isInf ha
  · exact congrArg UnpackedFloat.isInf ha

lemma isNaN_nan : nan.isNaN = true := congrArg UnpackedFloat.isNaN unpack_nan

lemma isNaN_infinite (s : Sign) : (infinite s).isNaN = false :=
  congrArg UnpackedFloat.isNaN (unpack_infinite s)

lemma isInf_infinite (s : Sign) : (infinite s).isInf = true :=
  congrArg UnpackedFloat.isInf (unpack_infinite s)

lemma nan_ne_infinite (s : Sign) : nan ≠ infinite s := by
  intro heq
  have hnan := isNaN_nan
  rw [heq, isNaN_infinite] at hnan
  cases hnan

lemma ne_infinite_of_isFinite (h : a.isFinite = true) (s : Sign) : a ≠ infinite s := by
  rintro rfl
  rw [isFinite_infinite] at h
  cases h

/-- How far a number is at most from what it is rounded to, as a part of the number. -/
def roundoff : ℚ := 2 ^ (-53 : ℤ)

/-- The error of rounding, relative to the value. -/
lemma Nearest.abs_sub_le_mul_roundoff {x v : ℚ} (h : Nearest x v) (hx : 1 ≤ x) :
    |x - v| ≤ x * roundoff := by
  have hpos : 0 < x := by linarith
  have hexponent : -52 ≤ exponentOf x := le_exponentOf hpos (by rwa [neg_add_cancel, zpow_zero])
  have hbound := two_zpow_exponentOf_le hpos (by omega)
  calc |x - v| ≤ spacing x / 2 := h.abs_sub_le
    _ = 2 ^ (exponentOf x + 52) * 2 ^ (-53 : ℤ) := by
      rw [spacing_of_pos hpos, ← zpow_add₀ two_ne_zero, div_eq_mul_inv, ← zpow_sub_one₀ two_ne_zero]
      congr 1
      omega
    _ ≤ x * roundoff := mul_le_mul_of_nonneg_right hbound (zpow_pos two_pos _).le

/-- What is at least one is rounded to a number that is at least one. -/
lemma Nearest.one_le {x v : ℚ} (h : Nearest x v) (hx : 1 ≤ x) : 1 ≤ v := by
  have hgrid := intCast_mem_zmultiples_spacing (n := 1) (by norm_num)
  rw [Int.cast_one] at hgrid
  exact h.le_of_le_of_mem one_pos hgrid hx

lemma two_pow_lt_overflowBound : 2 ^ 1023 < overflowBound := by
  have hunit : (0 : ℚ) < 2 ^ (971 : ℤ) := zpow_pos two_pos _
  have hpow : (2 : ℚ) ^ 1023 = 2 ^ 52 * 2 ^ (971 : ℤ) := by
    rw [← zpow_natCast, ← zpow_natCast, ← zpow_add₀ two_ne_zero]
    rfl
  rw [overflowBound, limit_eq, hpow]
  generalize (2 : ℚ) ^ (971 : ℤ) = unit at hunit
  linarith

lemma overflowBound_le_two_pow : overflowBound ≤ 2 ^ 1024 :=
  sub_le_self _ (div_pos (zpow_pos two_pos _) two_pos).le

lemma zero_spec : (0 : Float).isFinite = true ∧ toRat 0 = 0 := by
  have hpack : (0 : Float) = .ofModel (.pack (.zero .positive)) := by decide +kernel
  have hunpack : (0 : Float).toModel.unpack = .zero .positive := by
    rw [hpack]
    exact model_unpack_pack_zero .positive
  exact ⟨congrArg UnpackedFloat.isFinite hunpack, toRat_of_unpack_zero hunpack⟩

lemma one_spec : (1 : Float).isFinite = true ∧ toRat 1 = 1 := by
  have hstored : Stored (2 ^ 52) (-52) := ⟨by decide, by decide, by decide, .inl le_rfl⟩
  exact hstored.positive_spec (by decide) (by decide +kernel) (by norm_num)

lemma two_spec : (2 : Float).isFinite = true ∧ toRat 2 = 2 := by
  have hstored : Stored (2 ^ 52) (-51) := ⟨by decide, by decide, by decide, .inl le_rfl⟩
  exact hstored.positive_spec (by decide) (by decide +kernel) (by norm_num)

/-- A whole number of less than 53 bits is counted up exactly. -/
lemma add_one_spec {k : ℕ} (h : a.isFinite = true) (hk : toRat a = k) (hlt : k + 1 < 2 ^ 53) :
    (a + 1).isFinite = true ∧ toRat (a + 1) = (k + 1 : ℕ) := by
  have hsum := isNearest_add h one_spec.1
  rw [hk, one_spec.2, ← Nat.cast_succ, ← Int.cast_natCast] at hsum
  exact hsum.exact_intCast (by rw [Nat.abs_cast]; exact_mod_cast hlt)

end

end Number

open Number (toRat roundoff)
open scoped Nat

namespace Builtin

/-! ## The products on the way -/

namespace Product

variable {n : Float} {p : Product} {i m k : ℕ} {v : Float}

/-- The product after `i` multiplications. -/
def after : ℕ → Product
  | 0 => first
  | i + 1 => (after i).multiply

/-- The next factor after `i` multiplications is exact. The product is what it should be but for
the error of each multiplication. -/
structure Reached (i : ℕ) (p : Product) : Prop where
  isFinite_next : p.next.isFinite = true
  toRat_next : toRat p.next = (i + 2 : ℕ)
  isFinite_value : p.value.isFinite = true
  one_le : 1 ≤ toRat p.value
  lower : (i + 1)! * (1 - roundoff) ^ i ≤ toRat p.value
  upper : toRat p.value ≤ (i + 1)! * (1 + roundoff) ^ i

/-- The product begins at the first factor. -/
lemma reached_first : Reached 0 first where
  isFinite_next := Number.two_spec.1
  toRat_next := Number.two_spec.2
  isFinite_value := Number.one_spec.1
  one_le := Number.one_spec.2.ge
  lower := by simp [first, Number.one_spec.2]
  upper := by simp [first, Number.one_spec.2]

/-- The product with the next factor, before it is rounded. -/
lemma Reached.bounds (h : Reached i p) :
    1 ≤ toRat p.value * toRat p.next ∧
      (i + 2)! * (1 - roundoff) ^ i ≤ toRat p.value * toRat p.next ∧
      toRat p.value * toRat p.next ≤ (i + 2)! * (1 + roundoff) ^ i := by
  have hsplit : ∀ q : ℚ, (i + 2)! * q = (i + 1)! * q * (i + 2 : ℕ) := by
    intro q
    rw [Nat.factorial_succ (i + 1)]
    push_cast
    ring
  have hone : (1 : ℚ) ≤ (i + 2 : ℕ) := by exact_mod_cast Nat.le_add_left 1 (i + 1)
  have hnonneg : (0 : ℚ) ≤ (i + 2 : ℕ) := Nat.cast_nonneg _
  rw [h.toRat_next, hsplit, hsplit]
  refine ⟨one_le_mul_of_one_le_of_one_le h.one_le hone, ?_, ?_⟩
  · exact mul_le_mul_of_nonneg_right h.lower hnonneg
  · exact mul_le_mul_of_nonneg_right h.upper hnonneg

/-- All errors together do not halve or double the product. -/
lemma roundoff_pow_bounds (hi : i ≤ 169) :
    1 / 2 ≤ (1 - roundoff) ^ i ∧ (1 + roundoff) ^ i ≤ 2 := by
  have hr : roundoff = 1 / 2 ^ 53 := by norm_num [roundoff]
  have hless : 1 / 2 ≤ (1 - roundoff) ^ i := by
    have hcast : (i : ℚ) ≤ 169 := by exact_mod_cast hi
    have hbernoulli := one_add_mul_le_pow (a := -roundoff) (by norm_num [hr]) i
    rw [← sub_eq_add_neg] at hbernoulli
    calc (1 / 2 : ℚ) ≤ 1 + i * -roundoff := by
          rw [hr]
          linarith
      _ ≤ (1 - roundoff) ^ i := hbernoulli
  refine ⟨hless, ?_⟩
  have hmore : 0 ≤ (1 + roundoff) ^ i := pow_nonneg (by norm_num [hr]) i
  have hboth : (1 + roundoff) ^ i * (1 - roundoff) ^ i ≤ 1 := by
    rw [← mul_pow]
    exact pow_le_one₀ (by norm_num [hr]) (by norm_num [hr])
  have hhalf := mul_le_mul_of_nonneg_left hless hmore
  linarith

/-- The last factorial that is a float, and the first that is none, are far from the bound. -/
lemma factorial_bounds : 170 ! * 2 ≤ 2 ^ 1023 ∧ 2 ^ 1024 * 2 ≤ 171 ! := by
  decide +kernel

/-- Before the last factor, no product overflows. -/
lemma Reached.lt_overflowBound (h : Reached i p) (hi : i < 169) :
    toRat p.value * toRat p.next < Number.overflowBound := by
  have hfactorial : ((i + 2)! : ℚ) ≤ 170 ! := by
    exact_mod_cast Nat.factorial_le (by omega : i + 2 ≤ 170)
  have hlarge : (170 ! * 2 : ℚ) ≤ 2 ^ 1023 := by exact_mod_cast factorial_bounds.1
  calc toRat p.value * toRat p.next ≤ (i + 2)! * (1 + roundoff) ^ i := h.bounds.2.2
    _ ≤ 170 ! * 2 := mul_le_mul hfactorial (roundoff_pow_bounds hi.le).2
      (pow_nonneg (by norm_num [roundoff]) i) (Nat.cast_nonneg _)
    _ ≤ 2 ^ 1023 := hlarge
    _ < Number.overflowBound := Number.two_pow_lt_overflowBound

/-- One more factor is multiplied. -/
lemma Reached.multiply (h : Reached i p) (hi : i < 169) : Reached (i + 1) p.multiply := by
  obtain ⟨hnext, hvalue⟩ := Number.add_one_spec h.isFinite_next h.toRat_next (by omega)
  obtain ⟨hone, hlower, hupper⟩ := h.bounds
  have hlt : |toRat p.value * toRat p.next| < Number.overflowBound := by
    rw [abs_of_pos (by linarith)]
    exact h.lt_overflowBound hi
  obtain ⟨hfinite, hnear⟩ := (Number.isNearest_mul h.isFinite_value h.isFinite_next).finite hlt
  obtain ⟨hdown, hup⟩ := abs_le.mp (hnear.abs_sub_le_mul_roundoff hone)
  refine ⟨hnext, hvalue, hfinite, hnear.one_le hone, ?_, ?_⟩
  · rw [pow_succ, ← mul_assoc]
    calc (i + 2)! * (1 - roundoff) ^ i * (1 - roundoff)
      _ ≤ toRat p.value * toRat p.next * (1 - roundoff) :=
          mul_le_mul_of_nonneg_right hlower (by norm_num [roundoff])
      _ ≤ toRat p.multiply.value := by
          rw [mul_one_sub]
          show _ ≤ toRat (p.value * p.next)
          linarith
  · rw [pow_succ, ← mul_assoc]
    calc toRat p.multiply.value
      _ ≤ toRat p.value * toRat p.next * (1 + roundoff) := by
          rw [mul_one_add]
          show toRat (p.value * p.next) ≤ _
          linarith
      _ ≤ (i + 2)! * (1 + roundoff) ^ i * (1 + roundoff) :=
          mul_le_mul_of_nonneg_right hupper (by norm_num [roundoff])

/-- All factors are multiplied, one after the other. -/
theorem reached_after (hi : i ≤ 169) : Reached i (after i) := by
  induction i with
  | zero => exact reached_first
  | succ i ih => exact (ih (by omega)).multiply (by omega)

/-- The factorial of 171 is too large, also after rounding. -/
lemma value_after_last : (after 170).value = Number.infinity := by
  have h : Reached 169 (after 169) := reached_after le_rfl
  refine (Number.isNearest_mul h.isFinite_value h.isFinite_next).eq_infinity ?_
  have hlarge : (2 ^ 1024 * 2 : ℚ) ≤ 171 ! := by exact_mod_cast factorial_bounds.2
  calc Number.overflowBound ≤ 2 ^ 1024 := Number.overflowBound_le_two_pow
    _ ≤ 171 ! / 2 := (le_div_iff₀ two_pos).mpr hlarge
    _ = 171 ! * (1 / 2) := (mul_one_div _ _).symm
    _ ≤ 171 ! * (1 - roundoff) ^ 169 :=
        mul_le_mul_of_nonneg_left (roundoff_pow_bounds le_rfl).1 (Nat.cast_nonneg _)
    _ ≤ toRat (after 169).value * toRat (after 169).next := h.bounds.2.1

/-! ## The loop -/

/-- Whether the loop that starts with a product ends, after how many multiplications, and with
what. -/
inductive Ends (n : Float) : Product → ℕ → Float → Prop
  | stop {p : Product} : p.goesOn n = false → Ends n p 0 p.value
  | step {p : Product} {m : ℕ} {v : Float} :
      p.goesOn n = true → Ends n p.multiply m v → Ends n p (m + 1) v

/-- The product goes on as long as it may. -/
lemma upTo_unfold (n : Float) (p : Product) :
    p.upTo n = if p.goesOn n then p.multiply.upTo n else p.value := by
  unfold upTo
  rw [repeatM_eq_of_monadTail]
  unfold repeatM.body turn
  split
  · rfl
  · rfl

/-- A loop that ends gives the product it ends with. -/
lemma Ends.upTo_eq (h : Ends n p m v) : p.upTo n = v := by
  induction h with
  | stop hstop => rw [upTo_unfold, if_neg (ne_true_of_eq_false hstop)]
  | step hstep _ ih => rw [upTo_unfold, if_pos hstep, ih]

/-- An infinite product takes no more factors. -/
lemma goesOn_after_last (n : Float) : (after 170).goesOn n = false := by
  rw [goesOn, value_after_last, Bool.and_eq_false_iff]
  exact .inr (Number.isFinite_infinite .positive)

/-- There are at most 170 multiplications in all, however large the number is and however many of
them were made already. -/
theorem exists_ends_after (n : Float) :
    ∀ {i d : ℕ}, i + d = 170 → ∃ m ≤ d, ∃ v, Ends n (after i) m v := by
  intro i d hd
  -- The induction is on how many multiplications are left.
  induction d generalizing i with
  | zero =>
    obtain rfl : i = 170 := hd
    exact ⟨0, le_rfl, _, .stop (goesOn_after_last n)⟩
  | succ d ih =>
    cases hgoes : (after i).goesOn n with
    | false => exact ⟨0, by omega, _, .stop hgoes⟩
    | true =>
      obtain ⟨m, hm, v, hends⟩ := ih (i := i + 1) (by omega)
      exact ⟨m + 1, by omega, v, .step hgoes hends⟩

/-- For every argument, the product ends after at most 170 steps. -/
theorem exists_ends (n : Float) : ∃ m ≤ 170, Ends n first m (first.upTo n) := by
  obtain ⟨m, hm, v, hends⟩ := exists_ends_after n (i := 0) (zero_add 170)
  have hv : first.upTo n = v := hends.upTo_eq
  exact ⟨m, hm, hv ▸ hends⟩

/-- A finite product takes the factors that are not above the number. -/
lemma goesOn_after_iff (hn : n.isFinite = true) (hi : i ≤ 169) :
    (after i).goesOn n = true ↔ ((i + 2 : ℕ) : ℚ) ≤ toRat n := by
  have hreached := reached_after hi
  rw [goesOn, Bool.and_eq_true, and_iff_left hreached.isFinite_value, decide_eq_true_iff,
    Number.le_iff hreached.isFinite_next hn, hreached.toRat_next]

/-- The multiplications before a product are those that lead to it. -/
lemma Ends.from_first (hgoes : ∀ j < i, (after j).goesOn n = true) (h : Ends n (after i) m v) :
    Ends n first (i + m) v := by
  induction i generalizing m with
  | zero => rwa [zero_add]
  | succ i ih =>
    rw [Nat.succ_add_eq_add_succ]
    exact ih (fun j hj => hgoes j (by omega)) (.step (hgoes i (by omega)) h)

/-- The product up to a whole number that is not too large has every factor up to it. -/
theorem ends_of_le (hn : n.isFinite = true) (hk : toRat n = k) (hle : k ≤ 170) :
    Ends n first (k - 1) (after (k - 1)).value := by
  have hstop : (after (k - 1)).goesOn n = false := by
    rw [Bool.eq_false_iff, ne_eq, goesOn_after_iff hn (by omega), hk, Nat.cast_le]
    omega
  refine Ends.from_first (fun j hj => ?_) (.stop hstop)
  rw [goesOn_after_iff hn (by omega), hk, Nat.cast_le]
  omega

/-- The product up to a greater one gets infinite before it has all of them. -/
theorem ends_of_ge (hn : n.isFinite = true) (hk : toRat n = k) (hge : 171 ≤ k) :
    Ends n first 170 Number.infinity := by
  have hstop := Ends.stop (goesOn_after_last n)
  rw [value_after_last] at hstop
  refine hstop.from_first fun j hj => ?_
  rw [goesOn_after_iff hn (by omega), hk, Nat.cast_le]
  omega

end Product

/-! ## The factorial -/

section

variable {n : Float}

/-- The numbers that have no factorial. The negative zero is not below zero and has one. -/
inductive NoFactorial (n : Float) : Prop
  | nan : n.isNaN = true → NoFactorial n
  | infinite : n.isInf = true → NoFactorial n
  | negative : n < 0 → NoFactorial n
  | fraction : n.isFinite = true → (∀ k : ℤ, toRat n ≠ k) → NoFactorial n

/-- The whole numbers whose factorial has no place in the format. -/
def HugeFactorial (n : Float) : Prop := n.isFinite = true ∧ ∃ k : ℤ, 171 ≤ k ∧ toRat n = k

/-- Negative numbers and those that are not whole have no factorial. -/
lemma noFactorial_iff : NoFactorial n ↔ n < 0 ∨ Number.isWhole n = false := by
  rw [Bool.eq_false_iff, ne_eq, Number.isWhole_iff]
  constructor
  · intro h
    cases h with
    | nan hnan =>
      refine .inr fun hwhole => ?_
      rw [Number.isNaN_of_isFinite hwhole.1] at hnan
      cases hnan
    | infinite hinfinite =>
      refine .inr fun hwhole => ?_
      rw [Number.isInf_of_isFinite hwhole.1] at hinfinite
      cases hinfinite
    | negative hneg => exact .inl hneg
    | fraction hfinite hfraction => exact .inr fun ⟨_, k, hk⟩ => hfraction k hk
  · rintro (hneg | hwhole)
    · exact .negative hneg
    · rcases Number.isFinite_or n with hfinite | ⟨s, rfl⟩ | rfl
      · exact .fraction hfinite fun k hk => hwhole ⟨hfinite, k, hk⟩
      · exact .infinite (Number.isInf_infinite s)
      · exact .nan Number.isNaN_nan

/-- What has no factorial gives NaN. -/
lemma factorialOf_eq_nan (h : NoFactorial n) : factorialOf n = Number.nan := by
  unfold factorialOf
  apply if_pos
  rw [Bool.or_eq_true, decide_eq_true_iff, Bool.not_eq_true']
  exact noFactorial_iff.mp h

lemma factorialOf_eq_upTo (h : ¬NoFactorial n) : factorialOf n = Product.first.upTo n := by
  unfold factorialOf
  apply if_neg
  rw [Bool.or_eq_true, decide_eq_true_iff, Bool.not_eq_true']
  exact mt noFactorial_iff.mpr h

/-- What has a factorial is a natural number. -/
lemma exists_natCast_eq (h : ¬NoFactorial n) :
    n.isFinite = true ∧ ∃ k : ℕ, toRat n = k := by
  rw [noFactorial_iff, not_or, Bool.not_eq_false, Number.isWhole_iff] at h
  obtain ⟨hnonneg, hfinite, k, hk⟩ := h
  rw [Number.lt_iff hfinite Number.zero_spec.1, Number.zero_spec.2, hk, not_lt] at hnonneg
  obtain ⟨k, rfl⟩ := Int.eq_ofNat_of_zero_le (a := k) (by exact_mod_cast hnonneg)
  exact ⟨hfinite, k, hk⟩

lemma defined_of_toRat_eq {k : ℕ} (hn : n.isFinite = true) (hk : toRat n = k) :
    ¬NoFactorial n := by
  rw [noFactorial_iff, not_or, Bool.not_eq_false, Number.isWhole_iff,
    Number.lt_iff hn Number.zero_spec.1, Number.zero_spec.2, hk]
  exact ⟨not_lt.mpr (Nat.cast_nonneg k), hn, k, rfl⟩

/-- An argument with a huge factorial is a natural number from 171 on. -/
lemma HugeFactorial.exists_natCast (h : HugeFactorial n) :
    n.isFinite = true ∧ ∃ k : ℕ, 171 ≤ k ∧ toRat n = k := by
  obtain ⟨hfinite, k, hlarge, hk⟩ := h
  obtain ⟨k, rfl⟩ := Int.eq_ofNat_of_zero_le (a := k) (by omega)
  exact ⟨hfinite, k, by omega, hk⟩

lemma HugeFactorial.defined (h : HugeFactorial n) : ¬NoFactorial n := by
  obtain ⟨hfinite, k, -, hk⟩ := h.exists_natCast
  exact defined_of_toRat_eq hfinite hk

/-- A huge factorial is infinite. -/
lemma factorialOf_eq_infinity (h : HugeFactorial n) : factorialOf n = Number.infinity := by
  rw [factorialOf_eq_upTo h.defined]
  obtain ⟨hfinite, k, hlarge, hk⟩ := h.exists_natCast
  exact (Product.ends_of_ge hfinite hk hlarge).upTo_eq

/-- The factorial of a whole number that is not too large has all factors up to it, and is what it
should be but for the error of each multiplication. -/
theorem factorialOf_spec {k : ℕ} (hn : n.isFinite = true) (hk : toRat n = k) (hle : k ≤ 170) :
    Product.Ends n .first (k - 1) (factorialOf n) ∧ (factorialOf n).isFinite = true ∧
      1 ≤ toRat (factorialOf n) ∧ k ! * (1 - roundoff) ^ (k - 1) ≤ toRat (factorialOf n) ∧
      toRat (factorialOf n) ≤ k ! * (1 + roundoff) ^ (k - 1) := by
  have hends := Product.ends_of_le hn hk hle
  have hreached := Product.reached_after (i := k - 1) (by omega)
  have hfactorial : (k - 1 + 1)! = k ! := by
    cases k with
    | zero => rfl
    | succ k => rfl
  rw [factorialOf_eq_upTo (defined_of_toRat_eq hn hk), hends.upTo_eq, ← hfactorial]
  exact ⟨hends, hreached.isFinite_value, hreached.one_le, hreached.lower, hreached.upper⟩

/-- Any other factorial ends one step before its argument, on a finite product. -/
lemma ends_factorialOf (h : ¬NoFactorial n) (hsmall : ¬HugeFactorial n) :
    ∃ k : ℕ, toRat n = k ∧ Product.Ends n .first (k - 1) (factorialOf n) ∧
      (factorialOf n).isFinite = true ∧ 1 ≤ toRat (factorialOf n) := by
  obtain ⟨hfinite, k, hk⟩ := exists_natCast_eq h
  have hle : k ≤ 170 := by
    by_contra! hlarge
    exact hsmall ⟨hfinite, k, by omega, hk⟩
  obtain ⟨hends, hvalue, hone, -⟩ := factorialOf_spec hfinite hk hle
  exact ⟨k, hk, hends, hvalue, hone⟩

/-- The loop ends for every number after at most 170 multiplications. The factorial is NaN exactly
where there is none, infinite exactly where it is too large, and else what the loop ends with when
all factors up to the number are there, which is finite and at least one. -/
theorem factorialOf_ends_and_classified (n : Float) :
    (∃ m ≤ 170, Product.Ends n .first m (Product.first.upTo n)) ∧
      ((factorialOf n).isNaN = true ↔ NoFactorial n) ∧
      (factorialOf n = Number.infinity ↔ HugeFactorial n) ∧
      (¬NoFactorial n → ¬HugeFactorial n →
        ∃ k : ℕ, toRat n = k ∧ Product.Ends n .first (k - 1) (factorialOf n) ∧
          (factorialOf n).isFinite = true ∧ 1 ≤ toRat (factorialOf n)) := by
  refine ⟨Product.exists_ends n, ?_⟩
  by_cases h : NoFactorial n
  · rw [factorialOf_eq_nan h]
    exact ⟨iff_of_true Number.isNaN_nan h,
      iff_of_false (Number.nan_ne_infinite .positive) fun hlarge => hlarge.defined h,
      fun hdefined => absurd h hdefined⟩
  by_cases hlarge : HugeFactorial n
  · rw [factorialOf_eq_infinity hlarge]
    have hnan := ne_true_of_eq_false (Number.isNaN_infinite .positive)
    exact ⟨iff_of_false hnan h, iff_of_true rfl hlarge, fun _ hsmall => absurd hlarge hsmall⟩
  · obtain ⟨k, -, -, hfinite, -⟩ := ends_factorialOf h hlarge
    have hnan := ne_true_of_eq_false (Number.isNaN_of_isFinite hfinite)
    have hne := Number.ne_infinite_of_isFinite hfinite .positive
    exact ⟨iff_of_false hnan h, iff_of_false hne hlarge, ends_factorialOf⟩

/-- The greatest number whose factorial is finite. -/
theorem factorialOf_ends_and_classified_greatest :
    ¬NoFactorial 170 ∧ ¬HugeFactorial 170 ∧ Product.Ends 170 .first 169 (factorialOf 170) ∧
      (factorialOf 170).isFinite = true ∧ 1 ≤ toRat (factorialOf 170) := by
  have hstored : Number.Stored (170 * 2 ^ 45) (-45) :=
    ⟨by decide, by decide, by decide, .inl (by decide)⟩
  have hvalue : toRat 170 = 170 :=
    (hstored.positive_spec (by decide) (by decide +kernel) (by norm_num)).2
  have hdefined : ¬NoFactorial 170 := by
    rw [noFactorial_iff]
    decide +kernel
  have hsmall : ¬HugeFactorial 170 := by
    rintro ⟨-, k, hlarge, hk⟩
    rw [hvalue] at hk
    have hk : 170 = k := by exact_mod_cast hk
    omega
  obtain ⟨k, hk, hends⟩ := (factorialOf_ends_and_classified 170).2.2.2 hdefined hsmall
  rw [hvalue] at hk
  obtain rfl : 170 = k := by exact_mod_cast hk
  exact ⟨hdefined, hsmall, hends⟩

end

end Builtin

end BlockLang
