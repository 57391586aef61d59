import BlockLang.Number.Decimal
import Mathlib.Algebra.Group.Nat.Defs
import Mathlib.Data.List.Basic
import Mathlib.Data.Nat.Init
import Mathlib.Tactic.Lemma

/-!
# Decimals written by position

Main statement: a decimal point is put between the digits of a number so that there are digits
before and after it, of which none is needless.
-/

namespace BlockLang

namespace Decimal

/-! ## Digits -/

/-- The value of digits is the one in base ten. -/
lemma value_eq (digits : List Char) : value digits = Nat.ofDigitChars 10 digits 0 := rfl

/-- The value of digits that follow one another. -/
lemma value_append (xs ys : List Char) :
    value (xs ++ ys) = 10 ^ ys.length * value xs + value ys := by
  rw [value_eq, Nat.ofDigitChars_append, Nat.ofDigitChars_eq_ofDigitChars_zero]
  rfl

/-- A numeral has the number as its value. -/
lemma value_numeral (n : ℕ) : value (numeral n) = n := Nat.ofDigitChars_ten_toDigits

lemma value_zeros (k : ℕ) : value (List.replicate k '0') = 0 := by
  rw [value_eq, Nat.ofDigitChars_replicate_zero, Nat.mul_zero]

lemma isDigit_of_mem_numeral {n : ℕ} {c : Char} (h : c ∈ numeral n) : c.isDigit :=
  Nat.isDigit_of_mem_toDigits (by decide) (by decide) h

lemma isDigit_of_mem_zeros {k : ℕ} {c : Char} (h : c ∈ List.replicate k '0') : c.isDigit := by
  rw [List.eq_of_mem_replicate h]
  rfl

lemma numeral_ne_nil (n : ℕ) : numeral n ≠ [] := Nat.toDigits_ne_nil

/-- A numeral of a positive number does not begin with a zero. -/
lemma head?_numeral {n : ℕ} (h : 0 < n) : (numeral n).head? ≠ some '0' := by
  induction n using Nat.strong_induction_on with
  | _ n ih =>
    rw [numeral, Nat.toDigits_eq_if (by decide)]
    split
    · rename_i hlt
      have hdigits : ∀ d < 10, 0 < d → [d.digitChar].head? ≠ some '0' := by decide
      exact hdigits n hlt h
    · have hhead := ih (n / 10) (by omega) (by omega)
      rwa [List.head?_append_of_ne_nil _ Nat.toDigits_ne_nil]

/-! ## Digits with a point -/

/-- Digits that can stand before and after a decimal point, without needless zeros in front. -/
structure IsPointed (whole fraction : List Char) : Prop where
  whole_digits : ∀ c ∈ whole, c.isDigit
  fraction_digits : ∀ c ∈ fraction, c.isDigit
  whole_ne_nil : whole ≠ []
  fraction_ne_nil : fraction ≠ []
  head : whole.length = 1 ∨ whole.head? ≠ some '0'

lemma isPointed_zero : IsPointed ['0'] ['0'] where
  whole_digits := by simp
  fraction_digits := by simp
  whole_ne_nil := List.cons_ne_nil _ _
  fraction_ne_nil := List.cons_ne_nil _ _
  head := .inl rfl

variable {n places : ℕ}

/-- Digits without a fraction get a zero after the point. -/
lemma isPointed_zeros (hn : 0 < n) (k : ℕ) :
    IsPointed (numeral n ++ List.replicate k '0') ['0'] where
  whole_digits c hc :=
    (List.mem_append.mp hc).elim isDigit_of_mem_numeral isDigit_of_mem_zeros
  fraction_digits := by simp
  whole_ne_nil := by simp [numeral_ne_nil]
  fraction_ne_nil := by simp
  head := by
    rw [List.head?_append_of_ne_nil _ (numeral_ne_nil n)]
    exact .inr (head?_numeral hn)

/-- The point is put between digits that begin with a zero only if it stands right after it. -/
lemma exists_isPointed (hn : 0 < n) (hplaces : 0 < places) :
    ∃ whole fraction, positional ⟨n, -places⟩ = whole ++ '.' :: fraction ∧
      IsPointed whole fraction ∧ fraction.length = places ∧ value (whole ++ fraction) = n := by
  generalize hpadded :
    List.replicate (places + 1 - (numeral n).length) '0' ++ numeral n = padded
  have hlength : padded.length = max (places + 1) (numeral n).length := by
    rw [← hpadded, List.length_append, List.length_replicate]
    omega
  have hdigits : ∀ c ∈ padded, c.isDigit := by
    rw [← hpadded]
    intro c hc
    exact (List.mem_append.mp hc).elim isDigit_of_mem_zeros isDigit_of_mem_numeral
  have hvalue : value padded = n := by
    rw [← hpadded, value_append, value_zeros, value_numeral, Nat.mul_zero, Nat.zero_add]
  have hwhole : (padded.take (padded.length - places)).length = padded.length - places := by
    rw [List.length_take]
    omega
  have hfraction : (padded.drop (padded.length - places)).length = places := by
    rw [List.length_drop]
    omega
  refine ⟨padded.take (padded.length - places), padded.drop (padded.length - places), ?_, ?_,
    hfraction, ?_⟩
  · have hnegative : ¬ (0 : Int) ≤ -places := by omega
    rw [positional, if_neg hnegative, Int.neg_neg, Int.toNat_natCast, pointed, hpadded]
  · refine ⟨fun c hc => hdigits c (List.mem_of_mem_take hc),
      fun c hc => hdigits c (List.mem_of_mem_drop hc), ?_, ?_, ?_⟩
    · exact List.ne_nil_of_length_pos (by omega)
    · exact List.ne_nil_of_length_pos (by omega)
    · rw [hwhole, List.head?_take]
      -- Zeros are put in front only if the digits do not reach the point.
      by_cases hshort : (numeral n).length ≤ places
      · exact .inl (by omega)
      · have hnone : places + 1 - (numeral n).length = 0 := by omega
        rw [hnone, List.replicate_zero, List.nil_append] at hpadded
        rw [if_neg (by omega), ← hpadded]
        exact .inr (head?_numeral hn)
  · rw [List.take_append_drop, hvalue]

end Decimal

end BlockLang
