import BlockLang.Number.Exact
import BlockLang.Proofs.Number.Rounding

/-!
# Numbers and their parts

A number of the format is packed from a sign, a mantissa and an exponent. Main statements: packing
the parts of a number gives the number again, and the parts of a finite number are as the format
asks for.
-/

namespace BlockLang.Number

open Float.Model Float.Model.UnpackedFloat

/-! ## Bits -/

/-- The bits of a number with the given parts. -/
abbrev bits (s : Sign) (exponent : BitVec 11) (mantissa : BitVec 52) : BitVec 64 :=
  packComponents .binary64 s exponent mantissa

/-- All bits are those of some parts. -/
lemma exists_bits_eq (b : BitVec 64) : ∃ s exponent mantissa, b = bits s exponent mantissa :=
  ⟨_, _, _, (@packComponents_unpackSign_unpackExponent_unpackMantissa .binary64 b).symm⟩

lemma toNat_one_append (mantissa : BitVec 52) :
    (1#1 ++ mantissa).toNat = 2 ^ 52 + mantissa.toNat := by
  rw [BitVec.toNat_append, ← Nat.shiftLeft_add_eq_or_of_lt mantissa.isLt]
  rfl

/-! ## Unpacking -/

section

variable (s : Sign) (exponent : BitVec 11) (mantissa : BitVec 52)

/-- The bits of a float, read field by field. -/
lemma unpack_bits : UnpackedFloat.unpack .binary64 (bits s exponent mantissa) =
    if exponent = -1#11 then
      if mantissa = 0#52 then .infinity s else .notANumber
    else if exponent = 0#11 then
      if h : mantissa = 0#52 then .zero s
      else .finite s mantissa.toNat (exponent.toNat - 1075 + 1) (BitVec.toNat_pos_of_ne_zero h)
    else .finite s (2 ^ 52 + mantissa.toNat) (exponent.toNat - 1075) (by omega) := by
  have hmantissa : @unpackMantissa .binary64 (bits s exponent mantissa) = mantissa :=
    @unpackMantissa_packComponents .binary64 s exponent mantissa
  have hexponent : @unpackExponent .binary64 (bits s exponent mantissa) = exponent :=
    @unpackExponent_packComponents .binary64 s exponent mantissa
  have hsign : @unpackSign .binary64 (bits s exponent mantissa) = s.toBitVec :=
    @unpackSign_packComponents .binary64 s exponent mantissa
  unfold UnpackedFloat.unpack
  simp only [hmantissa, hexponent, hsign, Sign.ofBitVec_toBitVec, toNat_one_append]
  rfl

end

/-! ## Packing -/

section

variable (s : Sign) {m : ℕ}

/-- The bits of a subnormal float. -/
lemma pack_subnormal (hm : 0 < m) (hlt : m < 2 ^ 52) :
    UnpackedFloat.pack .binary64 (.finite s m (-1074) hm) = bits s 0#11 (BitVec.ofNat 52 m) := by
  have hlog : ¬ m.log2 + 1 = 53 := by
    have hlog := (Nat.log2_lt hm.ne').mpr hlt
    omega
  rw [UnpackedFloat.pack]
  exact (if_neg (by decide)).trans (if_neg hlog)

/-- The bits of a normal float. -/
lemma pack_normal {k : ℕ} (hk : k < 2047) (hle : 2 ^ 52 ≤ m) (hlt : m < 2 ^ 53) (hm : 0 < m) :
    UnpackedFloat.pack .binary64 (.finite s m (k - 1075) hm) =
      bits s (BitVec.ofNat 11 k) (BitVec.ofNat 52 m) := by
  have hlog : m.log2 + 1 = 53 := by
    have hlog := (Nat.log2_lt hm.ne').mpr hlt
    have hlog' := (Nat.le_log2 hm.ne').mpr hle
    omega
  have hbiased : ((k : ℤ) - 1075 + 1023 + 52).toNat = k := by omega
  have hpack : UnpackedFloat.pack .binary64 (.finite s m (k - 1075) hm) =
      if 2 ^ 11 ≤ ((k : ℤ) - 1075 + 1023 + 52).toNat + 1 then packedInfinity .binary64 s
      else if m.log2 + 1 = 53 then
        bits s (BitVec.ofNat 11 ((k : ℤ) - 1075 + 1023 + 52).toNat) (BitVec.ofNat 52 m)
      else bits s 0#11 (BitVec.ofNat 52 m) := rfl
  rw [hpack, hbiased, if_neg (by omega), if_pos hlog]

end

/-! ## There and back -/

/-- A mantissa that uses all its bits if the exponent is not the least one. The exponent may be too
large for the format. -/
structure Canonical (m : ℕ) (e : ℤ) : Prop where
  lt : m < 2 ^ 53
  least_le : -1074 ≤ e
  normal : 2 ^ 52 ≤ m ∨ e = -1074

/-- A canonical pair has the exponent that it would be shifted to. -/
lemma Canonical.targetExponent_eq {m : ℕ} {e : ℤ} (h : Canonical m e) (hm : 0 < m) :
    Format.binary64.targetExponent (totalExponent m e) = e := by
  have hlog := (Nat.log2_lt hm.ne').mpr h.lt
  have hleast := h.least_le
  rw [Number.targetExponent_eq, totalExponent]
  rcases h.normal with hle | he
  · have hlog' := (Nat.le_log2 hm.ne').mpr hle
    omega
  · omega

/-- The parts of a finite number: all bits of the mantissa are used if the exponent is not the least
one. -/
structure Stored (m : ℕ) (e : ℤ) : Prop where
  lt : m < 2 ^ 53
  least_le : -1074 ≤ e
  le_greatest : e ≤ 971
  normal : 2 ^ 52 ≤ m ∨ e = -1074

lemma Stored.canonical {m : ℕ} {e : ℤ} (h : Stored m e) : Canonical m e :=
  ⟨h.lt, h.least_le, h.normal⟩

lemma Stored.targetExponent_eq {m : ℕ} {e : ℤ} (h : Stored m e) (hm : 0 < m) :
    Format.binary64.targetExponent (totalExponent m e) = e :=
  h.canonical.targetExponent_eq hm

/-- A finite number is found again in its bits. -/
theorem Stored.unpack_pack {m : ℕ} {e : ℤ} (h : Stored m e) (s : Sign) (hm : 0 < m) :
    UnpackedFloat.unpack .binary64 (UnpackedFloat.pack .binary64 (.finite s m e hm)) =
      .finite s m e hm := by
  have hlt := h.lt
  by_cases hle : 2 ^ 52 ≤ m
  -- The first bit of the mantissa is known to be set and is left out.
  · have hleast := h.least_le
    have hgreatest := h.le_greatest
    obtain ⟨k, hk⟩ : ∃ k : ℕ, e = k - 1075 := ⟨(e + 1075).toNat, by omega⟩
    subst hk
    have hexponent : (BitVec.ofNat 11 k).toNat = k := Nat.mod_eq_of_lt (by omega)
    have hones : BitVec.ofNat 11 k ≠ -1#11 := by
      intro heq
      rw [heq] at hexponent
      have hlast : (-1#11).toNat = 2047 := by decide
      omega
    have hzero : BitVec.ofNat 11 k ≠ 0#11 := by
      intro heq
      rw [heq, BitVec.toNat_zero] at hexponent
      omega
    have hmantissa : 2 ^ 52 + (BitVec.ofNat 52 m).toNat = m := by
      rw [BitVec.toNat_ofNat]
      omega
    rw [pack_normal s (by omega) hle hlt hm, unpack_bits, if_neg hones, if_neg hzero]
    simp only [hexponent, hmantissa]
  -- It is not set, which the exponent field zero says.
  · obtain rfl := h.normal.resolve_left hle
    have hmantissa : (BitVec.ofNat 52 m).toNat = m := Nat.mod_eq_of_lt (by omega)
    have hzero : BitVec.ofNat 52 m ≠ 0#52 := by
      intro heq
      rw [heq, BitVec.toNat_zero] at hmantissa
      omega
    rw [pack_subnormal s hm (by omega), unpack_bits, if_neg (by decide), if_pos rfl, dif_neg hzero]
    simp only [hmantissa]
    rfl

/-- The parts that are read from bits are in the range of the format. -/
theorem stored_of_unpack {b : BitVec 64} {s : Sign} {m : ℕ} {e : ℤ} {hm : 0 < m}
    (h : UnpackedFloat.unpack .binary64 b = .finite s m e hm) : Stored m e := by
  obtain ⟨s', exponent, mantissa, rfl⟩ := exists_bits_eq b
  have hmantissa : mantissa.toNat < 2 ^ 52 := mantissa.isLt
  have hexponent : exponent.toNat < 2 ^ 11 := exponent.isLt
  rw [unpack_bits] at h
  by_cases hones : exponent = -1#11
  · rw [if_pos hones] at h
    split at h <;> cases h
  rw [if_neg hones] at h
  by_cases hzero : exponent = 0#11
  · rw [if_pos hzero] at h
    split at h
    · cases h
    · obtain ⟨-, rfl, rfl⟩ := UnpackedFloat.finite.inj h
      subst hzero
      exact ⟨by omega, by decide, by decide, .inr rfl⟩
  · rw [if_neg hzero] at h
    obtain ⟨-, rfl, rfl⟩ := UnpackedFloat.finite.inj h
    have hpos : exponent.toNat ≠ 0 := fun h => hzero (BitVec.eq_of_toNat_eq h)
    have hlast : exponent.toNat ≠ 2047 := fun h => hones (BitVec.eq_of_toNat_eq h)
    exact ⟨by omega, by omega, by omega, .inl (by omega)⟩

/-! ## Numbers -/

/-- A number is packed from its parts. -/
theorem ofModel_pack_unpack (a : Float) : Float.ofModel (.pack a.toModel.unpack) = a :=
  a.ofBits_toBits

/-- The parts of a finite number. -/
theorem stored_of_toModel_unpack {a : Float} {s : Sign} {m : ℕ} {e : ℤ} {hm : 0 < m}
    (h : a.toModel.unpack = .finite s m e hm) : Stored m e :=
  stored_of_unpack h

/-- What is stored can be packed and unpacked. -/
lemma Stored.model_unpack_pack {m : ℕ} {e : ℤ} (h : Stored m e) (s : Sign) (hm : 0 < m) :
    (Float.Model.pack (.finite s m e hm)).unpack = .finite s m e hm :=
  h.unpack_pack s hm

lemma model_unpack_pack_zero (s : Sign) : (Float.Model.pack (.zero s)).unpack = .zero s :=
  unpack_bits s 0#11 0#52

lemma model_unpack_pack_infinity (s : Sign) :
    (Float.Model.pack (.infinity s)).unpack = .infinity s :=
  unpack_bits s (-1#11) 0#52

/-- The opposite of a number has the parts of the number but for the sign. -/
theorem neg_ofModel_pack {u : UnpackedFloat} (h : (Float.Model.pack u).unpack = u) :
    -Float.ofModel (.pack u) = Float.ofModel (.pack u.neg) := by
  show Float.ofModel (.pack (Float.Model.pack u).unpack.neg) = _
  rw [h]

/-- A number other than NaN is equal to itself. -/
lemma beq_self_of_not_isNaN {a : Float} (h : a.isNaN = false) : (a == a) = true := by
  rw [Float.isNaN_eq_decide_eq_nan, decide_eq_false_iff_not] at h
  exact Float.beq_self_iff.mpr h

end BlockLang.Number
