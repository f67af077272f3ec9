import Stencil.Decimal.Binary
import Stencil.Proofs.Decimal.Rounding

/-!
# The bits of a positive double

Decoding the fields of a double and packing what they stand for are inverse to each other, for all
finite doubles whose sign bit is clear.
-/

namespace Stencil.Decimal

open Float.Model Float.Model.UnpackedFloat

theorem hiddenBit_eq : hiddenBit = 4503599627370496 := by decide

namespace Magnitude

/-- The double of a magnitude as the logical model of doubles writes it. -/
def unpacked (magnitude : Magnitude) (hcanonical : magnitude.IsCanonical) : UnpackedFloat :=
  .finite .positive magnitude.mantissa magnitude.exponent hcanonical.pos

end Magnitude

theorem biased_mod {bits : Nat} (hsign : bits < 2 ^ 63) :
    bits / hiddenBit % 2048 = bits / hiddenBit := by
  rw [hiddenBit_eq]
  omega

namespace Magnitude

/-- Without an exponent the digits are the bits of the fraction, at the least exponent. -/
theorem ofBits_of_subnormal {bits : Nat} (hzero : bits / hiddenBit = 0) :
    ofBits bits = ⟨bits % hiddenBit, -1074, false⟩ := by
  simp only [ofBits, hzero, Nat.zero_mod, if_true]

/-- With an exponent the fraction has a digit more, which is not among the bits. -/
theorem ofBits_of_normal {bits : Nat} (hsign : bits < 2 ^ 63) (hnonzero : bits / hiddenBit ≠ 0) :
    ofBits bits = ⟨hiddenBit + bits % hiddenBit, (bits / hiddenBit : Nat) - 1075,
      bits % hiddenBit == 0 && decide (1 < bits / hiddenBit)⟩ := by
  simp only [ofBits, biased_mod hsign, hnonzero, if_false]

end Magnitude

/-! ## Unpacking -/

section

variable {bits : BitVec Format.binary64.numBits}

theorem toNat_unpackMantissa : (unpackMantissa bits).toNat = bits.toNat % hiddenBit := by
  simp [unpackMantissa, hiddenBit]

theorem toNat_unpackExponent : (unpackExponent bits).toNat = bits.toNat / hiddenBit % 2048 := by
  simp [unpackExponent, hiddenBit, Nat.shiftRight_eq_div_pow]

theorem unpackSign_of_lt (hsign : bits.toNat < 2 ^ 63) : unpackSign bits = 0#1 := by
  rw [← BitVec.toNat_inj]
  simp only [unpackSign, BitVec.toNat_cast, BitVec.extractLsb_toNat, Nat.shiftRight_eq_div_pow]
  change bits.toNat / 2 ^ 63 % 2 = 0
  omega

theorem toNat_implicitBit_append :
    (1#1 ++ unpackMantissa bits).toNat = hiddenBit + bits.toNat % hiddenBit := by
  rw [BitVec.toNat_append, toNat_unpackMantissa, Nat.shiftLeft_eq]
  change 1 * 2 ^ 52 ||| bits.toNat % 2 ^ 52 = 2 ^ 52 + bits.toNat % 2 ^ 52
  rw [one_mul, Nat.or_comm, Nat.or_two_pow_eq_add_of_lt (Nat.mod_lt _ (by positivity)), add_comm]

/-- Bits without a sign and with an exponent that is not all ones stand for their magnitude. -/
theorem unpack_of_lt (hsign : bits.toNat < 2 ^ 63) (hexponent : bits.toNat / hiddenBit ≠ 2047) :
    (bits.toNat = 0 ∧ UnpackedFloat.unpack .binary64 bits = .zero .positive) ∨
      ∃ hpos, UnpackedFloat.unpack .binary64 bits =
        .finite .positive (Magnitude.ofBits bits.toNat).mantissa
          (Magnitude.ofBits bits.toNat).exponent hpos := by
  have hbiased := biased_mod hsign
  have hones : unpackExponent bits ≠ -1#_ := by
    intro hones
    have hvalue := congrArg BitVec.toNat hones
    rw [toNat_unpackExponent, hbiased] at hvalue
    exact hexponent hvalue
  have hsubnormal : unpackExponent bits = 0#_ ↔ bits.toNat / hiddenBit = 0 := by
    rw [← BitVec.toNat_inj, toNat_unpackExponent, hbiased]
    rfl
  have hzero : unpackMantissa bits = 0#_ ↔ bits.toNat % hiddenBit = 0 := by
    rw [← BitVec.toNat_inj, toNat_unpackMantissa]
    rfl
  have hpositive : Sign.ofBitVec 0#1 = .positive := rfl
  simp only [UnpackedFloat.unpack, hones, if_false, unpackSign_of_lt hsign, hpositive, hsubnormal,
    hzero]
  by_cases hsmall : bits.toNat / hiddenBit = 0
  · rw [Magnitude.ofBits_of_subnormal hsmall]
    by_cases hfraction : bits.toNat % hiddenBit = 0
    · refine .inl ⟨?_, by simp [hsmall, hfraction]⟩
      rw [← Nat.div_add_mod bits.toNat hiddenBit, hsmall, hfraction, mul_zero]
    · refine .inr ⟨Nat.pos_of_ne_zero hfraction, ?_⟩
      simp only [hsmall, hfraction, if_true, dif_neg, not_false_eq_true, toNat_unpackExponent,
        toNat_unpackMantissa]
      congr
  · rw [Magnitude.ofBits_of_normal hsign hsmall]
    refine .inr ⟨Nat.add_pos_left (by decide) _, ?_⟩
    simp only [hsmall, if_false, toNat_unpackExponent, hbiased]
    congr
    exact toNat_implicitBit_append

end

/-! ## Packing -/

/-- The components of a double stand next to each other in its bits. -/
theorem toNat_packComponents (biased fraction : Nat) :
    (packComponents .binary64 .positive (BitVec.ofNat _ biased) (BitVec.ofNat _ fraction)).toNat =
      biased % 2048 * hiddenBit + fraction % hiddenBit := by
  have hfraction : fraction % hiddenBit < 2 ^ 52 := Nat.mod_lt _ (by decide)
  rw [packComponents, BitVec.toNat_append, BitVec.toNat_append, BitVec.toNat_ofNat,
    BitVec.toNat_ofNat]
  change ((0 <<< 11) ||| biased % 2048) <<< 52 ||| fraction % hiddenBit = _
  rw [Nat.zero_shiftLeft, Nat.zero_or, ← Nat.shiftLeft_add_eq_or_of_lt hfraction,
    Nat.shiftLeft_eq]
  rfl

/-- What is packed are the digits but the first one, and the exponent as it is stored. -/
theorem toNat_pack_of_normal {mantissa : Nat} {exponent : Int} (hpos : 0 < mantissa)
    (hlower : hiddenBit ≤ mantissa) (hupper : mantissa < 2 * hiddenBit)
    (hsmallest : -1074 ≤ exponent) (hlargest : exponent ≤ 971) :
    (UnpackedFloat.pack .binary64 (.finite .positive mantissa exponent hpos)).toNat =
      (exponent + 1075).toNat * hiddenBit + (mantissa - hiddenBit) := by
  have hlog : mantissa.log2 = 52 := (Nat.log2_eq_iff hpos.ne').2 ⟨hlower, hupper⟩
  have hbiased : (exponent + (Format.binary64.exponentBias : Int) +
      (Format.binary64.mantissaBitsWithoutImplicit : Int)).toNat = (exponent + 1075).toNat := by
    congr 1
    change exponent + 1023 + 52 = _
    omega
  have hfinite : ¬ 2 ^ Format.binary64.exponentBits ≤ (exponent + 1075).toNat + 1 := by
    change ¬ 2048 ≤ _
    omega
  have hplaces : 52 + 1 = Format.binary64.mantissaBits := rfl
  simp only [UnpackedFloat.pack, hlog, hbiased, if_neg hfinite, if_pos hplaces]
  rw [toNat_packComponents, Nat.mod_eq_of_lt (by omega)]
  rw [hiddenBit_eq] at hlower hupper ⊢
  omega

theorem toNat_pack_of_subnormal {mantissa : Nat} (hpos : 0 < mantissa)
    (hupper : mantissa < hiddenBit) :
    (UnpackedFloat.pack .binary64 (.finite .positive mantissa (-1074) hpos)).toNat = mantissa := by
  have hlog : mantissa.log2 < 52 := (Nat.log2_lt hpos.ne').2 hupper
  have hplaces : mantissa.log2 + 1 ≠ Format.binary64.mantissaBits := by
    change _ ≠ 53
    omega
  have hcomponents := toNat_packComponents 0 mantissa
  rw [Nat.mod_eq_of_lt hupper, Nat.zero_mod, zero_mul, zero_add] at hcomponents
  simp only [UnpackedFloat.pack, if_neg hplaces]
  rw [if_neg (by decide)]
  exact hcomponents

/-- Packing loses nothing of a float that fits. -/
theorem unpack_pack_of_normal {mantissa : Nat} {exponent : Int} (hpos : 0 < mantissa)
    (hlower : hiddenBit ≤ mantissa) (hupper : mantissa < 2 * hiddenBit)
    (hsmallest : -1074 ≤ exponent) (hlargest : exponent ≤ 971) :
    (Float.Model.pack (.finite .positive mantissa exponent hpos)).unpack =
      .finite .positive mantissa exponent hpos := by
  have hpack := toNat_pack_of_normal hpos hlower hupper hsmallest hlargest
  change UnpackedFloat.unpack .binary64 (UnpackedFloat.pack .binary64 _) = _
  generalize UnpackedFloat.pack .binary64 (.finite .positive mantissa exponent hpos) = bits at hpack
  have hbiased : bits.toNat / hiddenBit = (exponent + 1075).toNat := by
    rw [hpack, hiddenBit_eq] at *
    omega
  have hfraction : bits.toNat % hiddenBit = mantissa - hiddenBit := by
    rw [hpack, hiddenBit_eq] at *
    omega
  have hlt : bits.toNat < 2 ^ 63 := by
    rw [hiddenBit_eq] at *
    omega
  have hmagnitude := Magnitude.ofBits_of_normal hlt (by rw [hbiased]; omega)
  rcases unpack_of_lt hlt (by rw [hbiased]; omega) with ⟨hzero, -⟩ | ⟨_, hunpack⟩
  · rw [hzero, Nat.zero_div] at hbiased
    omega
  · rw [hunpack]
    congr
    · rw [hmagnitude, hfraction]
      exact Nat.add_sub_of_le hlower
    · rw [hmagnitude, hbiased]
      simp only
      omega

/-! ## Doubles and their magnitudes -/

namespace Magnitude

variable {bits : Nat}

theorem isCanonical_ofBits (hsign : bits < 2 ^ 63) (hexponent : bits / hiddenBit ≠ 2047)
    (hpos : 0 < (ofBits bits).mantissa) : (ofBits bits).IsCanonical := by
  have hfraction : bits % hiddenBit < hiddenBit := Nat.mod_lt _ (by decide)
  have hrange : bits / hiddenBit < 2048 := by
    rw [hiddenBit_eq]
    omega
  by_cases hzero : bits / hiddenBit = 0
  · rw [ofBits_of_subnormal hzero] at hpos ⊢
    rw [hiddenBit_eq] at *
    exact ⟨hpos, by simp only; omega, by simp, by simp, .inr rfl, by simp⟩
  · rw [ofBits_of_normal hsign hzero]
    rw [hiddenBit_eq] at *
    refine ⟨by simp, by simp only; omega, by simp only; omega, by simp only; omega,
      .inl (by simp only; omega), ?_⟩
    simp only [Bool.and_eq_true, beq_iff_eq, decide_eq_true_eq]
    omega

/-- Bits that are unpacked and packed again are the same. -/
theorem toNat_pack_ofBits (hsign : bits < 2 ^ 63) (hcanonical : (ofBits bits).IsCanonical) :
    (UnpackedFloat.pack .binary64 ((ofBits bits).unpacked hcanonical)).toNat = bits := by
  have hfraction : bits % hiddenBit < hiddenBit := Nat.mod_lt _ (by decide)
  have hsplit := Nat.div_add_mod' bits hiddenBit
  generalize hmagnitude : ofBits bits = magnitude at hcanonical ⊢
  by_cases hzero : bits / hiddenBit = 0
  · rw [ofBits_of_subnormal hzero] at hmagnitude
    subst hmagnitude
    have hpack := toNat_pack_of_subnormal hcanonical.pos hfraction
    rw [hzero, zero_mul, zero_add] at hsplit
    exact hpack.trans hsplit
  · rw [ofBits_of_normal hsign hzero] at hmagnitude
    subst hmagnitude
    have hpack := toNat_pack_of_normal hcanonical.pos (Nat.le_add_right _ _)
      (by rw [two_mul]; exact Nat.add_lt_add_left hfraction _)
      hcanonical.exponent_ge hcanonical.exponent_le
    rw [Int.sub_add_cancel, Int.toNat_natCast, Nat.add_sub_cancel_left] at hpack
    exact hpack.trans hsplit

end Magnitude

section

variable {value : Float}

theorem toNat_toBits_lt (hsign : isNegative value = false) : value.toBits.toNat < 2 ^ 63 := by
  have hshift : value.toBits >>> 63 ≠ 1 := by simpa [isNegative] using hsign
  have htop : (value.toBits >>> 63).toNat ≠ 1 := fun htop => hshift (UInt64.toNat_inj.1 htop)
  have hlt := value.toBits.toNat_lt
  rw [UInt64.toNat_shiftRight, Nat.shiftRight_eq_div_pow] at htop
  simp at htop
  omega

theorem biased_ne_of_isFinite (hfinite : value.isFinite) :
    value.toBits.toNat / hiddenBit ≠ 2047 := by
  intro hones
  have hexponent : @unpackExponent .binary64 value.toBits.toBitVec = -1#_ := by
    rw [← BitVec.toNat_inj, toNat_unpackExponent]
    change value.toBits.toNat / hiddenBit % 2048 = 2047
    rw [hones]
  have hspecial : (UnpackedFloat.unpack .binary64 value.toBits.toBitVec).isFinite = false := by
    simp only [UnpackedFloat.unpack, hexponent, if_true]
    split <;> rfl
  exact absurd (hfinite.symm.trans hspecial) (by decide)

/-- Doubles are told apart by their bits. -/
theorem eq_of_toBits_eq {left right : Float} (hbits : left.toBits = right.toBits) :
    left = right := by
  obtain ⟨⟨bits, _⟩⟩ := left
  obtain ⟨⟨bits', _⟩⟩ := right
  cases hbits
  rfl

/-- A finite double without a sign is zero or the double of its magnitude. -/
theorem eq_zero_or_canonical (hfinite : value.isFinite) (hsign : isNegative value = false) :
    ((Magnitude.ofFloat value).mantissa = 0 ∧ value = 0) ∨
      ∃ hcanonical : (Magnitude.ofFloat value).IsCanonical,
        value.toModel.unpack = (Magnitude.ofFloat value).unpacked hcanonical ∧
        value = .ofModel (.pack ((Magnitude.ofFloat value).unpacked hcanonical)) := by
  have hlt := toNat_toBits_lt hsign
  have hexponent := biased_ne_of_isFinite hfinite
  rcases @unpack_of_lt value.toBits.toBitVec hlt hexponent with
    ⟨hzero, -⟩ | ⟨hpos, hunpack⟩
  · have hbits : value.toBits = 0 := UInt64.toNat_inj.1 hzero
    refine .inl ⟨?_, eq_of_toBits_eq hbits⟩
    rw [Magnitude.ofFloat, hbits]
    rfl
  · have hcanonical := Magnitude.isCanonical_ofBits hlt hexponent hpos
    refine .inr ⟨hcanonical, hunpack, eq_of_toBits_eq (UInt64.toNat_inj.1 ?_)⟩
    exact (Magnitude.toNat_pack_ofBits hlt hcanonical).symm

end

end Stencil.Decimal
