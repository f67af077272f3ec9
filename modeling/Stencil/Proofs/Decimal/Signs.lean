import Stencil.Proofs.Decimal.Floats

/-!
# Numbers without a sign

A numeral that starts with a digit is read as a number whose sign bit is clear: no operation that
the rounding of a numeral goes through makes a negative double out of positive ones.
-/

namespace Stencil.Decimal

open Float.Model Float.Model.UnpackedFloat

/-- The sign bit is not set. -/
def IsUnsigned : UnpackedFloat → Prop
  | .notANumber => True
  | .infinity sign | .zero sign | .finite sign _ _ _ => sign = .positive

theorem toNat_pack_lt_of_isUnsigned {unpacked : UnpackedFloat} (hunsigned : IsUnsigned unpacked) :
    (UnpackedFloat.pack .binary64 unpacked).toNat < 2 ^ 63 := by
  have hcomponents (exponent : BitVec Format.binary64.exponentBits)
      (mantissa : BitVec Format.binary64.mantissaBitsWithoutImplicit) :
      (packComponents .binary64 .positive exponent mantissa).toNat < 2 ^ 63 := by
    have htoNat := toNat_packComponents exponent.toNat mantissa.toNat
    rw [BitVec.ofNat_toNat, BitVec.ofNat_toNat, BitVec.setWidth_eq, BitVec.setWidth_eq] at htoNat
    rw [htoNat, hiddenBit_eq]
    omega
  cases unpacked with
  | notANumber => exact hcomponents _ _
  | infinity sign | zero sign =>
    cases hunsigned
    exact hcomponents _ _
  | finite sign mantissa exponent hpos =>
    cases hunsigned
    unfold UnpackedFloat.pack
    dsimp only
    split
    · exact hcomponents _ _
    · split
      · exact hcomponents _ _
      · exact hcomponents _ _

theorem isNegative_pack {unpacked : UnpackedFloat} (hunsigned : IsUnsigned unpacked) :
    isNegative (.ofModel (.pack unpacked)) = false := by
  have hbits : (Float.ofModel (.pack unpacked)).toBits.toNat < 2 ^ 63 :=
    toNat_pack_lt_of_isUnsigned hunsigned
  rw [isNegative, beq_eq_false_iff_ne]
  intro htop
  have hshift := congrArg UInt64.toNat htop
  rw [UInt64.toNat_shiftRight, Nat.shiftRight_eq_div_pow] at hshift
  simp at hshift
  omega

/-! ## Products and quotients -/

theorem isUnsigned_roundWithAccuracy (mantissa : Nat) (exponent : Int) (accuracy : Accuracy) :
    IsUnsigned (roundWithAccuracy .binary64 .positive mantissa exponent accuracy) := by
  unfold roundWithAccuracy
  dsimp only
  split
  · rfl
  · rfl

section

variable {first second : Nat} (hfirst : 0 < first) (hsecond : 0 < second) (exponent exponent' : Int)

theorem isUnsigned_mul :
    IsUnsigned (mul .binary64 (.finite .positive first exponent hfirst)
      (.finite .positive second exponent' hsecond)) :=
  isUnsigned_roundWithAccuracy _ _ _

theorem isUnsigned_div :
    IsUnsigned (div .binary64 (.finite .positive first exponent hfirst)
      (.finite .positive second exponent' hsecond)) :=
  isUnsigned_roundWithAccuracy _ _ _

end

theorem isUnsigned_ofScientific (mantissa : Nat) (exponent : Int) :
    IsUnsigned (UnpackedFloat.ofScientific .binary64 mantissa exponent) := by
  unfold UnpackedFloat.ofScientific
  split
  · rfl
  · split
    · rfl
    · split
      · rfl
      · split
        · exact isUnsigned_mul _ _ _ _
        · exact isUnsigned_div _ _ _ _

theorem isNegative_ofScientific {mantissa : Nat} (hpos : 0 < mantissa) (isFraction : Bool)
    (places : Nat) :
    isNegative (Float.ofScientific mantissa isFraction places) = false := by
  rw [Float.ofScientific]
  split
  · next hsmall =>
    obtain ⟨first, shift, hfirst, hunpack, -⟩ := unpack_ofUInt64 hpos hsmall.1
    have hsize : places < Float.exactlyRepresentablePowersOfTen.size := Nat.lt_succ_of_le hsmall.2
    obtain ⟨second, shift', hsecond, hunpack', -⟩ := unpack_powerOfTen hsize
    cases isFraction with
    | true =>
      have hquotient := isUnsigned_div hfirst hsecond shift shift'
      rw [← hunpack, ← hunpack'] at hquotient
      exact isNegative_pack hquotient
    | false =>
      have hproduct := isUnsigned_mul hfirst hsecond shift shift'
      rw [← hunpack, ← hunpack'] at hproduct
      exact isNegative_pack hproduct
  · exact isNegative_pack (isUnsigned_ofScientific _ _)

theorem isNegative_nearestDouble (mantissa : Nat) (exponent : Int) :
    isNegative (nearestDouble mantissa exponent) = false := by
  unfold nearestDouble
  dsimp only
  split
  · decide +kernel
  · next hzero =>
    split
    · decide +kernel
    · split
      · decide +kernel
      · exact isNegative_ofScientific (Nat.pos_of_ne_zero hzero) _ _

theorem isNegative_of_readFiniteFloat {text : List Char} {value : Float}
    (hread : readFiniteFloat text = some value) : isNegative value = false := by
  unfold readFiniteFloat at hread
  dsimp only at hread
  split at hread
  all_goals
    split at hread
    · cases hread
    · obtain ⟨exponent, -, rfl⟩ := Option.map_eq_some_iff.1 hread
      exact isNegative_nearestDouble _ _

/-- A numeral that starts with a digit is not read as a negative number. -/
theorem isNegative_of_readFloat {text : String} {first : Char} {rest : List Char} {value : Float}
    (htext : text.toList = first :: rest) (hfirst : first.isDigit)
    (hread : readFloat text = .ok value) : isNegative value = false := by
  rw [readFloat_of_isDigit hfirst htext] at hread
  cases hfinite : readFiniteFloat (first :: rest) with
  | none =>
    rw [hfinite] at hread
    cases hread
  | some double =>
    rw [hfinite] at hread
    cases hread
    exact isNegative_of_readFiniteFloat hfinite

end Stencil.Decimal
