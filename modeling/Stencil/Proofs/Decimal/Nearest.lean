import Stencil.Decimal.Reading
import Stencil.Proofs.Decimal.Encoding

/-!
# The double nearest to a product or a quotient

Decimal numerals are read by multiplying or dividing a whole number by a power of ten.  Both
operations round the exact result once, so a numeral in the rounding range of a double is read as
that double.
-/

namespace Stencil.Decimal

open Float.Model Float.Model.UnpackedFloat

/-- A quotient is its whole part with what twice the remainder, compared to the denominator, tells
of the rest. -/
theorem represents_quotient (numerator : Nat) {denominator : Nat} (hpos : 0 < denominator) :
    Represents (.ofMantissaAndAccuracy (numerator / denominator)
        (accuracyOfFraction (numerator % denominator) denominator))
      (numerator / denominator : ℚ) := by
  have hden : (0 : ℚ) < denominator := by exact_mod_cast hpos
  have hsplit : (numerator / denominator : ℚ) =
      (numerator / denominator : Nat) + (numerator % denominator : Nat) / denominator := by
    rw [div_eq_iff hden.ne', add_mul, div_mul_cancel₀ _ hden.ne']
    exact_mod_cast (Nat.div_add_mod' numerator denominator).symm
  have hrest : numerator % denominator < denominator := Nat.mod_lt _ hpos
  rw [hsplit]
  generalize numerator / denominator = whole, numerator % denominator = rest at hrest ⊢
  unfold accuracyOfFraction
  split
  · next hzero => simp [ExtendedMantissa.ofMantissaAndAccuracy, Represents, hzero]
  · next hzero =>
    have hrest_pos : (0 : ℚ) < rest := by exact_mod_cast Nat.pos_of_ne_zero hzero
    have hpart : (0 : ℚ) < rest / denominator := by positivity
    have hbelow : (rest : ℚ) / denominator < 1 := by
      rw [div_lt_one hden]
      exact_mod_cast hrest
    rcases hcompare : compare (2 * rest) denominator with _ | _ | _ <;>
      simp only [ExtendedMantissa.ofMantissaAndAccuracy, Represents]
    · rw [Nat.compare_eq_lt] at hcompare
      have hdouble : (2 * rest : ℚ) < denominator := by exact_mod_cast hcompare
      have hhalf : (rest : ℚ) / denominator < 1 / 2 := by
        rw [div_lt_iff₀ hden]
        linarith
      constructor <;> linarith
    · rw [Nat.compare_eq_eq] at hcompare
      have hdouble : (2 * rest : ℚ) = denominator := by exact_mod_cast hcompare
      rw [← hdouble]
      field_simp
    · rw [Nat.compare_eq_gt] at hcompare
      have hdouble : (denominator : ℚ) < 2 * rest := by exact_mod_cast hcompare
      have hhalf : 1 / 2 < (rest : ℚ) / denominator := by
        rw [lt_div_iff₀ hden]
        linarith
      constructor <;> linarith

/-! ## Enough places -/

/-- A mantissa of at least 53 places has an exponent that need not become smaller. -/
theorem le_targetExponent {mantissa : Nat} (hplaces : 2 ^ 52 ≤ mantissa) (exponent : Int) :
    exponent ≤ Format.binary64.targetExponent (totalExponent mantissa exponent) := by
  have hlog : 52 ≤ mantissa.log2 := (Nat.le_log2 (by omega)).2 hplaces
  rw [targetExponent_binary64, totalExponent]
  omega

/-- A quotient has as many places as its dividend has more than its divisor. -/
theorem two_pow_le_shiftLeft_div {first second places : Nat} (hfirst : 0 < first)
    (hsecond : 0 < second) (hplaces : 52 + (second.log2 + 1) ≤ first.log2 + places) :
    2 ^ 52 ≤ first <<< places / second := by
  have hlog : second < 2 ^ (second.log2 + 1) := Nat.lt_log2_self
  rw [Nat.le_div_iff_mul_le hsecond, Nat.shiftLeft_eq]
  calc 2 ^ 52 * second ≤ 2 ^ 52 * 2 ^ (second.log2 + 1) := by gcongr
    _ = 2 ^ (52 + (second.log2 + 1)) := (pow_add _ _ _).symm
    _ ≤ 2 ^ (first.log2 + places) := Nat.pow_le_pow_right (by norm_num) hplaces
    _ = 2 ^ first.log2 * 2 ^ places := pow_add _ _ _
    _ ≤ first * 2 ^ places := by
      gcongr
      exact Nat.log2_self_le hfirst.ne'

/-- The quotient is taken with enough places to be rounded. -/
theorem divCore_spec {first second : Nat} (hfirst : 0 < first) (hsecond : 0 < second)
    (exponent exponent' : Int) :
    ∃ mantissa target accuracy,
      divCore .binary64 first exponent second exponent' = (mantissa, target, accuracy) ∧
      Represents (.ofMantissaAndAccuracy mantissa accuracy)
        (first * 2 ^ exponent / (second * 2 ^ exponent') / 2 ^ target) ∧
      target ≤ Format.binary64.targetExponent (totalExponent mantissa target) := by
  let target := min (exponent - exponent')
    (Format.binary64.targetExponent (totalExponent first exponent - totalExponent second exponent'))
  have hle : target ≤ exponent - exponent' := min_le_left _ _
  obtain ⟨places, hplaces⟩ := Int.le.dest hle
  have hshift : (exponent - exponent' - target).toNat = places := by omega
  refine ⟨first <<< places / second, target,
    accuracyOfFraction (first <<< places % second) second, ?_, ?_, ?_⟩
  · simp only [divCore, target] at hshift ⊢
    rw [hshift]
  · have hnumber : (first * 2 ^ exponent / (second * 2 ^ exponent') / 2 ^ target : ℚ) =
        (first <<< places : Nat) / second := by
      have hpower : (2 : ℚ) ^ exponent = 2 ^ exponent' * 2 ^ target * 2 ^ places := by
        rw [← zpow_natCast, ← zpow_add₀ (by norm_num), ← zpow_add₀ (by norm_num)]
        congr 1
        omega
      rw [Nat.shiftLeft_eq, hpower]
      push_cast
      field_simp
    rw [hnumber]
    exact represents_quotient _ hsecond
  · by_cases hsmallest : target ≤ -1074
    · rw [targetExponent_binary64]
      omega
    · refine le_targetExponent ?_ target
      have htotal : target ≤ first.log2 - second.log2 + (exponent - exponent') - 53 := by
        have hmin := min_le_right (exponent - exponent') (Format.binary64.targetExponent
          (totalExponent first exponent - totalExponent second exponent'))
        change target ≤ _ at hmin
        rw [targetExponent_binary64] at hmin
        simp only [totalExponent] at hmin
        omega
      exact two_pow_le_shiftLeft_div hfirst hsecond (by omega)

/-! ## Products and quotients in a rounding range -/

namespace Magnitude

variable {magnitude : Magnitude}

variable {first second : Nat} {exponent exponent' : Int} (hcanonical : magnitude.IsCanonical)
  (hfirst : 0 < first) (hsecond : 0 < second)

theorem mul_of_covers
    (hcovers : magnitude.Covers (first * 2 ^ exponent * (second * 2 ^ exponent')))
    (hplaces : 2 ^ 52 ≤ first * second) :
    mul .binary64 (.finite .positive first exponent hfirst)
      (.finite .positive second exponent' hsecond) = magnitude.unpacked hcanonical := by
  have hrepresents : Represents (.ofMantissaAndAccuracy (first * second) .exact)
      (first * 2 ^ exponent * (second * 2 ^ exponent') / 2 ^ (exponent + exponent') : ℚ) := by
    simp only [ExtendedMantissa.ofMantissaAndAccuracy, Represents]
    rw [zpow_add₀ (by norm_num)]
    push_cast
    field_simp
  exact roundWithAccuracy_of_covers hcanonical hcovers hrepresents (le_targetExponent hplaces _)

theorem div_of_covers
    (hcovers : magnitude.Covers (first * 2 ^ exponent / (second * 2 ^ exponent'))) :
    div .binary64 (.finite .positive first exponent hfirst)
      (.finite .positive second exponent' hsecond) = magnitude.unpacked hcanonical := by
  obtain ⟨mantissa, target, accuracy, hcore, hrepresents, htarget⟩ :=
    divCore_spec hfirst hsecond exponent exponent'
  simp only [UnpackedFloat.div, hcore]
  exact roundWithAccuracy_of_covers hcanonical hcovers hrepresents htarget

end Magnitude

/-! ## Exact doubles -/

/-- A number has the digits that its size asks for. -/
theorem exists_length_toDigits {value : Nat} (hpos : 0 < value) :
    ∃ places, (Nat.toDigits 10 value).length = places + 1 ∧ 10 ^ places ≤ value ∧
      value < 10 ^ (places + 1) := by
  have hlength : 0 < (Nat.toDigits 10 value).length := Nat.length_toDigits_pos
  obtain ⟨places, hplaces⟩ := Nat.exists_eq_add_of_lt hlength
  rw [zero_add] at hplaces
  refine ⟨places, hplaces, ?_, (Nat.length_toDigits_le_iff (by norm_num) (by omega)).1 hplaces.le⟩
  rcases Nat.eq_zero_or_pos places with rfl | hpositive
  · exact hpos
  · by_contra hlt
    have := (Nat.length_toDigits_le_iff (by norm_num) hpositive).2 (not_le.1 hlt)
    omega

theorem zpow_eq_div {base : ℚ} (hbase : base ≠ 0) (exponent : Int) :
    base ^ exponent = base ^ exponent.toNat / base ^ (-exponent).toNat := by
  rw [eq_div_iff (pow_ne_zero _ hbase), ← zpow_natCast, ← zpow_natCast, ← zpow_add₀ hbase]
  congr 1
  omega

theorem Magnitude.roundWithAccuracy_of_canonical {magnitude : Magnitude}
    (hcanonical : magnitude.IsCanonical) :
    roundWithAccuracy .binary64 .positive magnitude.mantissa magnitude.exponent .exact =
      magnitude.unpacked hcanonical := by
  have hshift := shiftToTargetExponent_of_canonical hcanonical
  have hrounded : (ExtendedMantissa.mk magnitude.mantissa false false).roundedMantissa =
      magnitude.mantissa := rfl
  simp only [roundWithAccuracy, hshift, hrounded, dif_neg hcanonical.pos.ne', unpacked]

theorem hiddenBit_le_shiftLeft {value places : Nat} (hpos : 0 < value)
    (hplaces : 52 = value.log2 + places) : hiddenBit ≤ value <<< places := by
  rw [Nat.shiftLeft_eq]
  calc hiddenBit = 2 ^ value.log2 * 2 ^ places := by rw [← pow_add, ← hplaces]; rfl
    _ ≤ value * 2 ^ places := by
      gcongr
      exact Nat.log2_self_le hpos.ne'

theorem shiftLeft_lt_hiddenBit {value places : Nat} (hplaces : 52 = value.log2 + places) :
    value <<< places < 2 * hiddenBit := by
  rw [Nat.shiftLeft_eq]
  calc value * 2 ^ places < 2 ^ (value.log2 + 1) * 2 ^ places := by
        gcongr
        exact Nat.lt_log2_self
    _ = 2 * hiddenBit := by
      rw [← pow_add, show value.log2 + 1 + places = 53 by omega]
      rfl

/-- A whole number of at most 53 places is a double, with a mantissa that uses all places. -/
theorem unpack_ofUInt64 {value : Nat} (hpos : 0 < value) (hupper : value < 2 ^ 53) :
    ∃ mantissa exponent, ∃ hmantissa : 0 < mantissa,
      value.toUInt64.toFloat.toModel.unpack = .finite .positive mantissa exponent hmantissa ∧
      2 ^ 52 ≤ mantissa ∧ (mantissa * 2 ^ exponent : ℚ) = value := by
  have hlog : value.log2 < 53 := (Nat.log2_lt hpos.ne').2 hupper
  obtain ⟨places, hplaces⟩ := Nat.exists_eq_add_of_le (Nat.le_of_lt_succ hlog)
  have htarget : Format.binary64.targetExponent (totalExponent value 0) = -places := by
    rw [targetExponent_binary64, totalExponent]
    omega
  have hshift : (0 - (-(places : Int))).toNat = places := by omega
  have hlower := hiddenBit_le_shiftLeft hpos hplaces
  have hbelow := shiftLeft_lt_hiddenBit hplaces
  have hmantissa : 0 < value <<< places := lt_of_lt_of_le (by decide) hlower
  refine ⟨value <<< places, -places, hmantissa, ?_, hlower, ?_⟩
  · let magnitude : Magnitude := ⟨value <<< places, -places,
      decide (value <<< places = 2 ^ 52 ∧ (-1074 : Int) < -places)⟩
    have hcanonical : magnitude.IsCanonical :=
      ⟨hmantissa, hbelow, by simp only [magnitude]; omega, by simp only [magnitude]; omega,
        .inl hlower, by simp [magnitude]⟩
    have hvalue : value.toUInt64.toNat = value :=
      UInt64.toNat_ofNat_of_lt' (hupper.trans (by decide))
    have hround : UnpackedFloat.ofUInt64 .binary64 value.toUInt64 =
        magnitude.unpacked hcanonical := by
      have hcompare : compare (value : Int) 0 = .gt := by
        rw [Int.compare_eq_gt]; omega
      simp only [UnpackedFloat.ofUInt64, hvalue, UnpackedFloat.ofNat, UnpackedFloat.ofInt,
        UnpackedFloat.normalize, hcompare, Int.toNat_natCast, UnpackedFloat.round, htarget,
        decreaseExponent, hshift]
      rw [← Magnitude.roundWithAccuracy_of_canonical hcanonical]
      simp only [magnitude]
      congr 1; omega
    have hunpack : (Float.Model.pack (.finite .positive _ (-places) hmantissa)).unpack = _ :=
      unpack_pack_of_normal hmantissa hlower hbelow (by omega) (by omega)
    rw [← hunpack]
    exact congrArg (fun unpacked => (Float.Model.pack unpacked).unpack) hround
  · rw [Nat.shiftLeft_eq, zpow_neg, zpow_natCast]
    push_cast
    field_simp

theorem powersOfTen_decoded : ∀ power : Fin Float.exactlyRepresentablePowersOfTen.size,
    let double := Float.exactlyRepresentablePowersOfTen[power]
    let magnitude := Magnitude.ofFloat double
    double.isFinite ∧ isNegative double = false ∧ magnitude.mantissa ≠ 0 ∧
      magnitude.mantissa * 2 ^ magnitude.exponent.toNat =
        10 ^ power.val * 2 ^ (-magnitude.exponent).toNat := by
  decide +kernel

theorem unpack_powerOfTen {power : Nat}
    (hpower : power < Float.exactlyRepresentablePowersOfTen.size) :
    ∃ mantissa exponent, ∃ hmantissa : 0 < mantissa,
      Float.exactlyRepresentablePowersOfTen[power].toModel.unpack =
        .finite .positive mantissa exponent hmantissa ∧
      (mantissa * 2 ^ exponent : ℚ) = 10 ^ power := by
  obtain ⟨hfinite, hsign, hnonzero, hscale⟩ := powersOfTen_decoded ⟨power, hpower⟩
  obtain ⟨hzero, -⟩ | ⟨hcanonical, hunpack, -⟩ := eq_zero_or_canonical hfinite hsign
  · exact absurd hzero hnonzero
  · refine ⟨_, _, hcanonical.pos, hunpack, ?_⟩
    have hcast := congrArg (Nat.cast (R := ℚ)) hscale
    push_cast at hcast
    rw [zpow_eq_div two_ne_zero, ← mul_div_assoc, div_eq_iff (by positivity)]
    exact hcast

/-! ## Decimal numerals -/

namespace Magnitude

variable {magnitude : Magnitude} {mantissa : Nat} {exponent : Int}

/-- The double of a magnitude. -/
def toFloat (magnitude : Magnitude) (hcanonical : magnitude.IsCanonical) : Float :=
  .ofModel (.pack (magnitude.unpacked hcanonical))

/-- Where both parts of a numeral are doubles, they are multiplied or divided. -/
theorem ofScientific_of_small (hcanonical : magnitude.IsCanonical) (hpos : 0 < mantissa)
    (hcovers : magnitude.Covers (mantissa * 10 ^ exponent)) (hmantissa : mantissa < 2 ^ 53)
    (hexponent : exponent.natAbs ≤ 22) :
    Float.ofScientific mantissa (decide (exponent < 0)) exponent.natAbs =
      magnitude.toFloat hcanonical := by
  obtain ⟨first, shift, hfirst, hunpack, hplaces, hvalue⟩ := unpack_ofUInt64 hpos hmantissa
  have hsize : exponent.natAbs < Float.exactlyRepresentablePowersOfTen.size :=
    Nat.lt_succ_of_le hexponent
  obtain ⟨second, shift', hsecond, hunpack', hvalue'⟩ := unpack_powerOfTen hsize
  rw [Float.ofScientific, dif_pos ⟨hmantissa, hexponent⟩]
  by_cases hneg : exponent < 0
  · have hnumber : (mantissa * 10 ^ exponent : ℚ) = first * 2 ^ shift / (second * 2 ^ shift') := by
      rw [hvalue, hvalue', div_eq_mul_inv, ← zpow_natCast, ← zpow_neg]
      congr 2
      omega
    rw [hnumber] at hcovers
    have hdiv := div_of_covers hcanonical hfirst hsecond hcovers
    rw [← hunpack, ← hunpack'] at hdiv
    rw [decide_eq_true hneg]
    exact congrArg (fun unpacked => Float.ofModel (.pack unpacked)) hdiv
  · have hnumber : (mantissa * 10 ^ exponent : ℚ) = first * 2 ^ shift * (second * 2 ^ shift') := by
      rw [hvalue, hvalue', ← zpow_natCast]
      congr 2
      omega
    rw [hnumber] at hcovers
    have hmul := mul_of_covers hcanonical hfirst hsecond hcovers
      (hplaces.trans (Nat.le_mul_of_pos_right _ hsecond))
    rw [← hunpack, ← hunpack'] at hmul
    rw [decide_eq_false hneg]
    exact congrArg (fun unpacked => Float.ofModel (.pack unpacked)) hmul

/-- Otherwise the logical model of doubles multiplies or divides whole numbers. -/
theorem model_ofScientific (hcanonical : magnitude.IsCanonical) (hpos : 0 < mantissa)
    (hcovers : magnitude.Covers (mantissa * 10 ^ exponent)) (hlarge : exponent ≤ 2048)
    (hsmall : -(2048 + mantissa.log2 : Int) ≤ exponent) :
    UnpackedFloat.ofScientific .binary64 mantissa exponent = magnitude.unpacked hcanonical := by
  have hlimit : ¬ exponent > 2 ^ Format.binary64.exponentBits := by
    change ¬ exponent > 2048
    omega
  have hlimit' : ¬ exponent < -((2 ^ Format.binary64.exponentBits : Int) + mantissa.log2) := by
    change ¬ exponent < -(2048 + (mantissa.log2 : Int))
    omega
  rw [UnpackedFloat.ofScientific, dif_neg hpos.ne', if_neg hlimit, if_neg hlimit']
  split
  · next hnonneg =>
    obtain ⟨power, rfl⟩ := Int.eq_ofNat_of_zero_le hnonneg
    refine mul_of_covers hcanonical _ _ ?_ ?_
    · have hnumber : (mantissa * 10 ^ ((power : Nat) : Int) : ℚ) =
          (mantissa <<< Format.binary64.mantissaBits : Nat) *
            2 ^ (-(Format.binary64.mantissaBits : Int)) *
            ((10 ^ ((power : Nat) : Int).toNat : Nat) * 2 ^ (0 : Int)) := by
        rw [Nat.shiftLeft_eq, Int.toNat_natCast, zpow_neg, zpow_natCast, zpow_natCast]
        push_cast
        field_simp
      rwa [← hnumber]
    · rw [Nat.shiftLeft_eq, mul_assoc]
      calc 2 ^ 52 ≤ 2 ^ Format.binary64.mantissaBits := by decide
        _ ≤ 2 ^ Format.binary64.mantissaBits * 10 ^ ((power : Nat) : Int).toNat :=
          Nat.le_mul_of_pos_right _ (by positivity)
        _ ≤ _ := Nat.le_mul_of_pos_left _ hpos
  · next hneg =>
    refine div_of_covers hcanonical _ _ ?_
    have hnumber : (mantissa * 10 ^ exponent : ℚ) =
        mantissa * 2 ^ (0 : Int) / ((10 ^ (-exponent).toNat : Nat) * 2 ^ (0 : Int)) := by
      push_cast
      rw [mul_one, mul_one, div_eq_mul_inv, ← zpow_natCast, ← zpow_neg]
      congr 2
      omega
    rwa [← hnumber]

theorem ofScientific_of_covers (hcanonical : magnitude.IsCanonical) (hpos : 0 < mantissa)
    (hcovers : magnitude.Covers (mantissa * 10 ^ exponent)) (hlarge : exponent ≤ 2048)
    (hsmall : -(2048 + mantissa.log2 : Int) ≤ exponent) :
    Float.ofScientific mantissa (decide (exponent < 0)) exponent.natAbs =
      magnitude.toFloat hcanonical := by
  by_cases hfast : mantissa < 2 ^ 53 ∧ exponent.natAbs ≤ 22
  · exact ofScientific_of_small hcanonical hpos hcovers hfast.1 hfast.2
  · have hsigned : (if decide (exponent < 0) = true then Int.negOfNat exponent.natAbs
        else Int.ofNat exponent.natAbs) = exponent := by
      split
      · next hneg =>
        rw [decide_eq_true_eq] at hneg
        rw [Int.negOfNat_eq, Int.ofNat_eq_natCast]
        omega
      · next hneg =>
        rw [decide_eq_true_eq] at hneg
        rw [Int.ofNat_eq_natCast]
        omega
    rw [Float.ofScientific, dif_neg hfast]
    simp only [hsigned]
    exact congrArg (fun unpacked => Float.ofModel (.pack unpacked))
      (model_ofScientific hcanonical hpos hcovers hlarge hsmall)

/-! ## Numerals within the range of doubles -/

theorem Covers.lt (hcanonical : magnitude.IsCanonical) {number : ℚ}
    (hcovers : magnitude.Covers number) : number < 10 ^ (309 : Int) := by
  have hunit : (0 : ℚ) < 2 ^ magnitude.exponent := by positivity
  have hmantissa : (magnitude.mantissa : ℚ) + 1 ≤ 2 ^ 53 := by exact_mod_cast hcanonical.lt
  have hupper := hcovers.upper
  rw [div_le_iff₀ hunit] at hupper
  calc number ≤ (magnitude.mantissa + 1 / 2) * 2 ^ magnitude.exponent := hupper
    _ ≤ 2 ^ 53 * 2 ^ (971 : Int) := by
      gcongr
      · linarith
      · norm_num
      · exact hcanonical.exponent_le
    _ < 10 ^ (309 : Int) := by
      have hlarge : 2 ^ 53 * 2 ^ 971 < 10 ^ 309 := by decide +kernel
      exact_mod_cast hlarge

theorem Covers.gt (hcanonical : magnitude.IsCanonical) {number : ℚ}
    (hcovers : magnitude.Covers number) : 10 ^ (-324 : Int) < number := by
  have hunit : (0 : ℚ) < 2 ^ magnitude.exponent := by positivity
  have hmantissa : (1 : ℚ) ≤ magnitude.mantissa := by exact_mod_cast hcanonical.pos
  have hreach := magnitude.reachBelow_le
  have hlower := hcovers.lower
  rw [le_div_iff₀ hunit] at hlower
  calc (10 : ℚ) ^ (-324 : Int) < 1 / 2 * 2 ^ (-1074 : Int) := by
        have hsmall : 2 * 2 ^ 1074 < 10 ^ 324 := by decide +kernel
        rw [zpow_neg, zpow_neg, one_div, ← mul_inv, inv_lt_inv₀ (by positivity) (by positivity)]
        exact_mod_cast hsmall
    _ ≤ (magnitude.mantissa - magnitude.reachBelow) * 2 ^ magnitude.exponent := by
      gcongr
      · linarith
      · linarith
      · norm_num
      · exact hcanonical.exponent_ge
    _ ≤ number := hlower

theorem nearestDouble_of_covers (hcanonical : magnitude.IsCanonical) (hpos : 0 < mantissa)
    (hcovers : magnitude.Covers (mantissa * 10 ^ exponent)) :
    nearestDouble mantissa exponent = magnitude.toFloat hcanonical := by
  obtain ⟨places, hlength, hlower, hupper⟩ := exists_length_toDigits hpos
  have hten : (1 : ℚ) < 10 := by norm_num
  have hlarge : (places : Int) + exponent < 309 := by
    rw [← zpow_lt_zpow_iff_right₀ hten]
    calc (10 : ℚ) ^ ((places : Int) + exponent) = 10 ^ places * 10 ^ exponent := by
          rw [zpow_add₀ (by norm_num), zpow_natCast]
      _ ≤ mantissa * 10 ^ exponent := by
        gcongr
        exact_mod_cast hlower
      _ < 10 ^ (309 : Int) := hcovers.lt hcanonical
  have hsmall : (-324 : Int) < ((places + 1 : Nat) : Int) + exponent := by
    rw [← zpow_lt_zpow_iff_right₀ hten]
    calc (10 : ℚ) ^ (-324 : Int) < mantissa * 10 ^ exponent := hcovers.gt hcanonical
      _ ≤ 10 ^ (places + 1) * 10 ^ exponent := by
        gcongr
        exact_mod_cast hupper.le
      _ = _ := by rw [zpow_add₀ (by norm_num), zpow_natCast]
  have hplaces : places ≤ mantissa.log2 := by
    have hten : 10 ^ places < 10 ^ (mantissa.log2 + 1) :=
      calc 10 ^ places ≤ mantissa := hlower
        _ < 2 ^ (mantissa.log2 + 1) := Nat.lt_log2_self
        _ ≤ 10 ^ (mantissa.log2 + 1) := Nat.pow_le_pow_left (by norm_num) _
    exact Nat.le_of_lt_succ ((Nat.pow_lt_pow_iff_right (by norm_num)).1 hten)
  simp only [nearestDouble, hlength]
  rw [if_neg hpos.ne', if_neg (by omega), if_neg (by omega)]
  exact ofScientific_of_covers hcanonical hpos hcovers (by omega) (by omega)

end Magnitude

end Stencil.Decimal
