import Mathlib
import Stencil.Decimal.Shortest
import Stencil.Decimal.Reading

/-!
# Rounding to the nearest double

The logical model of doubles rounds by shifting a mantissa with two residual bits.  The bits keep
track of the number that is rounded, so a number in the rounding range of a double becomes that
double, whichever mantissa and exponent it is rounded from.
-/

namespace Stencil.Decimal

open Float.Model Float.Model.UnpackedFloat

/-! ## Residual bits -/

/-- The number is the mantissa and what the two bits tell of the places behind it. -/
def Represents (extended : ExtendedMantissa) (number : ℚ) : Prop :=
  match extended with
  | ⟨mantissa, false, false⟩ => number = mantissa
  | ⟨mantissa, false, true⟩ => mantissa < number ∧ number < mantissa + 1 / 2
  | ⟨mantissa, true, false⟩ => number = mantissa + 1 / 2
  | ⟨mantissa, true, true⟩ => mantissa + 1 / 2 < number ∧ number < mantissa + 1

namespace Represents

variable {extended : ExtendedMantissa} {number : ℚ}

theorem bounds (hrepresents : Represents extended number) :
    extended.mantissa ≤ number ∧ number < extended.mantissa + 1 := by
  rcases extended with ⟨mantissa, _ | _, _ | _⟩ <;> simp only [Represents] at hrepresents ⊢ <;>
    constructor <;> linarith

theorem shiftRightOne (hrepresents : Represents extended number) :
    Represents extended.shiftRightOne (number / 2) := by
  rcases extended with ⟨mantissa, round, sticky⟩
  obtain ⟨half, rfl | rfl⟩ := Nat.even_or_odd' mantissa
  · have hshift : (ExtendedMantissa.mk (2 * half) round sticky).shiftRightOne =
        ⟨half, false, round || sticky⟩ := by
      simp [ExtendedMantissa.shiftRightOne]
    rw [hshift]
    rcases round with _ | _ <;> rcases sticky with _ | _ <;>
      simp only [Represents, Bool.or_false, Bool.or_true] at hrepresents ⊢ <;>
      push_cast at hrepresents <;> first | linarith | (constructor <;> linarith)
  · have hshift : (ExtendedMantissa.mk (2 * half + 1) round sticky).shiftRightOne =
        ⟨half, true, round || sticky⟩ := by
      simp [ExtendedMantissa.shiftRightOne, Nat.mul_add_div]
    rw [hshift]
    rcases round with _ | _ <;> rcases sticky with _ | _ <;>
      simp only [Represents, Bool.or_false, Bool.or_true] at hrepresents ⊢ <;>
      push_cast at hrepresents <;> first | linarith | (constructor <;> linarith)

theorem shiftRight (hrepresents : Represents extended number) (places : Nat) :
    Represents (extended >>> places) (number / 2 ^ places) := by
  induction places with
  | zero =>
    rw [pow_zero, div_one]
    exact hrepresents
  | succ places ih =>
    rw [pow_succ, ← div_div]
    exact ih.shiftRightOne

/-- A number within half a unit of a mantissa is rounded to it; half-way numbers go to even
mantissas. -/
theorem roundedMantissa (hrepresents : Represents extended number) {mantissa : Nat}
    (hlower : mantissa - 1 / 2 ≤ number) (hupper : number ≤ mantissa + 1 / 2)
    (hties : mantissa % 2 = 1 → mantissa - 1 / 2 < number ∧ number < mantissa + 1 / 2) :
    extended.roundedMantissa = mantissa := by
  obtain ⟨hfloor, hceil⟩ := hrepresents.bounds
  have hle : extended.mantissa ≤ mantissa := by
    have : (extended.mantissa : ℚ) < mantissa + 1 := by linarith
    exact Nat.lt_succ_iff.1 (by exact_mod_cast this)
  have hge : mantissa ≤ extended.mantissa + 1 := by
    have : (mantissa : ℚ) < extended.mantissa + 2 := by linarith
    exact Nat.lt_succ_iff.1 (by exact_mod_cast this)
  rcases extended with ⟨floor, round, sticky⟩
  simp only at hle hge hfloor hceil
  obtain rfl | rfl : mantissa = floor ∨ mantissa = floor + 1 := by omega
  · rcases round with _ | _ <;> rcases sticky with _ | _ <;>
      simp only [Represents, ExtendedMantissa.roundedMantissa, ExtendedMantissa.accuracy,
        Accuracy.roundToNearestEven] at hrepresents ⊢
    · rcases Nat.mod_two_eq_zero_or_one mantissa with heven | hodd
      · omega
      · linarith [(hties hodd).2]
    · linarith
  · push_cast at hlower hties
    rcases round with _ | _ <;> rcases sticky with _ | _ <;>
      simp only [Represents, ExtendedMantissa.roundedMantissa, ExtendedMantissa.accuracy,
        Accuracy.roundToNearestEven] at hrepresents ⊢
    · linarith
    · linarith
    · rcases Nat.mod_two_eq_zero_or_one floor with heven | hodd
      · linarith [(hties (by omega)).1]
      · omega

end Represents

/-! ## The exponent that is aimed at -/

theorem targetExponent_binary64 (total : Int) :
    Format.binary64.targetExponent total = max (total - 53) (-1074) :=
  rfl

theorem represents_shiftToExponent {mantissa : Nat} {exponent target : Int} {accuracy : Accuracy}
    {number : ℚ}
    (hrepresents : Represents (.ofMantissaAndAccuracy mantissa accuracy) (number / 2 ^ exponent))
    (hle : exponent ≤ target) :
    ∃ extended, shiftToExponent mantissa exponent accuracy target = (extended, target) ∧
      Represents extended (number / 2 ^ target) := by
  obtain ⟨places, rfl⟩ := Int.le.dest hle
  refine ⟨ExtendedMantissa.ofMantissaAndAccuracy mantissa accuracy >>> places, ?_, ?_⟩
  · simp [shiftToExponent]
  · have hnumber : number / 2 ^ (exponent + (places : Int)) =
        number / 2 ^ exponent / 2 ^ places := by
      rw [zpow_add₀ (by norm_num), zpow_natCast, div_div]
    rw [hnumber]
    exact hrepresents.shiftRight places

theorem mantissa_ofMantissaAndAccuracy (mantissa : Nat) (accuracy : Accuracy) :
    (ExtendedMantissa.ofMantissaAndAccuracy mantissa accuracy).mantissa = mantissa := by
  rcases accuracy with _ | _ | _ | _ <;> rfl

/-- The total exponent of a mantissa is that of the number it stands for, unless the number is too
small for the exponent to matter. -/
theorem totalExponent_spec {mantissa : Nat} {exponent : Int} {accuracy : Accuracy} {number : ℚ}
    (hrepresents : Represents (.ofMantissaAndAccuracy mantissa accuracy) (number / 2 ^ exponent))
    (hexponent : exponent ≤ Format.binary64.targetExponent (totalExponent mantissa exponent)) :
    number < 2 ^ totalExponent mantissa exponent ∧
      (totalExponent mantissa exponent - 53 ≤ -1074 ∨
        2 ^ (totalExponent mantissa exponent - 1) ≤ number) := by
  have hunit : (0 : ℚ) < 2 ^ exponent := by positivity
  obtain ⟨hfloor, hceil⟩ := hrepresents.bounds
  rw [mantissa_ofMantissaAndAccuracy, le_div_iff₀ hunit] at hfloor
  rw [mantissa_ofMantissaAndAccuracy, div_lt_iff₀ hunit] at hceil
  have hlog : (mantissa : ℚ) + 1 ≤ 2 ^ (mantissa.log2 + 1) := by
    exact_mod_cast Nat.lt_log2_self (n := mantissa)
  constructor
  · calc number < (mantissa + 1) * 2 ^ exponent := hceil
      _ ≤ 2 ^ (mantissa.log2 + 1) * 2 ^ exponent := by gcongr
      _ = 2 ^ totalExponent mantissa exponent := by
        rw [totalExponent, zpow_add₀ (by norm_num)]
        norm_cast
  · rcases Nat.eq_zero_or_pos mantissa with rfl | hpos
    · rw [targetExponent_binary64] at hexponent
      simp only [totalExponent, Nat.log2_zero] at hexponent ⊢
      omega
    · refine .inr ?_
      have hself : (2 : ℚ) ^ mantissa.log2 ≤ mantissa := by
        exact_mod_cast Nat.log2_self_le hpos.ne'
      calc (2 : ℚ) ^ (totalExponent mantissa exponent - 1)
          = 2 ^ mantissa.log2 * 2 ^ exponent := by
            rw [← zpow_natCast, ← zpow_add₀ (by norm_num)]
            congr 1
            simp only [totalExponent]
            omega
        _ ≤ mantissa * 2 ^ exponent := by gcongr
        _ ≤ number := hfloor

/-! ## Rounding ranges -/

namespace Magnitude

/-- The exact value of the double. -/
def value (magnitude : Magnitude) : ℚ :=
  magnitude.mantissa * 2 ^ magnitude.exponent

/-- The mantissa and the exponent are those of a positive double. -/
structure IsCanonical (magnitude : Magnitude) : Prop where
  pos : 0 < magnitude.mantissa
  lt : magnitude.mantissa < 2 ^ 53
  exponent_ge : -1074 ≤ magnitude.exponent
  exponent_le : magnitude.exponent ≤ 971
  normal : 2 ^ 52 ≤ magnitude.mantissa ∨ magnitude.exponent = -1074
  narrow : magnitude.narrowBelow ↔ magnitude.mantissa = 2 ^ 52 ∧ -1074 < magnitude.exponent

/-- How far the rounding range goes down, in units of the mantissa. -/
def reachBelow (magnitude : Magnitude) : ℚ :=
  if magnitude.narrowBelow then 1 / 4 else 1 / 2

/-- The number lies in the rounding range; the ends of the range belong to even mantissas. -/
structure Covers (magnitude : Magnitude) (number : ℚ) : Prop where
  lower : magnitude.mantissa - magnitude.reachBelow ≤ number / 2 ^ magnitude.exponent
  upper : number / 2 ^ magnitude.exponent ≤ magnitude.mantissa + 1 / 2
  ties : magnitude.mantissa % 2 = 1 →
    magnitude.mantissa - magnitude.reachBelow < number / 2 ^ magnitude.exponent ∧
      number / 2 ^ magnitude.exponent < magnitude.mantissa + 1 / 2

variable {magnitude : Magnitude} {number : ℚ}

theorem reachBelow_le (magnitude : Magnitude) : magnitude.reachBelow ≤ 1 / 2 := by
  unfold reachBelow
  split <;> norm_num

/-- Where the exponent that is aimed at is not the one of the double, the number lies below a power
of two, and all the mantissas below it are twice as fine. -/
theorem targetExponent_of_covers {mantissa : Nat} {exponent : Int} {accuracy : Accuracy}
    (hcanonical : magnitude.IsCanonical) (hcovers : magnitude.Covers number)
    (hrepresents : Represents (.ofMantissaAndAccuracy mantissa accuracy) (number / 2 ^ exponent))
    (hexponent : exponent ≤ Format.binary64.targetExponent (totalExponent mantissa exponent)) :
    Format.binary64.targetExponent (totalExponent mantissa exponent) = magnitude.exponent ∨
      Format.binary64.targetExponent (totalExponent mantissa exponent) = magnitude.exponent - 1 ∧
        magnitude.narrowBelow ∧ number / 2 ^ magnitude.exponent < 2 ^ 52 := by
  obtain ⟨hlt, hge⟩ := totalExponent_spec hrepresents hexponent
  rw [targetExponent_binary64]
  generalize totalExponent mantissa exponent = total at hlt hge
  have hunit : (0 : ℚ) < 2 ^ magnitude.exponent := by positivity
  have hlower := hcovers.lower
  have hreach := magnitude.reachBelow_le
  have hmantissa : (magnitude.mantissa : ℚ) + 1 ≤ 2 ^ 53 := by exact_mod_cast hcanonical.lt
  have hexponents := hcanonical.exponent_ge
  -- A bound on the number in units of the double is one on its total exponent.
  have hbelow (places : Nat) (hbound : number / 2 ^ magnitude.exponent < 2 ^ places) :
      total - 53 ≤ -1074 ∨ total ≤ places + magnitude.exponent := by
    refine hge.imp_right fun hge => ?_
    rw [div_lt_iff₀ hunit, ← zpow_natCast, ← zpow_add₀ (by norm_num)] at hbound
    have hpower := hge.trans_lt hbound
    rw [zpow_lt_zpow_iff_right₀ (by norm_num)] at hpower
    omega
  have habove (places : Nat) (hbound : 2 ^ places ≤ number / 2 ^ magnitude.exponent) :
      places + magnitude.exponent < total := by
    rw [le_div_iff₀ hunit, ← zpow_natCast, ← zpow_add₀ (by norm_num)] at hbound
    have hpower := hbound.trans_lt hlt
    rwa [zpow_lt_zpow_iff_right₀ (by norm_num)] at hpower
  have htop := hbelow 53 (by linarith [hcovers.upper])
  by_cases hhidden : (2 : ℚ) ^ 52 ≤ number / 2 ^ magnitude.exponent
  · have hbottom := habove 52 hhidden
    refine .inl ?_
    omega
  · rw [not_le] at hhidden
    have htop := hbelow 52 hhidden
    by_cases hsmallest : magnitude.exponent = -1074
    · refine .inl ?_
      omega
    · have hlarge : (2 : ℚ) ^ 52 ≤ magnitude.mantissa := by
        exact_mod_cast hcanonical.normal.resolve_right hsmallest
      have hhalf : (2 : ℚ) ^ 51 ≤ 2 ^ 52 - 1 / 2 := by norm_num
      have hbottom := habove 51 (by linarith)
      have hpower : magnitude.mantissa = 2 ^ 52 := by
        have hnarrow : (magnitude.mantissa : ℚ) < 2 ^ 52 + 1 := by linarith
        have hle : magnitude.mantissa < 2 ^ 52 + 1 := by exact_mod_cast hnarrow
        have := hcanonical.normal.resolve_right hsmallest
        omega
      refine .inr ⟨?_, hcanonical.narrow.2 ⟨hpower, by omega⟩, hhidden⟩
      omega

theorem shiftToTargetExponent_of_canonical (hcanonical : magnitude.IsCanonical) :
    shiftToTargetExponent .binary64 magnitude.mantissa magnitude.exponent .exact =
      (⟨magnitude.mantissa, false, false⟩, magnitude.exponent) := by
  have htarget : Format.binary64.targetExponent
      (totalExponent magnitude.mantissa magnitude.exponent) = magnitude.exponent := by
    have hge := hcanonical.exponent_ge
    have hlt : magnitude.mantissa.log2 < 53 := (Nat.log2_lt hcanonical.pos.ne').2 hcanonical.lt
    rw [targetExponent_binary64, totalExponent]
    rcases hcanonical.normal with hnormal | hsmallest
    · have := (Nat.le_log2 hcanonical.pos.ne').2 hnormal
      omega
    · omega
  rw [shiftToTargetExponent, htarget]
  simp [shiftToExponent, ExtendedMantissa.ofMantissaAndAccuracy]
  rfl

/-- A mantissa that was rounded up to the next power of two is halved. -/
theorem shiftToTargetExponent_of_carry (exponent : Int) (hexponent : -1074 < exponent) :
    shiftToTargetExponent .binary64 (2 ^ 53) (exponent - 1) .exact =
      (⟨2 ^ 52, false, false⟩, exponent) := by
  have htarget : Format.binary64.targetExponent (totalExponent (2 ^ 53) (exponent - 1)) =
      exponent := by
    rw [targetExponent_binary64, totalExponent, Nat.log2_two_pow]
    omega
  have hone : (exponent - (exponent - 1)).toNat = 1 := by omega
  have hhalf : ExtendedMantissa.ofMantissaAndAccuracy (2 ^ 53) .exact >>> 1 =
      ⟨2 ^ 52, false, false⟩ := rfl
  have hnext : exponent - 1 + ((1 : Nat) : Int) = exponent := by omega
  simp only [shiftToTargetExponent, htarget, shiftToExponent, hone, hhalf, hnext]

/-- A number in the rounding range of a double is rounded to that double. -/
theorem roundWithAccuracy_of_covers {mantissa : Nat} {exponent : Int} {accuracy : Accuracy}
    (hcanonical : magnitude.IsCanonical) (hcovers : magnitude.Covers number)
    (hrepresents : Represents (.ofMantissaAndAccuracy mantissa accuracy) (number / 2 ^ exponent))
    (hexponent : exponent ≤ Format.binary64.targetExponent (totalExponent mantissa exponent)) :
    roundWithAccuracy .binary64 .positive mantissa exponent accuracy =
      .finite .positive magnitude.mantissa magnitude.exponent hcanonical.pos := by
  obtain ⟨extended, hshift, hextended⟩ := represents_shiftToExponent hrepresents hexponent
  have hreach := magnitude.reachBelow_le
  have hlower := hcovers.lower
  rcases targetExponent_of_covers hcanonical hcovers hrepresents hexponent with
    htarget | ⟨htarget, hnarrow, hbelow⟩
  · rw [htarget] at hshift hextended
    have hrounded : extended.roundedMantissa = magnitude.mantissa := by
      refine hextended.roundedMantissa (by linarith) hcovers.upper fun hodd => ?_
      obtain ⟨hlower, hupper⟩ := hcovers.ties hodd
      exact ⟨by linarith, hupper⟩
    rw [roundWithAccuracy, shiftToTargetExponent, htarget, hshift]
    simp only [hrounded, shiftToTargetExponent_of_canonical hcanonical,
      dif_neg hcanonical.pos.ne']
  · -- The mantissa is rounded up to the next power of two, which is then written with fewer places.
    obtain ⟨hpower, hexponents⟩ := hcanonical.narrow.1 hnarrow
    have hdouble : number / 2 ^ (magnitude.exponent - 1) =
        2 * (number / 2 ^ magnitude.exponent) := by
      rw [zpow_sub_one₀ (by norm_num)]
      field_simp
    rw [htarget] at hshift hextended
    rw [hdouble] at hextended
    have hhidden : (magnitude.mantissa : ℚ) = 2 ^ 52 := by exact_mod_cast hpower
    have hquarter : magnitude.reachBelow = 1 / 4 := if_pos hnarrow
    rw [hquarter, hhidden] at hlower
    have hrounded : extended.roundedMantissa = 2 ^ 53 := by
      refine hextended.roundedMantissa ?_ ?_ fun hodd => absurd hodd (by norm_num)
      · push_cast
        linarith
      · push_cast
        linarith
    have hcarry := shiftToTargetExponent_of_carry magnitude.exponent (by omega)
    rw [roundWithAccuracy, shiftToTargetExponent, htarget, hshift]
    simp only [hrounded, hcarry, hpower]
    exact dif_neg (by norm_num)

end Magnitude

end Stencil.Decimal
