import Stencil.Decimal.Shortest
import Stencil.Proofs.Decimal.Nearest

/-!
# The shortest numeral lies in the rounding range

Seventeen digits are enough to tell every double from its neighbours: on that grid one of the two
points next to the exact value lies in the rounding range.  The search for a shorter numeral
therefore ends with a numeral that reads back.
-/

namespace Stencil.Decimal

/-! ## Exact ratios -/

namespace Ratio

def value (ratio : Ratio) : ℚ :=
  ratio.numerator / ratio.denominator

theorem value_scaled (mantissa : Nat) (exponent : Int) :
    (scaled mantissa exponent).value = mantissa * 2 ^ exponent := by
  rw [zpow_eq_div two_ne_zero, ← mul_div_assoc]
  simp [value, scaled]

theorem denominator_scaled_pos (mantissa : Nat) (exponent : Int) :
    0 < (scaled mantissa exponent).denominator :=
  Nat.pow_pos (by norm_num)

variable {ratio : Ratio}

theorem decimalOrder_spec (hnum : 0 < ratio.numerator) (hden : 0 < ratio.denominator) :
    (10 : ℚ) ^ (ratio.decimalOrder - 1) ≤ ratio.value ∧
      ratio.value < 10 ^ ratio.decimalOrder := by
  have hnum' : (0 : ℚ) < ratio.numerator := by exact_mod_cast hnum
  have hden' : (0 : ℚ) < ratio.denominator := by exact_mod_cast hden
  unfold decimalOrder value
  split
  · next hlarge =>
    obtain ⟨places, hlength, hlower, hupper⟩ := exists_length_toDigits (Nat.div_pos hlarge hden)
    rw [Nat.le_div_iff_mul_le hden] at hlower
    rw [Nat.div_lt_iff_lt_mul hden] at hupper
    rw [hlength, Nat.cast_succ, add_sub_cancel_right, le_div_iff₀ hden', div_lt_iff₀ hden']
    exact_mod_cast And.intro hlower hupper
  · next hsmall =>
    rw [not_le] at hsmall
    obtain ⟨places, hlength, hlower, hupper⟩ :=
      exists_length_toDigits (Nat.div_pos (Nat.le_sub_one_of_lt hsmall) hnum)
    rw [Nat.le_div_iff_mul_le hnum] at hlower
    rw [Nat.div_lt_iff_lt_mul hnum] at hupper
    have hbelow : 10 ^ places * ratio.numerator < ratio.denominator := by omega
    have habove : ratio.denominator ≤ 10 ^ (places + 1) * ratio.numerator := by omega
    have horder : 1 - ((places + 1 : Nat) : Int) = -(places : Int) := by omega
    have horder' : -(places : Int) - 1 = -((places + 1 : Nat) : Int) := by omega
    rw [hlength, horder, horder', zpow_neg, zpow_neg, zpow_natCast, zpow_natCast,
      le_div_iff₀ hden', div_lt_iff₀ hden', inv_mul_le_iff₀ (by positivity),
      lt_inv_mul_iff₀ (by positivity)]
    exact_mod_cast And.intro habove hbelow

/-- The floor on a decimal grid. -/
theorem floorTo_spec (hden : 0 < ratio.denominator) (exponent : Int) :
    ratio.floorTo exponent * 10 ^ exponent ≤ ratio.value ∧
      ratio.value < (ratio.floorTo exponent + 1) * 10 ^ exponent := by
  let top : Nat := ratio.numerator * 10 ^ (-exponent).toNat
  let bottom : Nat := ratio.denominator * 10 ^ exponent.toNat
  have hbottom : 0 < bottom := Nat.mul_pos hden (by positivity)
  have hbottom' : (0 : ℚ) < bottom := by exact_mod_cast hbottom
  have hfloor : ratio.floorTo exponent = top / bottom := rfl
  have hden' : (0 : ℚ) < ratio.denominator := by exact_mod_cast hden
  have hvalue : ratio.value = top / bottom * 10 ^ exponent := by
    rw [zpow_eq_div (by norm_num : (10 : ℚ) ≠ 0), value]
    simp only [top, bottom]
    push_cast
    field_simp
  have hpower : (0 : ℚ) < 10 ^ exponent := by positivity
  rw [hvalue, hfloor]
  constructor
  · gcongr
    exact Nat.cast_div_le
  · gcongr
    rw [div_lt_iff₀ hbottom']
    have hlt := Nat.lt_mul_div_succ top hbottom
    rw [mul_comm]
    exact_mod_cast hlt

end Ratio

/-! ## Rounding ranges in whole numbers -/

namespace Numeral

def value (numeral : Numeral) : ℚ :=
  numeral.digits * 10 ^ numeral.exponent

/-- Both numbers are brought to a common denominator. -/
theorem against_spec (numeral : Numeral) (unit : Int) (multiple : Nat) :
    ∃ scale : ℚ, 0 < scale ∧ ((numeral.against unit multiple).1 : ℚ) = numeral.value * scale ∧
      ((numeral.against unit multiple).2 : ℚ) = multiple * 2 ^ unit * scale := by
  refine ⟨2 ^ (-unit).toNat * 10 ^ (-numeral.exponent).toNat, by positivity, ?_, ?_⟩
  · rw [value, zpow_eq_div (by norm_num : (10 : ℚ) ≠ 0)]
    simp only [against, Nat.pow_eq]
    push_cast
    field_simp
  · rw [zpow_eq_div two_ne_zero]
    simp only [against, Nat.pow_eq]
    push_cast
    field_simp

theorem against_le_iff (numeral : Numeral) (unit : Int) (multiple : Nat) :
    (numeral.against unit multiple).1 ≤ (numeral.against unit multiple).2 ↔
      numeral.value ≤ multiple * 2 ^ unit := by
  obtain ⟨scale, hscale, hfirst, hsecond⟩ := numeral.against_spec unit multiple
  rw [← Nat.cast_le (α := ℚ), hfirst, hsecond, mul_le_mul_iff_left₀ hscale]

theorem le_against_iff (numeral : Numeral) (unit : Int) (multiple : Nat) :
    (numeral.against unit multiple).2 ≤ (numeral.against unit multiple).1 ↔
      multiple * 2 ^ unit ≤ numeral.value := by
  obtain ⟨scale, hscale, hfirst, hsecond⟩ := numeral.against_spec unit multiple
  rw [← Nat.cast_le (α := ℚ), hfirst, hsecond, mul_le_mul_iff_left₀ hscale]

theorem value_reduced (numeral : Numeral) (rounds : Nat) :
    (numeral.reduced rounds).value = numeral.value := by
  induction rounds generalizing numeral with
  | zero => rfl
  | succ rounds ih =>
    rw [reduced]
    split
    · next hzero =>
      rw [ih]
      have hdigits : (numeral.digits : ℚ) = (numeral.digits / 10 : Nat) * 10 := by
        exact_mod_cast (Nat.div_mul_cancel (Nat.dvd_of_mod_eq_zero hzero)).symm
      simp only [value]
      rw [hdigits, zpow_add_one₀ (by norm_num)]
      ring
    · rfl

end Numeral

namespace Magnitude

variable {magnitude : Magnitude}

/-- The bounds of the range are counted in quarters of the unit. -/
theorem range_lower_eq (hcanonical : magnitude.IsCanonical) :
    ((magnitude.range.lower : Nat) : ℚ) * 2 ^ magnitude.range.unit =
      (magnitude.mantissa - magnitude.reachBelow) * 2 ^ magnitude.exponent := by
  have hpos := hcanonical.pos
  simp only [range, reachBelow, zpow_sub₀ (two_ne_zero (α := ℚ))]
  split
  · rw [Nat.cast_sub (by omega)]
    push_cast
    ring
  · rw [Nat.cast_sub (by omega)]
    push_cast
    ring

theorem range_upper_eq (magnitude : Magnitude) :
    ((magnitude.range.upper : Nat) : ℚ) * 2 ^ magnitude.range.unit =
      (magnitude.mantissa + 1 / 2) * 2 ^ magnitude.exponent := by
  simp only [range, zpow_sub₀ (two_ne_zero (α := ℚ))]
  push_cast
  ring

theorem contains_range_iff (hcanonical : magnitude.IsCanonical) (numeral : Numeral) :
    magnitude.range.contains numeral ↔ magnitude.Covers numeral.value := by
  have hunit : (0 : ℚ) < 2 ^ magnitude.exponent := by positivity
  have hle : (numeral.against magnitude.range.unit magnitude.range.lower).2 ≤
      (numeral.against magnitude.range.unit magnitude.range.lower).1 ↔
      magnitude.mantissa - magnitude.reachBelow ≤ numeral.value / 2 ^ magnitude.exponent := by
    rw [numeral.le_against_iff, range_lower_eq hcanonical, le_div_iff₀ hunit]
  have hlt : (numeral.against magnitude.range.unit magnitude.range.lower).2 <
      (numeral.against magnitude.range.unit magnitude.range.lower).1 ↔
      magnitude.mantissa - magnitude.reachBelow < numeral.value / 2 ^ magnitude.exponent := by
    rw [← not_le, numeral.against_le_iff, range_lower_eq hcanonical, lt_div_iff₀ hunit, not_le]
  have hle' : (numeral.against magnitude.range.unit magnitude.range.upper).1 ≤
      (numeral.against magnitude.range.unit magnitude.range.upper).2 ↔
      numeral.value / 2 ^ magnitude.exponent ≤ magnitude.mantissa + 1 / 2 := by
    rw [numeral.against_le_iff, range_upper_eq, div_le_iff₀ hunit]
  have hlt' : (numeral.against magnitude.range.unit magnitude.range.upper).1 <
      (numeral.against magnitude.range.unit magnitude.range.upper).2 ↔
      numeral.value / 2 ^ magnitude.exponent < magnitude.mantissa + 1 / 2 := by
    rw [← not_le, numeral.le_against_iff, range_upper_eq, div_lt_iff₀ hunit, not_le]
  simp only [RoundingRange.contains]
  split
  · next hclosed =>
    have heven : magnitude.mantissa % 2 = 0 := by simpa [range] using hclosed
    simp only [Bool.and_eq_true, decide_eq_true_eq, hle, hle']
    exact ⟨fun hrange => ⟨hrange.1, hrange.2, by omega⟩,
      fun hcovers => ⟨hcovers.lower, hcovers.upper⟩⟩
  · next hopen =>
    have hodd : magnitude.mantissa % 2 = 1 := by
      have : magnitude.mantissa % 2 ≠ 0 := by simpa [range] using hopen
      omega
    simp only [Bool.and_eq_true, decide_eq_true_eq, hlt, hlt']
    exact ⟨fun hrange => ⟨hrange.1.le, hrange.2.le, fun _ => hrange⟩,
      fun hcovers => hcovers.ties hodd⟩

/-! ## The search -/

theorem covers_of_withDigits? (hcanonical : magnitude.IsCanonical) {order : Int} {places : Nat}
    {numeral : Numeral} (hfound : magnitude.withDigits? order places = some numeral) :
    magnitude.Covers numeral.value := by
  rw [← contains_range_iff hcanonical]
  simp only [withDigits?] at hfound
  split at hfound
  · next hlower _ =>
    cases hfound
    exact hlower
  · next _ hupper =>
    cases hfound
    exact hupper
  · cases hfound
  · next hlower hupper =>
    split at hfound <;> cases hfound
    · exact hlower
    · exact hupper

theorem covers_of_lt {number : ℚ}
    (hlower : magnitude.mantissa - magnitude.reachBelow < number / 2 ^ magnitude.exponent)
    (hupper : number / 2 ^ magnitude.exponent < magnitude.mantissa + 1 / 2) :
    magnitude.Covers number :=
  ⟨hlower.le, hupper.le, fun _ => ⟨hlower, hupper⟩⟩

theorem reachBelow_pos (magnitude : Magnitude) : 0 < magnitude.reachBelow := by
  unfold reachBelow
  split <;> norm_num

/-- On a grid that is finer than the rounding range a point next to the exact value lies in it. -/
theorem exists_withDigits? (hcanonical : magnitude.IsCanonical) {order : Int} {places : Nat}
    (hfine : (10 : ℚ) ^ (order - places) <
      (magnitude.reachBelow + 1 / 2) * 2 ^ magnitude.exponent) :
    ∃ numeral, magnitude.withDigits? order places = some numeral := by
  have hunit : (0 : ℚ) < 2 ^ magnitude.exponent := by positivity
  have hreach := magnitude.reachBelow_pos
  obtain ⟨hbelow, habove⟩ := (Ratio.scaled magnitude.mantissa magnitude.exponent).floorTo_spec
    (Ratio.denominator_scaled_pos _ _) (order - places)
  rw [Ratio.value_scaled] at hbelow habove
  simp only [withDigits?]
  generalize (Ratio.scaled magnitude.mantissa magnitude.exponent).floorTo (order - places) = point
    at hbelow habove ⊢
  rw [← div_le_iff₀ hunit] at hbelow
  rw [← lt_div_iff₀ hunit] at habove
  rcases hlower : magnitude.range.contains ⟨point, order - places⟩ with _ | _ <;>
    rcases hupper : magnitude.range.contains ⟨point + 1, order - places⟩ with _ | _
  · -- Both points lie outside, so the grid is as coarse as the range is long.
    have hoff : point * 10 ^ (order - places) / 2 ^ magnitude.exponent ≤
        magnitude.mantissa - magnitude.reachBelow := by
      by_contra hinside
      have hcovers : magnitude.Covers (Numeral.value ⟨point, order - places⟩) :=
        covers_of_lt (not_le.1 hinside) (hbelow.trans_lt (by linarith))
      rw [← contains_range_iff hcanonical, hlower] at hcovers
      cases hcovers
    have hoff' : magnitude.mantissa + 1 / 2 ≤
        ((point + 1 : Nat) : ℚ) * 10 ^ (order - places) / 2 ^ magnitude.exponent := by
      by_contra hinside
      rw [Nat.cast_succ, not_le] at hinside
      have hcovers : magnitude.Covers (Numeral.value ⟨point + 1, order - places⟩) := by
        refine covers_of_lt ?_ ?_
        · rw [Numeral.value, Nat.cast_succ]
          linarith
        · rwa [Numeral.value, Nat.cast_succ]
      rw [← contains_range_iff hcanonical, hupper] at hcovers
      cases hcovers
    rw [Nat.cast_succ, le_div_iff₀ hunit] at hoff'
    rw [div_le_iff₀ hunit] at hoff
    linarith
  · exact ⟨_, rfl⟩
  · exact ⟨_, rfl⟩
  · simp only
    split <;> exact ⟨_, rfl⟩

/-- Seventeen digits are enough. -/
theorem fine_of_seventeen (hcanonical : magnitude.IsCanonical) {order : Int}
    (horder : (10 : ℚ) ^ (order - 1) ≤ magnitude.mantissa * 2 ^ magnitude.exponent) :
    (10 : ℚ) ^ (order - (17 : Nat)) <
      (magnitude.reachBelow + 1 / 2) * 2 ^ magnitude.exponent := by
  have hunit : (0 : ℚ) < 2 ^ magnitude.exponent := by positivity
  have hgrid : (10 : ℚ) ^ (order - (17 : Nat)) = 10 ^ (order - 1) / 10 ^ 16 := by
    rw [← zpow_natCast, ← zpow_sub₀ (by norm_num)]
    congr 1
    omega
  have hmantissa : (magnitude.mantissa : ℚ) < (magnitude.reachBelow + 1 / 2) * 10 ^ 16 := by
    unfold reachBelow
    split
    · next hnarrow =>
      rw [(hcanonical.narrow.1 hnarrow).1]
      norm_num
    · have hlt : (magnitude.mantissa : ℚ) < 2 ^ 53 := by exact_mod_cast hcanonical.lt
      norm_num at hlt ⊢
      linarith
  rw [hgrid, div_lt_iff₀ (by norm_num)]
  calc (10 : ℚ) ^ (order - 1) ≤ magnitude.mantissa * 2 ^ magnitude.exponent := horder
    _ < (magnitude.reachBelow + 1 / 2) * 10 ^ 16 * 2 ^ magnitude.exponent := by gcongr
    _ = (magnitude.reachBelow + 1 / 2) * 2 ^ magnitude.exponent * 10 ^ 16 := by ring

theorem covers_of_shortestFrom (hcanonical : magnitude.IsCanonical) {order : Int}
    {places attempts : Nat} {numeral : Numeral}
    (hfound : magnitude.shortestFrom order places attempts = some numeral) :
    magnitude.Covers numeral.value := by
  induction attempts generalizing places with
  | zero => cases hfound
  | succ attempts ih =>
    rw [shortestFrom] at hfound
    rcases (Option.orElse_eq_some _ _ _).1 hfound with hdigits | ⟨-, hlater⟩
    · exact covers_of_withDigits? hcanonical hdigits
    · exact ih hlater

theorem exists_shortestFrom {order : Int} {places last attempts : Nat} {numeral : Numeral}
    (hlast : magnitude.withDigits? order last = some numeral) (hfirst : places ≤ last)
    (hattempts : last < places + attempts) :
    ∃ numeral, magnitude.shortestFrom order places attempts = some numeral := by
  induction attempts generalizing places with
  | zero => omega
  | succ attempts ih =>
    rw [shortestFrom]
    rcases hdigits : magnitude.withDigits? order places with _ | found
    · have hne : places ≠ last := by
        rintro rfl
        rw [hlast] at hdigits
        cases hdigits
      exact ih (by omega) (by omega)
    · exact ⟨found, rfl⟩

theorem covers_shortest (hcanonical : magnitude.IsCanonical) :
    magnitude.Covers magnitude.shortest.value := by
  have hnumerator : 0 < (Ratio.scaled magnitude.mantissa magnitude.exponent).numerator :=
    Nat.mul_pos hcanonical.pos (Nat.pow_pos (by norm_num))
  have horder := (Ratio.decimalOrder_spec hnumerator (Ratio.denominator_scaled_pos _ _)).1
  rw [Ratio.value_scaled] at horder
  obtain ⟨last, hlast⟩ := exists_withDigits? hcanonical (fine_of_seventeen hcanonical horder)
  obtain ⟨numeral, hfound⟩ := exists_shortestFrom hlast (by norm_num : 1 ≤ 17)
    (by norm_num : 17 < 1 + 17)
  rw [shortest, hfound, Option.getD_some, Numeral.value_reduced]
  exact covers_of_shortestFrom hcanonical hfound

theorem pos_of_covers (hcanonical : magnitude.IsCanonical) {numeral : Numeral}
    (hcovers : magnitude.Covers numeral.value) : 0 < numeral.digits := by
  have hpositive : 0 < numeral.value := lt_trans (by positivity) (hcovers.gt hcanonical)
  refine Nat.pos_of_ne_zero fun hzero => hpositive.ne' ?_
  rw [Numeral.value, hzero, Nat.cast_zero, zero_mul]

end Magnitude

end Stencil.Decimal
