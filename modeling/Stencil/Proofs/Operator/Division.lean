import Mathlib
import Stencil.Proofs.Evaluation.Outcomes

/-!
# Division of integers

The quotient of two integers is rounded towards negative infinity, and the remainder is what the
product of quotient and divisor leaves.  Both are found by the division of the machine, which rounds
towards zero; that division has no result for the least integer by minus one, and neither has the
remainder there, although it would be zero.
-/

namespace Stencil

namespace Integer

/-! ## Rounding -/

/-- A remainder lies between zero and the divisor, and is never the divisor itself. -/
structure IsResidue (divisor remainder : ℤ) : Prop where
  of_pos : 0 < divisor → 0 ≤ remainder ∧ remainder < divisor
  of_neg : divisor < 0 → divisor < remainder ∧ remainder ≤ 0

/-- A quotient rounded towards negative infinity and its remainder. -/
structure FloorDivision (dividend divisor quotient remainder : ℤ) : Prop where
  equation : dividend = divisor * quotient + remainder
  residue : IsResidue divisor remainder

theorem FloorDivision.floor_eq {dividend divisor quotient remainder : ℤ}
    (hdivision : FloorDivision dividend divisor quotient remainder) (hdivisor : divisor ≠ 0) :
    ⌊(dividend : ℚ) / divisor⌋ = quotient := by
  have hsum : (dividend : ℚ) / divisor = quotient + remainder / divisor := by
    rw [hdivision.equation]
    push_cast
    field_simp
  suffices hpart : (0 : ℚ) ≤ remainder / divisor ∧ (remainder : ℚ) / divisor < 1 by
    rw [hsum, Int.floor_intCast_add, Int.floor_eq_zero_iff.2 hpart, add_zero]
  rcases lt_or_gt_of_ne hdivisor with hneg | hpos
  · obtain ⟨hlower, hupper⟩ := hdivision.residue.of_neg hneg
    have hneg : (divisor : ℚ) < 0 := by exact_mod_cast hneg
    have hupper : (remainder : ℚ) ≤ 0 := by exact_mod_cast hupper
    have hlower : (divisor : ℚ) < remainder := by exact_mod_cast hlower
    exact ⟨div_nonneg_of_nonpos hupper hneg.le, (div_lt_one_of_neg hneg).2 hlower⟩
  · obtain ⟨hlower, hupper⟩ := hdivision.residue.of_pos hpos
    have hpos : (0 : ℚ) < divisor := by exact_mod_cast hpos
    have hlower : (0 : ℚ) ≤ remainder := by exact_mod_cast hlower
    have hupper : (remainder : ℚ) < divisor := by exact_mod_cast hupper
    exact ⟨div_nonneg hlower hpos.le, (div_lt_one hpos).2 hupper⟩

/-- The remainder of a division that rounds towards zero has the sign of the dividend. -/
theorem tmod_bounds (dividend : ℤ) {divisor : ℤ} (hdivisor : divisor ≠ 0) :
    (dividend.tmod divisor).natAbs < divisor.natAbs ∧
      (0 ≤ dividend → 0 ≤ dividend.tmod divisor) ∧
      (dividend ≤ 0 → dividend.tmod divisor ≤ 0) := by
  refine ⟨?_, Int.tmod_nonneg divisor, fun hnonpos => ?_⟩
  · rw [Int.natAbs_tmod]
    exact Nat.mod_lt _ (Int.natAbs_pos.2 hdivisor)
  · have hopposite := Int.tmod_nonneg divisor (neg_nonneg.2 hnonpos)
    rw [Int.neg_tmod] at hopposite
    exact neg_nonneg.1 hopposite

/-- Where the signs differ and something is left over, the quotient rounded towards zero is one too
large, and what is left over is one divisor short. -/
theorem floorDivision_corrected (dividend : ℤ) {divisor : ℤ} (hdivisor : divisor ≠ 0) :
    FloorDivision dividend divisor
      (if dividend.tmod divisor ≠ 0 ∧ decide (dividend < 0) ≠ decide (divisor < 0) then
        dividend.tdiv divisor - 1 else dividend.tdiv divisor)
      (if dividend.tmod divisor ≠ 0 ∧
          decide (dividend.tmod divisor < 0) ≠ decide (divisor < 0) then
        dividend.tmod divisor + divisor else dividend.tmod divisor) := by
  obtain ⟨hsmall, hnonneg, hnonpos⟩ := tmod_bounds dividend hdivisor
  have hequation := Int.mul_tdiv_add_tmod dividend divisor
  generalize dividend.tmod divisor = rest at *
  generalize dividend.tdiv divisor = quotient at *
  -- What is left over is zero or has the sign of the dividend, so both conditions are one.
  have hsame : (rest ≠ 0 ∧ decide (dividend < 0) ≠ decide (divisor < 0)) ↔
      (rest ≠ 0 ∧ decide (rest < 0) ≠ decide (divisor < 0)) := by
    refine and_congr_right fun hrest => ?_
    rw [show decide (dividend < 0) = decide (rest < 0) by rw [decide_eq_decide]; omega]
  rw [if_congr hsame rfl rfl]
  split
  · next hcorrect =>
    obtain ⟨hrest, hsigns⟩ := hcorrect
    rw [Ne, decide_eq_decide] at hsigns
    refine ⟨?_, fun hpos => ?_, fun hneg => ?_⟩
    · rw [mul_sub_one]
      omega
    · omega
    · omega
  · next hexact =>
    rw [not_and_or, not_not, Ne, not_not, decide_eq_decide] at hexact
    exact ⟨hequation.symm, fun hpos => by omega, fun hneg => by omega⟩

theorem FloorDivision.dvd {dividend divisor quotient remainder : ℤ}
    (hdivision : FloorDivision dividend divisor quotient remainder) :
    divisor ∣ dividend - remainder :=
  ⟨quotient, sub_eq_of_eq_add hdivision.equation⟩

/-! ## Division of the machine -/

variable {dividend divisor : Int64}

theorem divisionOverflows_iff :
    divisionOverflows dividend divisor ↔ dividend = Int64.minValue ∧ divisor = -1 := by
  simp [divisionOverflows]

theorem toInt_div_of_not_overflows (hfits : ¬ divisionOverflows dividend divisor) :
    (dividend / divisor).toInt = dividend.toInt.tdiv divisor.toInt := by
  rw [divisionOverflows_iff, not_and_or] at hfits
  rcases hfits with hdividend | hdivisor
  · exact Int64.toInt_div_of_ne_left _ _ hdividend
  · exact Int64.toInt_div_of_ne_right _ _ hdivisor

theorem toInt_ne_zero (hdivisor : divisor ≠ 0) : divisor.toInt ≠ 0 :=
  fun hzero => hdivisor (Int64.toInt_inj.1 hzero)

theorem mod_ne_zero_iff : dividend % divisor ≠ 0 ↔ dividend.toInt.tmod divisor.toInt ≠ 0 := by
  rw [← Int64.toInt_mod, Ne, ← Int64.toInt_inj]
  rfl

theorem lt_zero_iff (value : Int64) : value < 0 ↔ value.toInt < 0 :=
  Int64.lt_iff_toInt_lt

/-- The quotient is the exact one rounded down, if that fits. -/
theorem floorQuotient?_eq (hdivisor : divisor ≠ 0) :
    floorQuotient? dividend divisor = ofInt? ⌊(dividend.toInt : ℚ) / divisor.toInt⌋ := by
  unfold floorQuotient?
  split
  · next hoverflows =>
    obtain ⟨rfl, rfl⟩ := divisionOverflows_iff.1 hoverflows
    have hfloor : ⌊((Int64.minValue.toInt : ℤ) : ℚ) / ((-1 : Int64).toInt : ℤ)⌋ = 2 ^ 63 := by
      norm_num [show Int64.minValue.toInt = -2 ^ 63 from rfl, show (-1 : Int64).toInt = -1 from rfl]
    rw [hfloor]
    rfl
  · next hfits =>
    rw [(floorDivision_corrected dividend.toInt (toInt_ne_zero hdivisor)).floor_eq
      (toInt_ne_zero hdivisor), ← toInt_div_of_not_overflows hfits]
    simp only [mod_ne_zero_iff, lt_zero_iff]
    split
    · rfl
    · exact (ofInt?_toInt _).symm

/-- A sum of two integers of different signs fits. -/
theorem toInt_add_of_signs {left right : Int64} (hsigns : left.toInt < 0 ↔ ¬ right.toInt < 0) :
    (left + right).toInt = left.toInt + right.toInt := by
  have hleft := left.le_toInt
  have hleft' := left.toInt_lt
  have hright := right.le_toInt
  have hright' := right.toInt_lt
  rw [Int64.toInt_add]
  exact Int.bmod_eq_of_le (by omega) (by omega)

/-- There is a remainder unless the division of the machine overflows. -/
theorem exists_floorRemainder? (hdivisor : divisor ≠ 0)
    (hfits : ¬ divisionOverflows dividend divisor) :
    ∃ remainder, floorRemainder? dividend divisor = some remainder ∧
      FloorDivision dividend.toInt divisor.toInt ⌊(dividend.toInt : ℚ) / divisor.toInt⌋
        remainder.toInt := by
  have hdivision := floorDivision_corrected dividend.toInt (toInt_ne_zero hdivisor)
  rw [hdivision.floor_eq (toInt_ne_zero hdivisor)]
  simp only [floorRemainder?, if_neg hfits, mod_ne_zero_iff, lt_zero_iff, Int64.toInt_mod]
  split
  · next hcorrect =>
    refine ⟨_, rfl, ?_⟩
    have hsigns : (dividend % divisor).toInt < 0 ↔ ¬ divisor.toInt < 0 := by
      rw [Int64.toInt_mod]
      have hdifferent := hcorrect.2
      rw [Ne, decide_eq_decide] at hdifferent
      tauto
    rw [if_pos hcorrect] at hdivision
    rwa [toInt_add_of_signs hsigns, Int64.toInt_mod]
  · next hexact =>
    refine ⟨_, rfl, ?_⟩
    rw [if_neg hexact] at hdivision
    rwa [Int64.toInt_mod]

end Integer

namespace Evaluation

open Integer

variable {evaluator : Evaluator} {depth : Nat} {left right : Expr Token}
  {context between after : Context}

variable {dividend divisor : Int64}

theorem integerArithmetic_zero {op : BinaryOp} (hop : Operator.isDivision op) :
    Operator.integerArithmetic op dividend 0 = .error .divisionByZero :=
  if_pos ⟨hop, rfl⟩

theorem integerArithmetic_floorDiv (hdivisor : divisor ≠ 0) :
    Operator.integerArithmetic .floorDiv dividend divisor =
      Operator.fitting .floorDiv (floorQuotient? dividend divisor) :=
  if_neg fun hzero => hdivisor hzero.2

theorem integerArithmetic_mod (hdivisor : divisor ≠ 0) :
    Operator.integerArithmetic .mod dividend divisor =
      Operator.fitting .mod (floorRemainder? dividend divisor) :=
  if_neg fun hzero => hdivisor hzero.2

/-- Division by zero is an error, the quotient is the exact one rounded down as long as it fits,
and there is a remainder unless the division of the machine overflows, which is an error.  Nothing
wraps around. -/
theorem integer_division_is_exact (token : Token)
    (hleft : (ExceptT.run (evaluateExpr evaluator depth left)).run context =
      some (.ok (.integer dividend), between))
    (hright : (ExceptT.run (evaluateExpr evaluator depth right)).run between =
      some (.ok (.integer divisor), after)) :
    let run op :=
      (ExceptT.run (evaluateExpr evaluator depth (.binary token op left right))).run context
    let fails fault :=
      some (.error (.evaluation (.operator fault) token.span.line token.span.column), after)
    let exact := ⌊(dividend.toInt : ℚ) / divisor.toInt⌋
    (divisor = 0 → run .floorDiv = fails .divisionByZero ∧ run .mod = fails .divisionByZero) ∧
      (divisor ≠ 0 →
        (∀ quotient : Int64, quotient.toInt = exact →
          run .floorDiv = some (.ok (.integer quotient), after)) ∧
        (exact < -2 ^ 63 ∨ 2 ^ 63 ≤ exact → run .floorDiv = fails (.integerOverflow "//"))) ∧
      (divisor ≠ 0 → ¬ (dividend = Int64.minValue ∧ divisor = -1) →
        ∃ remainder : Int64, run .mod = some (.ok (.integer remainder), after) ∧
          divisor.toInt ∣ dividend.toInt - remainder.toInt ∧
          IsResidue divisor.toInt remainder.toInt) ∧
      (dividend = Int64.minValue ∧ divisor = -1 → run .mod = fails (.integerOverflow "%")) ∧
      ∀ quotient remainder, run .floorDiv = some (.ok (.integer quotient), after) →
        run .mod = some (.ok (.integer remainder), after) →
        dividend.toInt = divisor.toInt * quotient.toInt + remainder.toInt := by
  intro run fails exact
  have hquotient : run .floorDiv = (ExceptT.run
      (ofOperator token (Operator.integerArithmetic .floorDiv dividend divisor))).run after :=
    run_evaluateExpr_binary token .floorDiv nofun nofun hleft hright
  have hremainder : run .mod = (ExceptT.run
      (ofOperator token (Operator.integerArithmetic .mod dividend divisor))).run after :=
    run_evaluateExpr_binary token .mod nofun nofun hleft hright
  rcases eq_or_ne divisor 0 with rfl | hdivisor
  · rw [integerArithmetic_zero rfl] at hquotient hremainder
    refine ⟨fun _ => ⟨hquotient, hremainder⟩, absurd rfl, absurd rfl, ?_, fun _ _ hvalue => ?_⟩
    · rintro ⟨-, hzero⟩
      cases hzero
    · cases hquotient.symm.trans hvalue
  rw [integerArithmetic_floorDiv hdivisor, floorQuotient?_eq hdivisor] at hquotient
  rw [integerArithmetic_mod hdivisor] at hremainder
  refine ⟨fun hzero => absurd hzero hdivisor,
    fun _ => ⟨fun quotient hexact => ?_, fun hlarge => ?_⟩,
    fun _ hfits => ?_, fun hleast => ?_, fun quotient remainder hvalue hrest => ?_⟩
  · rw [hquotient, ofInt?_eq_some_iff.2 hexact]
    rfl
  · rw [hquotient, ofInt?_eq_none (by omega)]
    rfl
  · obtain ⟨remainder, hsome, hdivision⟩ :=
      exists_floorRemainder? hdivisor (mt divisionOverflows_iff.1 hfits)
    rw [hsome] at hremainder
    exact ⟨remainder, hremainder, hdivision.dvd, hdivision.residue⟩
  · rw [hremainder, floorRemainder?, if_pos (divisionOverflows_iff.2 hleast)]
    rfl
  · have hfits : ¬ divisionOverflows dividend divisor := by
      intro hoverflows
      rw [hrest, floorRemainder?, if_pos hoverflows] at hremainder
      cases hremainder
    obtain ⟨remainder', hsome, hdivision⟩ := exists_floorRemainder? hdivisor hfits
    rw [hrest, hsome] at hremainder
    cases hremainder
    rw [hvalue] at hquotient
    cases hexact : ofInt? exact with
    | none =>
      rw [hexact] at hquotient
      cases hquotient
    | some result =>
      rw [hexact] at hquotient
      cases hquotient
      rw [ofInt?_eq_some_iff.1 hexact]
      exact hdivision.equation

/-- The quotient of minus seven and two is minus four, and one is left. -/
theorem integer_division_is_exact_negative :
    let token : Token := ⟨.mod, "%", ⟨0, 1, 1, 1⟩⟩
    let context := Context.ofBindings 0 []
    let run op := (ExceptT.run (evaluateExpr .bare 0
      (.binary token op (.integer token (-7)) (.integer token 2)))).run context
    run .floorDiv = some (.ok (.integer (-4)), context) ∧
      run .mod = some (.ok (.integer 1), context) := by
  intro token context run
  have hleft : (ExceptT.run (evaluateExpr .bare 0 (.integer token (-7)))).run context =
      some (.ok (.integer (-7)), context) := rfl
  have hright : (ExceptT.run (evaluateExpr .bare 0 (.integer token 2))).run context =
      some (.ok (.integer 2), context) := rfl
  obtain ⟨-, hquotient, hremainder, -, hequation⟩ :=
    integer_division_is_exact token hleft hright
  have hfloor : (-4 : Int64).toInt = ⌊((-7 : Int64).toInt : ℚ) / (2 : Int64).toInt⌋ := by
    norm_num [show (-4 : Int64).toInt = -4 from rfl, show (-7 : Int64).toInt = -7 from rfl,
      show (2 : Int64).toInt = 2 from rfl]
  have hquotient := (hquotient (by decide)).1 _ hfloor
  obtain ⟨remainder, hrun, -, -⟩ := hremainder (by decide) (by decide)
  have hone : remainder = 1 := by
    refine Int64.toInt_inj.1 ?_
    have hsum : (-7 : ℤ) = 2 * -4 + remainder.toInt := hequation _ _ hquotient hrun
    rw [show (1 : Int64).toInt = 1 from rfl]
    omega
  exact ⟨hquotient, hone ▸ hrun⟩

/-- There is no remainder of the least integer by minus one, although it would be zero. -/
theorem not_remainder_of_least :
    ¬ ∀ (evaluator : Evaluator) (depth : Nat) (token : Token) (left right : Expr Token)
        (dividend divisor : Int64) (context between after : Context),
      (ExceptT.run (evaluateExpr evaluator depth left)).run context =
        some (.ok (.integer dividend), between) →
      (ExceptT.run (evaluateExpr evaluator depth right)).run between =
        some (.ok (.integer divisor), after) →
      divisor ≠ 0 →
      ∃ remainder : Int64,
        (ExceptT.run (evaluateExpr evaluator depth (.binary token .mod left right))).run context =
          some (.ok (.integer remainder), after) ∧
        divisor.toInt ∣ dividend.toInt - remainder.toInt ∧
        IsResidue divisor.toInt remainder.toInt := by
  intro hexact
  let token : Token := ⟨.mod, "%", ⟨0, 1, 1, 1⟩⟩
  obtain ⟨remainder, hrun, -⟩ := hexact .bare 0 token (.integer token Int64.minValue)
    (.integer token (-1)) Int64.minValue (-1) (Context.ofBindings 0 []) _ _ rfl rfl (by decide)
  cases hrun

end Evaluation

end Stencil
