import Mathlib
import Stencil.Proofs.Evaluation.Outcomes

/-!
# Powers of integers

A power of integers is exact as long as its exponent has 32 bits: it is the whole number if that fits
and an overflow if it does not.  The power of a greater exponent is a double, whatever its base, also
where the whole number would fit.
-/

namespace Stencil

namespace Operator

/-! ## Great exponents -/

theorem ofInt?_pow_eq_none {base : ℤ} {exponent : ℕ} (hbase : 2 ≤ base.natAbs)
    (hexponent : 64 ≤ exponent) : Integer.ofInt? (base ^ exponent) = none := by
  have hlarge : 2 ^ 64 ≤ (base ^ exponent).natAbs := by
    calc 2 ^ 64 ≤ 2 ^ exponent := Nat.pow_le_pow_right (by decide) hexponent
      _ ≤ base.natAbs ^ exponent := Nat.pow_le_pow_left hbase exponent
      _ = (base ^ exponent).natAbs := (Int.natAbs_pow base exponent).symm
  exact Integer.ofInt?_eq_none (by omega)

/-- The powers of a base that has no greater ones depend on the parity of the exponent only. -/
theorem pow_eq_of_natAbs_le_one {base : ℤ} {exponent exponent' : ℕ} (hbase : base.natAbs ≤ 1)
    (hpositive : 0 < exponent) (hpositive' : 0 < exponent')
    (hparity : exponent % 2 = exponent' % 2) : base ^ exponent = base ^ exponent' := by
  obtain rfl | rfl | rfl : base = 0 ∨ base = 1 ∨ base = -1 := by omega
  · rw [zero_pow hpositive.ne', zero_pow hpositive'.ne']
  · rw [one_pow, one_pow]
  · rw [neg_one_pow_eq_pow_mod_two, neg_one_pow_eq_pow_mod_two (n := exponent'), hparity]

/-- A bounded exponent has the same power as far as powers fit. -/
theorem ofInt?_pow_boundedExponent (base : ℤ) (exponent : ℕ) :
    Integer.ofInt? (base ^ boundedExponent exponent) = Integer.ofInt? (base ^ exponent) := by
  unfold boundedExponent
  split
  · rfl
  · next hlarge =>
    rcases Nat.lt_or_ge base.natAbs 2 with hsmall | hbase
    · have hpower : base ^ (64 + exponent % 2) = base ^ exponent :=
        pow_eq_of_natAbs_le_one (by omega) (by omega) (by omega) (by omega)
      rw [hpower]
    · rw [ofInt?_pow_eq_none hbase (by omega), ofInt?_pow_eq_none hbase (by omega)]

variable {base exponent : Int64}

theorem integerPower_eq_exactly (hexponent : 0 ≤ exponent.toInt)
    (hsmall : exponent.toInt < 2 ^ 32) :
    integerPower base exponent = exactly .pow (base.toInt ^ exponent.toInt.toNat) := by
  have hrange : 0 ≤ exponent.toInt ∧ exponent.toInt ≤ maxExponent := by
    unfold maxExponent
    omega
  rw [integerPower, if_pos hrange]
  exact congrArg (fitting .pow) (ofInt?_pow_boundedExponent _ _)

theorem integerPower_eq_float (hlarge : 2 ^ 32 ≤ exponent.toInt) :
    integerPower base exponent =
      .ok (.float (Float.pow (Value.doubleOf base) (Value.doubleOf exponent))) := by
  refine if_neg fun hrange => ?_
  unfold maxExponent at hrange
  omega

end Operator

namespace Evaluation

variable {evaluator : Evaluator} {depth : Nat} {left right : Expr Token}
  {context between after : Context} {base exponent : Int64}

/-- A power of integers whose exponent has 32 bits and no sign is the exact one if that fits, and an
overflow otherwise.  With a greater exponent it is a float. -/
theorem integer_power_is_exact (token : Token)
    (hleft : (ExceptT.run (evaluateExpr evaluator depth left)).run context =
      some (.ok (.integer base), between))
    (hright : (ExceptT.run (evaluateExpr evaluator depth right)).run between =
      some (.ok (.integer exponent), after))
    (hexponent : 0 ≤ exponent.toInt) :
    let outcome :=
      (ExceptT.run (evaluateExpr evaluator depth (.binary token .pow left right))).run context
    let exact := base.toInt ^ exponent.toInt.toNat
    let overflow : Failure :=
      .evaluation (.operator (.integerOverflow "**")) token.span.line token.span.column
    (exponent.toInt < 2 ^ 32 →
      (∀ power : Int64, power.toInt = exact → outcome = some (.ok (.integer power), after)) ∧
      (exact < -2 ^ 63 ∨ 2 ^ 63 ≤ exact → outcome = some (.error overflow, after))) ∧
    (2 ^ 32 ≤ exponent.toInt → ∃ power : Float, outcome = some (.ok (.float power), after)) := by
  intro outcome exact overflow
  have houtcome : outcome =
      (ExceptT.run (ofOperator token (Operator.integerPower base exponent))).run after :=
    run_evaluateExpr_binary token .pow nofun nofun hleft hright
  refine ⟨fun hsmall => ?_, fun hlarge => ?_⟩
  · rw [Operator.integerPower_eq_exactly hexponent hsmall, Operator.exactly] at houtcome
    refine ⟨fun power hpower => ?_, fun hlarge => ?_⟩
    · rw [houtcome, Integer.ofInt?_eq_some_iff.2 hpower]
      rfl
    · rw [houtcome, Integer.ofInt?_eq_none (by omega)]
      rfl
  · rw [Operator.integerPower_eq_float hlarge] at houtcome
    exact ⟨_, houtcome⟩

/-- The least integer is an odd power of minus eight, whose opposite does not fit. -/
theorem integer_power_is_exact_least :
    let token : Token := ⟨.pow, "**", ⟨0, 2, 1, 1⟩⟩
    let context := Context.ofBindings 0 []
    (ExceptT.run (evaluateExpr .bare 0
      (.binary token .pow (.signed token .minus (.integer token 8)) (.integer token 21)))).run
        context = some (.ok (.integer Int64.minValue), context) := by
  intro token context
  have hleft : (ExceptT.run (evaluateExpr .bare 0 (.signed token .minus (.integer token 8)))).run
      context = some (.ok (.integer (-8)), context) := rfl
  have hright : (ExceptT.run (evaluateExpr .bare 0 (.integer token 21))).run context =
      some (.ok (.integer 21), context) := rfl
  obtain ⟨hexact, -⟩ := integer_power_is_exact token hleft hright (by decide)
  refine (hexact (by decide)).1 _ ?_
  decide

/-- An odd power of minus one with an exponent of more than 53 bits: it would be minus one, but it is
a float, and one whose exponent has been rounded. -/
theorem not_integer_power_exact_beyond_words :
    ¬ ∀ (evaluator : Evaluator) (depth : Nat) (token : Token) (left right : Expr Token)
        (base exponent power : Int64) (context between after : Context),
      (ExceptT.run (evaluateExpr evaluator depth left)).run context =
        some (.ok (.integer base), between) →
      (ExceptT.run (evaluateExpr evaluator depth right)).run between =
        some (.ok (.integer exponent), after) →
      0 ≤ exponent.toInt →
      power.toInt = base.toInt ^ exponent.toInt.toNat →
      (ExceptT.run (evaluateExpr evaluator depth (.binary token .pow left right))).run context =
        some (.ok (.integer power), after) := by
  intro hexact
  let token : Token := ⟨.pow, "**", ⟨5, 7, 1, 6⟩⟩
  have hpower : (-1 : Int64).toInt =
      (-1 : Int64).toInt ^ (9007199254740993 : Int64).toInt.toNat := by
    rw [show (-1 : Int64).toInt = -1 from rfl]
    exact (Odd.neg_one_pow (by decide)).symm
  have hrun := hexact .bare 0 token (.signed token .minus (.integer token 1))
    (.integer token 9007199254740993) (-1) 9007199254740993 (-1) (Context.ofBindings 0 []) _ _ rfl
    rfl (by decide) hpower
  cases hrun

end Evaluation

end Stencil
