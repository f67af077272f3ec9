import Mathlib
import Stencil.Decimal.Notation
import Stencil.Decimal.Reading

/-!
# Whole numbers are read as they were written
-/

namespace Stencil.Decimal

theorem naturalOfDigits_eq (digits : List Char) :
    naturalOfDigits digits = Nat.ofDigitChars 10 digits 0 := by
  simp only [naturalOfDigits, Nat.ofDigitChars_eq_foldl]
  rfl

theorem le_ofDigitChars (digits : List Char) (value : Nat) :
    value ≤ Nat.ofDigitChars 10 digits value := by
  rw [Nat.ofDigitChars_eq_ofDigitChars_zero]
  exact (Nat.le_mul_of_pos_left value (by positivity)).trans (Nat.le_add_right _ _)

/-- Digits are read as long as the number they write is in range. -/
theorem readDigits_eq_ok {limit value : Nat} {excess : IntegerFault} {digits : List Char}
    (hdigits : ∀ char ∈ digits, char.isDigit) (hlimit : Nat.ofDigitChars 10 digits value ≤ limit) :
    readDigits limit excess value digits = .ok (Nat.ofDigitChars 10 digits value) := by
  induction digits generalizing value with
  | nil => rfl
  | cons char digits ih =>
    rw [List.forall_mem_cons] at hdigits
    rw [Nat.ofDigitChars_cons] at hlimit ⊢
    have hnext : 10 * value + digitValue char ≤ limit := (le_ofDigitChars digits _).trans hlimit
    rw [readDigits, if_pos hdigits.1]
    simp only [hnext, if_true]
    exact ih hdigits.2 hlimit

theorem isDigit_of_mem_toDigits {value : Nat} :
    ∀ char ∈ Nat.toDigits 10 value, char.isDigit :=
  fun _ hmem => Nat.isDigit_of_mem_toDigits (by decide) (by decide) hmem

theorem readNumber_toDigits {limit value : Nat} {excess : IntegerFault} (hlimit : value ≤ limit) :
    readNumber limit excess (Nat.toDigits 10 value) = .ok value := by
  have hread : readDigits limit excess 0 (Nat.toDigits 10 value) = .ok value := by
    have hvalue : Nat.ofDigitChars 10 (Nat.toDigits 10 value) 0 = value :=
      Nat.ofDigitChars_ten_toDigits
    rw [readDigits_eq_ok isDigit_of_mem_toDigits (by rw [hvalue]; exact hlimit), hvalue]
  unfold readNumber
  split
  · next hnil => exact absurd hnil Nat.toDigits_ne_nil
  · exact hread

theorem toDigits_eq_cons (value : Nat) :
    ∃ first rest, Nat.toDigits 10 value = first :: rest ∧ first.isDigit ∧
      ∀ char ∈ rest, char.isDigit := by
  obtain ⟨first, rest, hdigits⟩ :=
    List.exists_cons_of_ne_nil (Nat.toDigits_ne_nil : Nat.toDigits 10 value ≠ [])
  have hall := @isDigit_of_mem_toDigits value
  rw [hdigits, List.forall_mem_cons] at hall
  exact ⟨first, rest, hdigits, hall⟩

theorem integerText_toList {value : Int64} (hsign : 0 ≤ value.toInt) :
    (integerText value).toList = Nat.toDigits 10 value.toInt.toNat := by
  obtain ⟨magnitude, hmagnitude⟩ := Int.eq_ofNat_of_zero_le hsign
  rw [integerText, hmagnitude]
  exact Nat.toList_repr

theorem cons_ne_of_isDigit {first other : Char} {rest tail : List Char} (hfirst : first.isDigit)
    (hother : other.isDigit = false) : first :: rest ≠ other :: tail := by
  intro hsame
  obtain ⟨rfl, -⟩ := List.cons.inj hsame
  rw [hfirst] at hother
  cases hother

/-- A numeral that starts with a digit carries no sign. -/
theorem readInteger_of_isDigit {text : String} {first : Char} {rest : List Char}
    (htext : text.toList = first :: rest) (hfirst : first.isDigit) :
    readInteger text =
      (readNumber maxInteger .tooLarge (first :: rest)).map fun value => Int64.ofNat value := by
  unfold readInteger
  rw [htext]
  split
  · next hnil => cases hnil
  · next hminus => exact absurd hminus (cons_ne_of_isDigit hfirst (by decide))
  · next hplus => exact absurd hplus (cons_ne_of_isDigit hfirst (by decide))
  · rfl

theorem readInteger_integerText {value : Int64} (hsign : 0 ≤ value.toInt) :
    readInteger (integerText value) = .ok value := by
  obtain ⟨first, rest, hdigits, hfirst, -⟩ := toDigits_eq_cons value.toInt.toNat
  have hlimit : value.toInt.toNat ≤ maxInteger := by
    have := value.toInt_lt
    simp only [maxInteger]
    omega
  have hread : readNumber maxInteger .tooLarge (first :: rest) = .ok value.toInt.toNat := by
    rw [← hdigits]
    exact readNumber_toDigits hlimit
  have hvalue : Int64.ofNat value.toInt.toNat = value := by
    rw [← Int64.ofInt_eq_ofNat, Int.toNat_of_nonneg hsign, Int64.ofInt_toInt]
  have htext := (integerText_toList hsign).trans hdigits
  rw [readInteger_of_isDigit htext hfirst, hread]
  exact congrArg Except.ok hvalue

theorem readDigits_le {limit value result : Nat} {excess : IntegerFault} {digits : List Char}
    (hread : readDigits limit excess value digits = .ok result) (hvalue : value ≤ limit) :
    result ≤ limit := by
  induction digits generalizing value with
  | nil =>
    cases hread
    exact hvalue
  | cons char digits ih =>
    unfold readDigits at hread
    split at hread
    · dsimp only at hread
      split at hread
      · next hnext => exact ih hread hnext
      · cases hread
    · cases hread

/-- A numeral that starts with a digit is not read as a negative number. -/
theorem nonneg_of_readInteger {text : String} {first : Char} {rest : List Char} {value : Int64}
    (htext : text.toList = first :: rest) (hfirst : first.isDigit)
    (hread : readInteger text = .ok value) : 0 ≤ value.toInt := by
  rw [readInteger_of_isDigit htext hfirst] at hread
  cases hnumber : readNumber maxInteger .tooLarge (first :: rest) with
  | error fault =>
    rw [hnumber] at hread
    cases hread
  | ok number =>
    rw [hnumber] at hread
    cases hread
    have hlimit : number ≤ maxInteger := readDigits_le hnumber (Nat.zero_le _)
    simp only [maxInteger] at hlimit
    rw [Int64.toInt_ofNat_of_lt (by omega)]
    exact Int.natCast_nonneg number

theorem readIndex_toString (index : UInt64) : readIndex (toString index.toNat) = .ok index := by
  obtain ⟨first, rest, hdigits, hfirst, -⟩ := toDigits_eq_cons index.toNat
  have hlimit : index.toNat ≤ maxIndex := Nat.le_of_lt_succ index.toNat_lt
  have hread : readNumber maxIndex .tooLarge (first :: rest) = .ok index.toNat := by
    rw [← hdigits]
    exact readNumber_toDigits hlimit
  have htext : (toString index.toNat).toList = first :: rest := by
    rw [← hdigits]
    exact Nat.toList_repr
  unfold readIndex
  rw [htext]
  split
  · next hnil => cases hnil
  · next hplus => exact absurd hplus (cons_ne_of_isDigit hfirst (by decide))
  · rw [hread]
    exact congrArg Except.ok UInt64.ofNat_toNat

end Stencil.Decimal
