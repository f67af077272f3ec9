import Stencil.Proofs.Operator.Slices
import Stencil.Proofs.Parts

/-!
# Repetition

A list or a text times an integer is made of that many copies of it, on whichever side the integer
stands.  The elements of the result are counted exactly, so that no product is too large to be
compared with the limit.
-/

namespace Stencil

namespace Operator

/-! ## Copies -/

section

variable {α β : Type} {items out : List α} {times : Int64}

/-- Copies of a list one behind the other. -/
def copies (items : List α) (count : ℕ) : List α :=
  (List.replicate count items).flatten

theorem length_copies (items : List α) (count : ℕ) :
    (copies items count).length = items.length * count := by
  rw [copies, List.length_flatten, List.map_replicate, List.sum_replicate, smul_eq_mul, mul_comm]

theorem copies_succ (items : List α) (count : ℕ) :
    copies items (count + 1) = items ++ copies items count := by
  rw [copies, List.replicate_succ, List.flatten_cons, copies]

theorem copies_add (items : List α) (first second : ℕ) :
    copies items (first + second) = copies items first ++ copies items second := by
  rw [copies, List.replicate_add, List.flatten_append, copies, copies]

theorem copies_map (f : α → β) (items : List α) (count : ℕ) :
    copies (items.map f) count = (copies items count).map f := by
  rw [copies, copies, List.map_flatten, List.map_replicate]

theorem copies_eq_nil {count : ℕ} (hempty : count = 0 ∨ items = []) : copies items count = [] := by
  refine List.eq_nil_of_length_eq_zero ?_
  rw [length_copies]
  rcases hempty with rfl | rfl <;> simp

/-- The copies begin anew behind the last element of the list. -/
theorem getElem?_copies {count place : ℕ} (hplace : place < items.length * count) :
    (copies items count)[place]? = items[place % items.length]? := by
  induction count generalizing place with
  | zero => simp at hplace
  | succ count ih =>
    rw [copies_succ]
    rcases Nat.lt_or_ge place items.length with hfirst | hlater
    · rw [List.getElem?_append_left hfirst, Nat.mod_eq_of_lt hfirst]
    · have hbehind : place - items.length < items.length * count := by
        rw [Nat.mul_succ] at hplace
        omega
      rw [List.getElem?_append_right hlater, ih hbehind, Nat.mod_eq_sub_mod hlater]

/-- There are no copies at all for a negative number of times. -/
theorem repeated_eq_ok (hfits : items.length * times.toInt.toNat ≤ 10000000) :
    repeated items times = .ok (copies items times.toInt.toNat) := by
  unfold repeated
  dsimp only
  rw [if_pos (show items.length * times.toInt.toNat ≤ maxRepetition from hfits)]
  split
  · next hempty => rw [copies_eq_nil (.inr (List.isEmpty_iff.1 hempty))]
  · rfl

theorem repeated_eq_error (hlarge : 10000000 < items.length * times.toInt.toNat) :
    repeated items times = .error (.repetitionTooLong items.length times.toInt.toNat) :=
  if_neg (show ¬ items.length * times.toInt.toNat ≤ maxRepetition from not_le.2 hlarge)

theorem eq_copies_of_repeated (hrepeated : repeated items times = .ok out) :
    items.length * times.toInt.toNat ≤ 10000000 ∧ out = copies items times.toInt.toNat := by
  rcases Nat.lt_or_ge 10000000 (items.length * times.toInt.toNat) with hlarge | hfits
  · rw [repeated_eq_error hlarge] at hrepeated
    cases hrepeated
  · rw [repeated_eq_ok hfits] at hrepeated
    cases hrepeated
    exact ⟨hfits, rfl⟩

/-- As many copies as two numbers make up together are the copies of the one number and then those
of the other one. -/
theorem repeated_add {first second : Int64} (hfirst : 0 ≤ first.toInt) (hsecond : 0 ≤ second.toInt)
    (hsum : times.toInt = first.toInt + second.toInt) (hrepeated : repeated items times = .ok out) :
    ∃ front back, repeated items first = .ok front ∧ repeated items second = .ok back ∧
      front ++ back = out := by
  obtain ⟨hfits, rfl⟩ := eq_copies_of_repeated hrepeated
  have hcount : times.toInt.toNat = first.toInt.toNat + second.toInt.toNat := by omega
  rw [hcount, Nat.mul_add] at hfits
  refine ⟨_, _, repeated_eq_ok (by omega), repeated_eq_ok (by omega), ?_⟩
  rw [hcount, copies_add]

end

/-! ## Sequences -/

variable {value : Value} {elements : List Value}

/-- A sequence is multiplied on either side. -/
theorem mul_comm_of_elements (helements : value.elements? = some elements) (times : Int64) :
    binary .mul value (.integer times) = binary .mul (.integer times) value := by
  cases value with
  | list items | string text | safe text => rfl
  | _ => cases helements

/-- A product is a sequence of the same type, and it is a plain one. -/
theorem exists_product (helements : value.elements? = some elements) (times : Int64)
    (hfits : elements.length * times.toInt.toNat ≤ 10000000) :
    ∃ product, binary .mul value (.integer times) = .ok product ∧ product.type = value.type ∧
      product.plain = product ∧ product.elements? = some (copies elements times.toInt.toNat) := by
  cases value with
  | list items =>
    cases helements
    refine ⟨.list (copies elements times.toInt.toNat), ?_, rfl, rfl, rfl⟩
    exact congrArg (Except.map Value.list) (repeated_eq_ok hfits)
  | string text | safe text =>
    cases helements
    rw [List.length_map] at hfits
    refine ⟨.string (String.ofList (copies text.toList times.toInt.toNat)), ?_, rfl, rfl, ?_⟩
    · exact congrArg (Except.map fun chars => Value.string (String.ofList chars))
        (repeated_eq_ok hfits)
    · rw [copies_map, Value.elements?, String.toList_ofList]
  | _ => cases helements

theorem product_eq_error (helements : value.elements? = some elements) {times : Int64}
    (hlarge : 10000000 < elements.length * times.toInt.toNat) :
    binary .mul value (.integer times) =
      .error (.repetitionTooLong elements.length times.toInt.toNat) := by
  cases value with
  | list items =>
    cases helements
    exact congrArg (Except.map Value.list) (repeated_eq_error hlarge)
  | string text | safe text =>
    cases helements
    rw [List.length_map] at hlarge ⊢
    exact congrArg (Except.map fun chars => Value.string (String.ofList chars))
      (repeated_eq_error hlarge)
  | _ => cases helements

theorem add_integers {first second : Int64} {sum : Value}
    (hsum : binary .add (.integer first) (.integer second) = .ok sum) :
    ∃ times : Int64, sum = .integer times ∧ times.toInt = first.toInt + second.toInt := by
  change fitting .add (Integer.ofInt? (first.toInt + second.toInt)) = .ok sum at hsum
  cases hfits : Integer.ofInt? (first.toInt + second.toInt) with
  | none =>
    rw [hfits] at hsum
    cases hsum
  | some times =>
    rw [hfits] at hsum
    cases hsum
    exact ⟨times, rfl, Integer.toInt_of_ofInt? hfits⟩

/-- A product with a sum is the sum of the products. -/
theorem product_add (helements : value.elements? = some elements) {first second times : Int64}
    (hfirst : 0 ≤ first.toInt) (hsecond : 0 ≤ second.toInt)
    (hsum : times.toInt = first.toInt + second.toInt) {product : Value}
    (hproduct : binary .mul value (.integer times) = .ok product) :
    ∃ front back, binary .mul value (.integer first) = .ok front ∧
      binary .mul value (.integer second) = .ok back ∧ binary .add front back = .ok product := by
  cases value with
  | list items =>
    obtain ⟨out, hout, rfl⟩ := exists_of_map_eq_ok (f := Value.list) hproduct
    obtain ⟨front, back, hfront, hback, rfl⟩ := repeated_add hfirst hsecond hsum hout
    exact ⟨_, _, congrArg (Except.map Value.list) hfront, congrArg (Except.map Value.list) hback, rfl⟩
  | string text | safe text =>
    obtain ⟨out, hout, rfl⟩ :=
      exists_of_map_eq_ok (f := fun chars => Value.string (String.ofList chars)) hproduct
    obtain ⟨front, back, hfront, hback, rfl⟩ := repeated_add hfirst hsecond hsum hout
    exact ⟨_, _, congrArg (Except.map fun chars => Value.string (String.ofList chars)) hfront,
      congrArg (Except.map fun chars => Value.string (String.ofList chars)) hback,
      add_texts String.toList_ofList.symm⟩
  | _ => cases helements

/-- A list or a text times an integer is the same on either side.  Of an empty one, and of zero or
fewer times, the product is empty.  Otherwise, if the exact number of its elements is at most ten
millions, the product has the elements of the sequence over and over again, and if it is more there is
none.  A product with a sum of integers that are not negative is the sum of the two products. -/
theorem repetition_is_exact (helements : value.elements? = some elements) :
    let length : ℤ := elements.length
    (∀ times, binary .mul value (.integer times) = binary .mul (.integer times) value) ∧
    (∀ times : Int64, times.toInt ≤ 0 ∨ elements = [] →
      ∃ product, binary .mul value (.integer times) = .ok product ∧ product.type = value.type ∧
        product.plain = product ∧ product.elements? = some []) ∧
    (∀ times : Int64, 0 < times.toInt → elements ≠ [] →
      if length * times.toInt ≤ 10000000 then
        ∃ product all, binary .mul value (.integer times) = .ok product ∧
          product.type = value.type ∧ product.plain = product ∧ product.elements? = some all ∧
          all.length = length * times.toInt ∧
          ∀ place < all.length, all[place]? = elements[place % elements.length]?
      else
        binary .mul value (.integer times) =
          .error (.repetitionTooLong elements.length times.toInt.toNat)) ∧
    ∀ first second : Int64, 0 ≤ first.toInt → 0 ≤ second.toInt →
      ∀ product,
        (do binary .mul value (← binary .add (.integer first) (.integer second))) = .ok product →
        (do binary .add (← binary .mul value (.integer first))
              (← binary .mul value (.integer second))) = .ok product := by
  intro length
  refine ⟨mul_comm_of_elements helements, fun times hempty => ?_, fun times hpositive hne => ?_,
    fun first second hfirst hsecond product hproduct => ?_⟩
  · have hcopies : copies elements times.toInt.toNat = [] := copies_eq_nil (hempty.imp_left (by omega))
    have hlength := length_copies elements times.toInt.toNat
    rw [hcopies, List.length_nil] at hlength
    obtain ⟨product, hproduct, htype, hplain, hall⟩ :=
      exists_product helements times (by omega)
    exact ⟨product, hproduct, htype, hplain, hcopies ▸ hall⟩
  · have hcount : (times.toInt.toNat : ℤ) = times.toInt := Int.toNat_of_nonneg hpositive.le
    have hexact : ((elements.length * times.toInt.toNat : ℕ) : ℤ) = length * times.toInt := by
      rw [Nat.cast_mul, hcount]
    split
    · obtain ⟨product, hproduct, htype, hplain, hall⟩ :=
        exists_product helements times (by omega)
      refine ⟨product, _, hproduct, htype, hplain, hall, ?_, fun place hplace => ?_⟩
      · rw [length_copies, hexact]
      · rw [length_copies] at hplace
        exact getElem?_copies hplace
    · exact product_eq_error helements (by omega)
  · cases hsum : binary .add (.integer first) (.integer second) with
    | error fault =>
      rw [hsum] at hproduct
      cases hproduct
    | ok sum =>
      obtain ⟨times, rfl, htimes⟩ := add_integers hsum
      rw [hsum] at hproduct
      obtain ⟨front, back, hfront, hback, hwhole⟩ :=
        product_add helements hfirst hsecond htimes hproduct
      rw [hfront, hback]
      exact hwhole

/-- A safe text of two characters: three times it, five millions of times it and once more, and its
product with one and two. -/
theorem repetition_is_exact_safe :
    let value := Value.safe "ab"
    (∃ product all, binary .mul (.integer 3) value = .ok product ∧
      product.elements? = some all ∧ all.length = 6 ∧ all[3]? = some (.string "b")) ∧
    binary .mul value (.integer 5000001) = .error (.repetitionTooLong 2 5000001) ∧
    (do binary .add (← binary .mul value (.integer 1)) (← binary .mul value (.integer 2))) =
      .ok (.string "ababab") := by
  intro value
  have helements : value.elements? = some [.string "a", .string "b"] := rfl
  obtain ⟨hcomm, -, hproduct, hadd⟩ := repetition_is_exact helements
  refine ⟨?_, ?_, hadd 1 2 (by decide) (by decide) _ rfl⟩
  · have hthree := hproduct 3 (by decide) (by decide)
    rw [if_pos (by decide)] at hthree
    obtain ⟨product, all, hvalue, -, -, hall, hlength, hplace⟩ := hthree
    have hsix : all.length = 6 := Nat.cast_injective (R := ℤ) hlength
    refine ⟨product, all, hcomm 3 ▸ hvalue, hall, hsix, ?_⟩
    rw [hplace 3 (by omega)]
    rfl
  · have hmany := hproduct 5000001 (by decide) (by decide)
    rwa [if_neg (by decide)] at hmany

end Operator

end Stencil
