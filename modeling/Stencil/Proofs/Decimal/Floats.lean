import Stencil.Proofs.Decimal.Integers
import Stencil.Proofs.Decimal.Shortest
import Stencil.Proofs.Words.Texts

/-!
# Doubles are read as they were written

The text of a double is a numeral with a fraction, a power of ten or both.  Such a text is one word,
and its number lies in the rounding range of the double, so the double is read from it.
-/

namespace Stencil.Decimal

/-! ## Numerals that start with a digit -/

section

variable {first : Char} {rest : List Char} (hfirst : first.isDigit)
include hfirst

theorem readUnsignedFloat_of_isDigit :
    readUnsignedFloat (first :: rest) = readFiniteFloat (first :: rest) := by
  have hlower : first.toLower = first := by
    rw [Text.isDigit_iff] at hfirst
    refine dif_neg fun hupper => ?_
    have hletter : 65 ≤ first.toNat := UInt32.le_iff_toNat_le.1 hupper.1
    omega
  have hname (head : Char) (tail : List Char) (hhead : head.isDigit = false) :
      ¬ (first :: rest).map Char.toLower = head :: tail := by
    intro hmap
    rw [List.map_cons, hlower] at hmap
    exact cons_ne_of_isDigit hfirst hhead hmap
  have hinf := hname 'i' ['n', 'f'] (by decide)
  have hinfinity := hname 'i' ['n', 'f', 'i', 'n', 'i', 't', 'y'] (by decide)
  have hnan := hname 'n' ['a', 'n'] (by decide)
  simp only [readUnsignedFloat, hinf, hinfinity, hnan, or_self, if_false]

/-- Such a numeral carries no sign and names no special value. -/
theorem readFloat_of_isDigit {text : String} (htext : text.toList = first :: rest) :
    readFloat text = (readFiniteFloat (first :: rest)).elim (.error .invalid) .ok := by
  have hne : text.isEmpty = false := by
    rw [Bool.eq_false_iff]
    intro hempty
    rw [String.isEmpty_iff] at hempty
    subst hempty
    cases htext
  unfold readFloat
  rw [htext]
  split
  · next hminus => exact absurd hminus (cons_ne_of_isDigit hfirst (by decide))
  · next hplus => exact absurd hplus (cons_ne_of_isDigit hfirst (by decide))
  · rw [readUnsignedFloat_of_isDigit hfirst, hne]
    cases readFiniteFloat (first :: rest) <;> rfl

end

/-- The parts of a numeral: the digits before and after the point, and the power of ten. -/
structure Parts where
  whole : List Char
  fraction : List Char
  power : Option Int

namespace Parts

def pointed (fraction : List Char) : List Char :=
  if fraction.isEmpty then [] else '.' :: fraction

def marked : Option Int → List Char
  | none => []
  | some power => 'e' :: (toString power).toList

def chars (parts : Parts) : List Char :=
  parts.whole ++ (pointed parts.fraction ++ marked parts.power)

/-- All digits as one whole number. -/
def mantissa (parts : Parts) : Nat :=
  naturalOfDigits (parts.whole ++ parts.fraction)

/-- The power of ten by which the mantissa is multiplied. -/
def exponent (parts : Parts) : Int :=
  parts.power.getD 0 - parts.fraction.length

/-- There is a digit, and the numeral does not look like a whole number. -/
structure IsFloat (parts : Parts) : Prop where
  whole_ne : parts.whole ≠ []
  whole_digits : ∀ char ∈ parts.whole, char.isDigit
  fraction_digits : ∀ char ∈ parts.fraction, char.isDigit
  not_whole : parts.fraction ≠ [] ∨ parts.power ≠ none

variable {parts : Parts}

theorem head_marked (power : Option Int) :
    ∀ char ∈ (marked power).head?, char = 'e' := by
  cases power with
  | none => simp [marked]
  | some power => simp [marked]

/-- Behind the digits of a float stands a point or the mark of its exponent, or nothing. -/
theorem head_pointed (fraction : List Char) (power : Option Int) :
    ∀ char ∈ (pointed fraction ++ marked power).head?, char = '.' ∨ char = 'e' := by
  cases fraction with
  | nil => exact fun char hmem => .inr (head_marked power char hmem)
  | cons digit fraction => simp [pointed]

theorem not_isDigit_of_mark {char : Char} (hmark : char = '.' ∨ char = 'e') :
    char.isDigit = false := by
  rcases hmark with rfl | rfl <;> decide

/-- The power of ten as a sign and digits. -/
theorem toList_toString (power : Int) :
    (toString power).toList =
      (if power < 0 then ['-'] else []) ++ Nat.toDigits 10 power.natAbs := by
  cases power with
  | ofNat power =>
    exact Nat.toList_repr
  | negSucc power =>
    have hlist : (toString (Int.negSucc power)).toList = '-' :: (Nat.repr (power + 1)).toList := by
      change ("-" ++ Nat.repr (power + 1)).toList = _
      rw [String.toList_append]
      rfl
    rw [hlist, if_pos (Int.negSucc_lt_zero power), Nat.toList_repr]
    rfl

theorem exponentDigits_toString (power : Int) :
    Lexeme.exponentDigits (toString power).toList = (toString power).toList := by
  obtain ⟨first, rest, hdigits, hfirst, hrest⟩ := toDigits_eq_cons power.natAbs
  have htake : rest.takeWhile Char.isDigit = rest := List.takeWhile_eq_self_iff.2 hrest
  rw [toList_toString, hdigits]
  split
  · simp [Lexeme.exponentDigits, hfirst, htake]
  · simp [Lexeme.exponentDigits, hfirst, htake]

theorem exponentPart_marked (power : Option Int) :
    Lexeme.exponentPart (marked power) = marked power := by
  cases power with
  | none => rfl
  | some power =>
    obtain ⟨first, rest, hdigits⟩ : ∃ first rest, (toString power).toList = first :: rest := by
      obtain ⟨first, rest, hdigits, -⟩ := toDigits_eq_cons power.natAbs
      rw [toList_toString, hdigits]
      split
      · exact ⟨_, _, rfl⟩
      · exact ⟨_, _, rfl⟩
    have hpower := exponentDigits_toString power
    rw [hdigits] at hpower
    simp only [marked, hdigits, Lexeme.exponentPart, hpower, true_or, if_true]

/-- The scanner takes the point and the digits behind it as the fraction. -/
theorem fractionPart_pointed {fraction : List Char} (hdigits : ∀ char ∈ fraction, char.isDigit)
    (power : Option Int) :
    Lexeme.fractionPart (pointed fraction ++ marked power) = pointed fraction := by
  have hmark (char : Char) (hmem : char ∈ (marked power).head?) : char.isDigit = false :=
    not_isDigit_of_mark (.inr (head_marked power char hmem))
  cases fraction with
  | nil =>
    cases power with
    | none => rfl
    | some power => rfl
  | cons digit fraction =>
    rw [List.forall_mem_cons] at hdigits
    have htake : (fraction ++ marked power).takeWhile Char.isDigit = fraction := by
      rw [Lexeme.takeWhile_append_of_head fraction hmark, List.takeWhile_eq_self_iff.2 hdigits.2]
    simp [pointed, Lexeme.fractionPart, hdigits.1, htake]

/-- The text of the parts is one token, since no digit can go on behind any of them. -/
theorem isWord (hfloat : parts.IsFloat) : IsWord false .float (String.ofList parts.chars) := by
  obtain ⟨whole, fraction, power⟩ := parts
  obtain ⟨hne, hwhole, hfraction, hmarks⟩ := hfloat
  obtain ⟨first, tail, rfl⟩ := List.exists_cons_of_ne_nil hne
  rw [List.forall_mem_cons] at hwhole
  refine ⟨first, tail ++ (pointed fraction ++ marked power), String.toList_ofList, ?_, ?_⟩
  · simp [Text.not_isBlank_of_isDigit hwhole.1]
  · have htake : (tail ++ (pointed fraction ++ marked power)).takeWhile Char.isDigit = tail := by
      rw [Lexeme.takeWhile_append_of_head tail fun char hmem =>
        not_isDigit_of_mark (head_pointed fraction power char hmem),
        List.takeWhile_eq_self_iff.2 hwhole.2]
    have hkind : ((pointed fraction).isEmpty && (marked power).isEmpty) = false := by
      rcases hmarks with hfraction | hpower
      · simp [pointed, hfraction]
      · cases power with
        | none => exact absurd rfl hpower
        | some power => simp [marked]
    rw [Lexeme.read_of_isDigit hwhole.1]
    simp only [Lexeme.number, htake, List.drop_left, fractionPart_pointed hfraction,
      exponentPart_marked, hkind, Bool.false_eq_true, if_false, List.append_assoc]

/-! ## Reading -/

theorem readExponent_toString (power : Int) :
    readExponent (toString power).toList = some power := by
  obtain ⟨first, rest, hdigits, hfirst, hrest⟩ := toDigits_eq_cons power.natAbs
  have hall : (first :: rest).all Char.isDigit = true := by
    rw [List.all_eq_true]
    exact List.forall_mem_cons.2 ⟨hfirst, hrest⟩
  have hvalue : naturalOfDigits (first :: rest) = power.natAbs := by
    rw [naturalOfDigits_eq, ← hdigits, Nat.ofDigitChars_ten_toDigits]
  rw [toList_toString, hdigits]
  by_cases hneg : power < 0
  · have hpower : -(power.natAbs : Int) = power := by omega
    simp only [readExponent, hneg, if_true, List.cons_append, List.nil_append, hall, hvalue,
      List.isEmpty_cons, Bool.not_false, Bool.and_self]
    exact congrArg some hpower
  · have hpower : (power.natAbs : Int) = power := by omega
    rw [if_neg hneg, List.nil_append]
    unfold readExponent
    split
    · next hminus => exact absurd hminus (cons_ne_of_isDigit hfirst (by decide))
    · next hplus => exact absurd hplus (cons_ne_of_isDigit hfirst (by decide))
    · simp only [hall, hvalue, List.isEmpty_cons, Bool.not_false, Bool.and_self, if_true]
      exact congrArg some hpower

theorem spanDigits_append {digits rest : List Char} (hdigits : ∀ char ∈ digits, char.isDigit)
    (hhead : ∀ char ∈ rest.head?, char.isDigit = false) :
    spanDigits (digits ++ rest) = (digits, rest) := by
  have htake : (digits ++ rest).takeWhile Char.isDigit = digits := by
    rw [Lexeme.takeWhile_append_of_head digits hhead, List.takeWhile_eq_self_iff.2 hdigits]
  have hsplit := List.takeWhile_append_dropWhile (p := Char.isDigit) (l := digits ++ rest)
  rw [htake] at hsplit
  rw [spanDigits, htake, List.append_cancel_left hsplit]

/-- The parts are read back as the digits and the power of ten that they stand for. -/
theorem readFiniteFloat_chars (hfloat : parts.IsFloat) :
    readFiniteFloat parts.chars = some (nearestDouble parts.mantissa parts.exponent) := by
  obtain ⟨whole, fraction, power⟩ := parts
  obtain ⟨hne, hwhole, hfraction, -⟩ := hfloat
  have hfirst : spanDigits (whole ++ (pointed fraction ++ marked power)) =
      (whole, pointed fraction ++ marked power) :=
    spanDigits_append hwhole fun char hmem =>
      not_isDigit_of_mark (head_pointed fraction power char hmem)
  have hsecond : spanDigits (fraction ++ marked power) = (fraction, marked power) :=
    spanDigits_append hfraction fun char hmem =>
      not_isDigit_of_mark (.inr (head_marked power char hmem))
  have hempty : whole.isEmpty = false := List.isEmpty_eq_false_iff.2 hne
  simp only [readFiniteFloat, chars, hfirst]
  cases fraction with
  | nil =>
    cases power with
    | none =>
      simp only [pointed, marked, List.isEmpty_nil, if_true, List.append_nil, hempty,
        Bool.false_and, Bool.false_eq_true, if_false, Option.map_some, mantissa, exponent]
      rfl
    | some power =>
      simp only [pointed, marked, List.isEmpty_nil, if_true, List.nil_append, hempty,
        Bool.false_and, Bool.false_eq_true, if_false, mantissa, exponent]
      change Option.map _ (if 'e' = 'e' ∨ 'e' = 'E' then readExponent (toString power).toList
        else none) = _
      rw [if_pos (.inl rfl), readExponent_toString]
      rfl
  | cons digit fraction =>
    simp only [pointed, List.isEmpty_cons, Bool.false_eq_true, if_false, hsecond,
      List.cons_append] at hsecond ⊢
    simp only [hempty, Bool.false_and, Bool.false_eq_true, if_false]
    cases power with
    | none =>
      simp only [marked, Option.map_some]
      rfl
    | some power =>
      simp only [marked, true_or, if_true, readExponent_toString, Option.map_some]
      rfl

theorem readFloat_chars (hfloat : parts.IsFloat) :
    readFloat (String.ofList parts.chars) = .ok (nearestDouble parts.mantissa parts.exponent) := by
  obtain ⟨first, rest, hchars, hfirst⟩ : ∃ first rest, parts.chars = first :: rest ∧
      first.isDigit := by
    obtain ⟨first, tail, hwhole⟩ := List.exists_cons_of_ne_nil hfloat.whole_ne
    exact ⟨first, _, by rw [chars, hwhole]; rfl, hfloat.whole_digits first (by simp [hwhole])⟩
  rw [readFloat_of_isDigit hfirst (String.toList_ofList.trans hchars), ← hchars,
    readFiniteFloat_chars hfloat]
  rfl

end Parts

/-! ## Writing -/

theorem naturalOfDigits_zeros_append (places : Nat) (digits : List Char) :
    naturalOfDigits (List.replicate places '0' ++ digits) = naturalOfDigits digits := by
  simp only [naturalOfDigits_eq, Nat.ofDigitChars_append, Nat.ofDigitChars_replicate_zero, mul_zero]

/-- Zeros behind the digits are powers of ten. -/
theorem naturalOfDigits_append_zeros (places : Nat) (digits : List Char) :
    naturalOfDigits (digits ++ List.replicate places '0') =
      10 ^ places * naturalOfDigits digits := by
  simp only [naturalOfDigits_eq, Nat.ofDigitChars_append, Nat.ofDigitChars_replicate_zero]

theorem isDigit_of_mem_zeros {places : Nat} :
    ∀ char ∈ List.replicate places '0', char.isDigit := by
  intro char hmem
  rw [List.eq_of_mem_replicate hmem]
  decide

namespace Parts

variable {digits : List Char} {point : Int}

/-- The point stands before all digits. -/
theorem positional_of_nonpos (hsmall : point ≤ 0) (hne : digits ≠ []) :
    positional digits point =
      (⟨['0'], List.replicate (-point).toNat '0' ++ digits, none⟩ : Parts).chars := by
  simp [positional, hsmall, chars, pointed, marked, hne]

/-- The point stands behind all digits. -/
theorem positional_of_large (hpositive : 0 < point) (hlarge : digits.length ≤ point.toNat) :
    positional digits point =
      (⟨digits ++ List.replicate (point.toNat - digits.length) '0', ['0'], none⟩ :
        Parts).chars := by
  simp [positional, hpositive, hlarge, chars, pointed, marked]

theorem positional_of_between (hpositive : 0 < point) (hsmall : point.toNat < digits.length) :
    positional digits point =
      (⟨digits.take point.toNat, digits.drop point.toNat, none⟩ : Parts).chars := by
  have hdrop : digits.drop point.toNat ≠ [] := by simpa using hsmall
  simp [positional, not_le.2 hpositive, not_le.2 hsmall, chars, pointed, marked, hdrop]

/-- Scientific notation has one digit before the point. -/
theorem scientific_eq : scientific digits point =
    (⟨digits.take 1, digits.drop 1, some (point - 1)⟩ : Parts).chars := by
  simp only [scientific, chars, pointed, marked, List.append_assoc, List.cons_append,
    List.nil_append]

/-- The parts look like a double and have the value of the digits times a power of ten. -/
structure Represents (parts : Parts) (digits : List Char) (exponent : Int) : Prop where
  isFloat : parts.IsFloat
  mantissa_pos : 0 < parts.mantissa
  value_eq : (parts.mantissa * 10 ^ parts.exponent : ℚ) = naturalOfDigits digits * 10 ^ exponent

section Represents

variable {exponent : Int} (hdigits : ∀ char ∈ digits, char.isDigit) (hne : digits ≠ [])
  (hpos : 0 < naturalOfDigits digits)
include hdigits hne hpos

/-- Zeros between the point and the digits change the place and not the value. -/
theorem represents_of_nonpos (hsmall : digits.length + exponent ≤ 0) :
    Represents ⟨['0'], List.replicate (-(digits.length + exponent)).toNat '0' ++ digits, none⟩
      digits exponent := by
  have hmantissa : naturalOfDigits (['0'] ++
      (List.replicate (-(digits.length + exponent)).toNat '0' ++ digits)) =
      naturalOfDigits digits :=
    (naturalOfDigits_zeros_append 1 _).trans (naturalOfDigits_zeros_append _ _)
  refine ⟨⟨by simp, by simp, ?_, .inl (by simp [hne])⟩, by rwa [mantissa, hmantissa], ?_⟩
  · exact List.forall_mem_append.2 ⟨isDigit_of_mem_zeros, hdigits⟩
  · simp only [mantissa, hmantissa, Parts.exponent, List.length_append, List.length_replicate,
      Option.getD_none]
    congr 2
    omega

/-- Zeros behind the digits take the place of an exponent. -/
theorem represents_of_large (hpositive : 0 < digits.length + exponent)
    (hlarge : digits.length ≤ (digits.length + exponent).toNat) :
    Represents
      ⟨digits ++ List.replicate ((digits.length + exponent).toNat - digits.length) '0', ['0'], none⟩
      digits exponent := by
  have hzeros : (digits.length + exponent).toNat - digits.length = exponent.toNat := by omega
  have hmantissa : naturalOfDigits (digits ++
      List.replicate ((digits.length + exponent).toNat - digits.length) '0' ++ ['0']) =
      10 * (10 ^ exponent.toNat * naturalOfDigits digits) := by
    refine (naturalOfDigits_append_zeros 1 _).trans ?_
    rw [naturalOfDigits_append_zeros, hzeros, pow_one]
  refine ⟨⟨by simp [hne], ?_, by simp, .inl (by simp)⟩, ?_, ?_⟩
  · exact List.forall_mem_append.2 ⟨hdigits, isDigit_of_mem_zeros⟩
  · rw [mantissa, hmantissa]
    positivity
  · have hexponent : (10 : ℚ) ^ exponent = 10 ^ exponent.toNat := by
      rw [← zpow_natCast, Int.toNat_of_nonneg (by omega)]
    simp only [mantissa, hmantissa, Parts.exponent, List.length_singleton, Option.getD_none,
      hexponent]
    push_cast
    norm_num
    ring

/-- The point stands behind the first digits, and a power of ten may make up for that. -/
theorem represents_split {places : Nat} {power : Option Int} (hplaces : 0 < places)
    (hmarked : places < digits.length ∨ power ≠ none)
    (hpower : power.getD 0 - (digits.length - places : Nat) = exponent) :
    Represents ⟨digits.take places, digits.drop places, power⟩ digits exponent := by
  refine ⟨⟨by simp [hne, hplaces.ne'], ?_, ?_, hmarked.imp_left (by simp)⟩, ?_, ?_⟩
  · exact fun char hmem => hdigits char (List.mem_of_mem_take hmem)
  · exact fun char hmem => hdigits char (List.mem_of_mem_drop hmem)
  · rwa [mantissa, List.take_append_drop]
  · rw [mantissa, List.take_append_drop, Parts.exponent, List.length_drop, hpower]

end Represents

end Parts

namespace Numeral

/-- However a numeral is written, its text has parts that stand for its value. -/
theorem exists_parts {numeral : Numeral} (hpos : 0 < numeral.digits) :
    ∃ parts : Parts, parts.IsFloat ∧ numeral.text = parts.chars ∧ 0 < parts.mantissa ∧
      (parts.mantissa * 10 ^ parts.exponent : ℚ) = numeral.value := by
  have hdigits : ∀ char ∈ Nat.toDigits 10 numeral.digits, char.isDigit := isDigit_of_mem_toDigits
  have hne : Nat.toDigits 10 numeral.digits ≠ [] := Nat.toDigits_ne_nil
  have hvalue : naturalOfDigits (Nat.toDigits 10 numeral.digits) = numeral.digits := by
    rw [naturalOfDigits_eq, Nat.ofDigitChars_ten_toDigits]
  suffices hparts : ∃ parts : Parts, numeral.text = parts.chars ∧
      parts.Represents (Nat.toDigits 10 numeral.digits) numeral.exponent by
    obtain ⟨parts, htext, hfloat, hmantissa, hnumber⟩ := hparts
    exact ⟨parts, hfloat, htext, hmantissa, by rw [hnumber, hvalue, value]⟩
  rw [← hvalue] at hpos
  rw [text]
  generalize Nat.toDigits 10 numeral.digits = digits at hdigits hne hpos ⊢
  by_cases hpositional : isPositional (digits.length + numeral.exponent)
  · simp only [if_pos hpositional]
    rcases le_or_gt (digits.length + numeral.exponent) 0 with hsmall | hpositive
    · exact ⟨_, Parts.positional_of_nonpos hsmall hne,
        Parts.represents_of_nonpos hdigits hne hpos hsmall⟩
    · rcases le_or_gt digits.length (digits.length + numeral.exponent).toNat with hlarge | hbetween
      · exact ⟨_, Parts.positional_of_large hpositive hlarge,
          Parts.represents_of_large hdigits hne hpos hpositive hlarge⟩
      · refine ⟨_, Parts.positional_of_between hpositive hbetween,
          Parts.represents_split hdigits hne hpos (by omega) (.inl hbetween) ?_⟩
        rw [Option.getD_none]
        omega
  · have hlength := List.length_pos_iff.2 hne
    simp only [if_neg hpositional]
    refine ⟨_, Parts.scientific_eq,
      Parts.represents_split hdigits hne hpos Nat.one_pos (.inr (by simp)) ?_⟩
    rw [Option.getD_some]
    omega

end Numeral

/-! ## The text of a double -/

theorem not_special_of_isFinite {value : Float} (hfinite : value.isFinite) :
    value.isNaN = false ∧ value.isInf = false := by
  have hcases (unpacked : Float.Model.UnpackedFloat) (hunpacked : unpacked.isFinite) :
      unpacked.isNaN = false ∧ unpacked.isInf = false := by
    cases unpacked with
    | infinity | notANumber => cases hunpacked
    | zero | finite => exact ⟨rfl, rfl⟩
  exact hcases _ hfinite

/-- The text of a double stands for a number to which the double is nearest. -/
theorem exists_parts_floatText {value : Float} (hfinite : value.isFinite)
    (hsign : isNegative value = false) :
    ∃ parts : Parts, parts.IsFloat ∧ floatText value = String.ofList parts.chars ∧
      nearestDouble parts.mantissa parts.exponent = value := by
  obtain ⟨hnan, hinf⟩ := not_special_of_isFinite hfinite
  simp only [floatText, hnan, hinf, hsign, Bool.false_eq_true, if_false, List.nil_append]
  rcases eq_zero_or_canonical hfinite hsign with ⟨hzero, hvalue⟩ | ⟨hcanonical, -, hvalue⟩
  · refine ⟨⟨['0'], ['0'], none⟩, ⟨by simp, by simp, by simp, by simp⟩, ?_, ?_⟩
    · rw [if_pos hzero]
      rfl
    · rw [hvalue]
      rfl
  · rw [if_neg hcanonical.pos.ne']
    have hcovers := Magnitude.covers_shortest hcanonical
    obtain ⟨parts, hfloat, htext, hpos, hnumber⟩ :=
      Numeral.exists_parts (Magnitude.pos_of_covers hcanonical hcovers)
    rw [← hnumber] at hcovers
    refine ⟨parts, hfloat, by rw [htext], ?_⟩
    rw [Magnitude.nearestDouble_of_covers hcanonical hpos hcovers]
    exact hvalue.symm

theorem isWord_floatText {value : Float} (hfinite : value.isFinite)
    (hsign : isNegative value = false) : IsWord false .float (floatText value) := by
  obtain ⟨parts, hfloat, htext, -⟩ := exists_parts_floatText hfinite hsign
  rw [htext]
  exact parts.isWord hfloat

/-- A finite double that is not negative is read back from its text. -/
theorem readFloat_floatText {value : Float} (hfinite : value.isFinite)
    (hsign : isNegative value = false) : readFloat (floatText value) = .ok value := by
  obtain ⟨parts, hfloat, htext, hvalue⟩ := exists_parts_floatText hfinite hsign
  rw [htext, parts.readFloat_chars hfloat, hvalue]

end Stencil.Decimal
