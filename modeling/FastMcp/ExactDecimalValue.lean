import FastMcp.ExactDecimal

/-! # What an exact decimal stands for

Reading a JSON number within the bounds keeps the rational it denotes.
-/

namespace FastMcp.JsonSchema

open ByteText DecimalDigits JsonNumbers IntegerText

theorem toDigit_digit {digit : Char} (decimal : isAsciiDigit digit = true) :
    toDigit 10 digit = some (digit.toNat - '0'.toNat) := by
  have bounds := decimal
  rw [isAsciiDigit, Bool.and_eq_true, decide_eq_true_eq, decide_eq_true_eq] at bounds
  have range := (isAsciiDigit_iff digit).mp decimal
  have small : digit.toNat - '0'.toNat < 10 := by
    have zero : '0'.toNat = 48 := rfl
    have nine : '9'.toNat = 57 := rfl
    omega
  simp only [toDigit, if_pos bounds, if_pos small]

/-- The standard integer parser agrees with the value of a digit string. -/
theorem parseDigits_digits {text : List Char} (digits : ∀ digit ∈ text, isAsciiDigit digit = true) :
    parseDigits 10 text = some (value (digitsOf text)) := by
  induction text using List.reverseRecOn with
  | nil => rfl
  | append_singleton text digit ih =>
    obtain ⟨front, last⟩ := List.forall_mem_append.mp digits
    have step := ih front
    rw [parseDigits] at step ⊢
    rw [List.foldl_append, step]
    have snoc : digitsOf (text ++ [digit]) = digitsOf text ++ [digit.toNat - '0'.toNat] := by
      simp [digitsOf]
    simp [toDigit_digit (last digit List.mem_cons_self), snoc, value_snoc, Nat.mul_comm]

/-- What the integer parser returns for digits behind a sign. -/
theorem parseSigned_split {text digits : List Char} (width : Nat) {negative : Bool}
    (isDigits : IsDigits digits) (split : splitSign text = (negative, digits)) :
    parseSigned 10 width text =
      if negative then
        if value (digitsOf digits) ≤ 2 ^ (width - 1) then some (-(value (digitsOf digits) : Int))
        else none
      else
        if value (digitsOf digits) < 2 ^ (width - 1) then some (value (digitsOf digits) : Int)
        else none := by
  have nonempty : digits.isEmpty = false := by simpa using isDigits.nonempty
  simp [parseSigned, split, nonempty, parseDigits_digits isDigits.digits]

theorem splitSign_digits {text : List Char} (isDigits : IsDigits text) :
    splitSign text = (false, text) := by
  cases text with
  | nil => exact absurd rfl isDigits.nonempty
  | cons first text =>
    have digit := isDigits.digits first List.mem_cons_self
    rw [splitSign.eq_def]
    split
    · rename_i rest equal
      exact absurd (List.cons.inj equal).1 (isAsciiDigit_ne digit (by decide))
    · rename_i rest equal
      exact absurd (List.cons.inj equal).1 (isAsciiDigit_ne digit (by decide))
    · rfl

theorem splitSign_exponent (text : ExponentText) :
    splitSign text.text.tail = (decide (text.sign = some .minus), text.digits) := by
  obtain ⟨upperCase, sign, digits, isDigits⟩ := text
  rcases sign with _ | _ | _
  · exact splitSign_digits isDigits
  · rfl
  · rfl

theorem parseSigned_exponent (text : ExponentText) {exponent : Int}
    (parsed : parseSigned 10 64 text.text.tail = some exponent) : exponent = text.value := by
  rw [parseSigned_split 64 text.isDigits (splitSign_exponent text)] at parsed
  rw [ExponentText.value]
  grind

theorem digit_not_marker {digit : Char} (decimal : isAsciiDigit digit = true) :
    (digit != 'e' && digit != 'E') = true ∧ (digit != '.') = true ∧ digit ≠ '-' := by
  have notLower : digit ≠ 'e' := isAsciiDigit_ne decimal (by decide)
  have notUpper : digit ≠ 'E' := isAsciiDigit_ne decimal (by decide)
  have notPoint : digit ≠ '.' := isAsciiDigit_ne decimal (by decide)
  have notMinus : digit ≠ '-' := isAsciiDigit_ne decimal (by decide)
  simp [notLower, notUpper, notPoint, notMinus]

namespace NumberText

variable (number : NumberLexeme)

/-- The text before the exponent. -/
def mantissa : List Char :=
  number.whole ++ number.fractionText

theorem mantissa_noExponent :
    ∀ character ∈ mantissa number, (character != 'e' && character != 'E') = true := by
  have fraction : ∀ character ∈ number.fractionText, (character != 'e' && character != 'E') = true := by
    unfold NumberLexeme.fractionText
    cases fractionEq : number.fraction with
    | none => simp
    | some digits =>
      refine List.forall_mem_cons.mpr ⟨by decide, fun character member => ?_⟩
      exact (digit_not_marker ((number.fractionDigits digits fractionEq).digits character member)).1
  refine List.forall_mem_append.mpr ⟨fun character member => ?_, fraction⟩
  exact (digit_not_marker (number.wholeDigits.digits character member)).1

theorem splitFraction_mantissa :
    splitFraction (mantissa number) = (number.whole, number.fraction.getD []) := by
  have whole : ∀ character ∈ number.whole, (character != '.') = true :=
    fun character member => (digit_not_marker (number.wholeDigits.digits character member)).2.1
  unfold splitFraction mantissa NumberLexeme.fractionText
  rw [List.dropWhile_append_of_pos whole, List.takeWhile_append_of_pos whole]
  cases number.fraction with
  | none => simp
  | some digits => simp

/-- The first marker of an exponent is its own. -/
theorem split_marker :
    (mantissa number ++ (number.exponent.map ExponentText.text).getD []).dropWhile
        (fun character => character != 'e' && character != 'E') =
      (number.exponent.map ExponentText.text).getD [] ∧
    (mantissa number ++ (number.exponent.map ExponentText.text).getD []).takeWhile
        (fun character => character != 'e' && character != 'E') = mantissa number := by
  have plain := mantissa_noExponent number
  rw [List.dropWhile_append_of_pos plain, List.takeWhile_append_of_pos plain]
  cases number.exponent with
  | none => simp
  | some text => cases upperCase : text.upperCase <;> simp [ExponentText.text, upperCase]

theorem splitExponent_text {split : List Char × Int}
    (parsed : splitExponent (mantissa number ++ (number.exponent.map ExponentText.text).getD []) =
      some split) :
    split = (mantissa number, (number.exponent.map ExponentText.value).getD 0) := by
  rw [splitExponent, (split_marker number).1, (split_marker number).2] at parsed
  cases exponentEq : number.exponent with
  | none =>
    simp only [exponentEq, Option.map_none, Option.getD_none, List.append_nil,
      Option.some.injEq] at parsed
    exact parsed.symm
  | some text =>
    simp only [exponentEq, Option.map_some, Option.getD_some, ExponentText.text] at parsed
    obtain ⟨exponent, parsedExponent, bounded⟩ := Option.bind_eq_some_iff.mp parsed
    have valueEq := parseSigned_exponent text parsedExponent
    rw [(Option.ite_none_left_eq_some.mp bounded).2.symm |> Option.some.inj, valueEq]
    rfl

theorem text_sign : decide (number.text.head? = some '-') = number.negative ∧
    (if number.text.head? = some '-' then number.text.tail else number.text) =
      mantissa number ++ (number.exponent.map ExponentText.text).getD [] := by
  cases sign : number.negative with
  | true => simp [NumberLexeme.text, sign, mantissa]
  | false =>
    obtain ⟨first, rest, wholeEq⟩ := List.exists_cons_of_ne_nil number.wholeDigits.nonempty
    have digit := number.wholeDigits.digits first (by rw [wholeEq]; exact List.mem_cons_self)
    have notMinus := (digit_not_marker digit).2.2
    have textEq : number.text =
        mantissa number ++ (number.exponent.map ExponentText.text).getD [] := by
      simp [NumberLexeme.text, sign, mantissa]
    have head : number.text.head? ≠ some '-' := by
      rw [textEq, mantissa, wholeEq]
      simpa using notMinus
    exact ⟨decide_eq_false head, by rw [if_neg head, textEq]⟩

end NumberText

namespace ExactDecimal

theorem isZero_iff (number : ExactDecimal) :
    number.isZero = true ↔ DecimalDigits.value number.digits = 0 := by
  rcases number.canonical with ⟨-, zeroDigits, -⟩ | ⟨nonempty, trimmed⟩
  · simp [isZero, zeroDigits, DecimalDigits.value]
  · rw [trimmed.value_eq_zero]
    have notZero : number.isZero = false := decide_eq_false trimmed
    simp [notZero, nonempty]

theorem ofParts_value {negative : Bool} {whole fraction : List Char} {exponent : Int}
    {number : ExactDecimal} (built : ofParts negative whole fraction exponent = some number) :
    number.value = (if negative then -1 else 1) *
      (DecimalDigits.value (digitsOf (whole ++ fraction)) : ℚ) * 10 ^ (exponent - fraction.length) := by
  unfold ofParts at built
  split at built
  · split at built
    · contradiction
    split at built
    · rename_i insignificant
      cases built
      rw [← value_trim (digitsOf (whole ++ fraction)), insignificant]
      simp [value, zero, DecimalDigits.value]
    split at built
    · contradiction
    split at built
    · contradiction
    cases built
    rw [value, value_trim]
  · contradiction

/-- Reading a number keeps what it denotes. -/
theorem parse_value {number : NumberLexeme} {decimal : ExactDecimal}
    (parsed : fromNumber number = some decimal) : decimal.value = number.value := by
  unfold fromNumber parse at parsed
  split at parsed
  · contradiction
  obtain ⟨signEq, unsignedEq⟩ := NumberText.text_sign number
  rw [String.toList_ofList, signEq, unsignedEq] at parsed
  obtain ⟨split, splitOk, built⟩ := Option.bind_eq_some_iff.mp parsed
  rw [NumberText.splitExponent_text number splitOk, NumberText.splitFraction_mantissa] at built
  exact ofParts_value built

end ExactDecimal

end FastMcp.JsonSchema
