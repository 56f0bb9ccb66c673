import FastMcp.ExactDecimalValue
import FastMcp.RawJsonNumberTokens
import Std.Data.String.ToInt

/-! # Request identifiers

A request is identified by a string or by a number that denotes an integer. A
number keeps its spelling, so that a response can repeat it, and two spellings
of one integer identify one request. The scanner decides on the digits whether
a number is an integer, and it rewrites the digits to the canonical spelling.

It refuses some spellings of zero: the zeros of a coefficient are counted like
those of any other, so a zero with a small exponent does not have enough.
-/

namespace FastMcp.JsonRpc

open ByteText DecimalDigits JsonNumbers JsonSchema IntegerText RawAdmission RawJsonScanner

/-! ## The scanner -/

def maxRawJsonNumberBytes : Nat := 4 * 1024

def maxRawJsonExponent : Nat := 10000

def maxJsonrpcStringIdEncodedBytes : Nat := 256

/-- The zeros before any other digit. A decimal point between them is passed over. -/
def countZeroes : List Char → Nat
  | [] => 0
  | digit :: digits =>
    if digit = '0' then countZeroes digits + 1
    else if digit = '.' then countZeroes digits
    else 0

/-- The exponent at the end of a number, which must be all that is left. -/
def scanExponent : List Char → Option Int
  | [] => some 0
  | marker :: rest =>
    if marker = 'e' ∨ marker = 'E' then
      if skipSign rest = [] ∨ (skipSign rest).all isAsciiDigit = false then none
      else
        (parseSigned 10 64 (skipSign rest)).bind fun magnitude =>
          if magnitude ≤ maxRawJsonExponent then
            some (if rest.head? = some '-' then -magnitude else magnitude)
          else none
    else none

def isMathematicalInteger (lexeme : String) : Bool :=
  if lexeme.utf8ByteSize > maxRawJsonNumberBytes then false
  else
    let unsigned := skipMinus lexeme.toList
    match parseWhole unsigned with
    | .error _ => false
    | .ok afterWhole =>
      match parseFraction afterWhole with
      | .error _ => false
      | .ok rest =>
        let fractionDigits := afterWhole.length - rest.length - 1
        let trailingZeroes := countZeroes (unsigned.take (unsigned.length - rest.length)).reverse
        match scanExponent rest with
        | none => false
        | some exponent =>
          let scale := fractionDigits - exponent
          scale ≤ 0 || scale.toNat ≤ trailingZeroes

/-- Takes digits off the end of a coefficient, or puts zeros there. -/
def rescale (digits : List Char) (scale : Int) : List Char :=
  if scale > 0 then digits.take (digits.length - scale.toNat)
  else digits ++ List.replicate scale.natAbs '0'

/-- The coefficient and the exponent of a number without its sign. -/
def splitCoefficient (unsigned : List Char) : List Char × Int :=
  match unsigned.dropWhile fun character => character != 'e' && character != 'E' with
  | [] => (unsigned, 0)
  | _ :: exponentText =>
    (unsigned.takeWhile fun character => character != 'e' && character != 'E',
      (parseSigned 10 64 exponentText).getD 0)

/-- The decimal spelling of an integer that is spelled as a number. -/
def canonicalIntegerLexeme (lexeme : String) : String :=
  let negative := decide (lexeme.toList.head? = some '-')
  let unsigned := if lexeme.toList.head? = some '-' then lexeme.toList.tail else lexeme.toList
  let (coefficient, exponent) := splitCoefficient unsigned
  let (whole, fraction) := splitFraction coefficient
  let digits := (whole ++ fraction).dropWhile (· == '0')
  if digits = [] then "0"
  else
    let digits := rescale digits (fraction.length - exponent)
    String.ofList (if negative then '-' :: digits else digits)

/-! ## Identifiers -/

inductive RequestId where
  | number (value : Int64)
  | integer (lexeme : String)
  | string (value : String)
deriving DecidableEq

inductive CorrelationKey where
  | string (value : String)
  | integer (value : String)
deriving DecidableEq

/-- The bytes that a character takes in a JSON string. -/
def encodedCharLen (character : Char) : Nat :=
  if character ∈ ['"', '\\', '\x08', '\x0c', '\n', '\r', '\t'] then 2
  else if character.toNat ≤ 0x1f then 6
  else character.utf8Size

def encodedJsonStringLen (value : String) : Nat :=
  value.toList.foldl (fun length character => length + encodedCharLen character) 2

namespace RequestId

def validate : RequestId → Except String Unit
  | string value =>
    if encodedJsonStringLen value > maxJsonrpcStringIdEncodedBytes then
      .error "JSON-RPC string id exceeds byte limit"
    else .ok ()
  | integer lexeme =>
    if isMathematicalInteger lexeme then .ok ()
    else .error "JSON-RPC numeric id must be a mathematical integer"
  | number _ => .ok ()

def correlationKey (id : RequestId) : Except String CorrelationKey :=
  match id.validate with
  | .error error => .error error
  | .ok () =>
    match id with
    | number value => .ok (.integer (toString value.toInt))
    | integer lexeme => .ok (.integer (canonicalIntegerLexeme lexeme))
    | string value => .ok (.string value)

def correlatesWith (id other : RequestId) : Bool :=
  match id.correlationKey, other.correlationKey with
  | .ok left, .ok right => left = right
  | _, _ => false

/-- The integer that a numeric identifier denotes. -/
inductive Denotes : RequestId → Int → Prop where
  | number (value : Int64) : Denotes (.number value) value.toInt
  | integer {lexeme : String} {whole : Int} (spelled : NumberLexeme)
      (text : lexeme.toList = spelled.text) (value : spelled.value = whole) :
      Denotes (.integer lexeme) whole

end RequestId

/-! ## What the scanner accepts -/

theorem countZeroes_eq (digits : List Char) :
    countZeroes digits = ((digits.filter (· != '.')).takeWhile (· = '0')).length := by
  induction digits with
  | nil => rfl
  | cons digit digits ih =>
    unfold countZeroes
    split
    · rename_i zero
      simp [zero, ih]
    · split
      · rename_i point
        simp [point, ih]
      · rename_i notZero notPoint
        simp [notZero, notPoint]

section Lexemes

variable {number : NumberLexeme}

theorem significand_digits (number : NumberLexeme) :
    ∀ digit ∈ number.significand, isAsciiDigit digit = true := by
  refine List.forall_mem_append.mpr ⟨number.wholeDigits.digits, fun digit member => ?_⟩
  cases given : number.fraction with
  | none => simp [given] at member
  | some digits =>
    rw [given] at member
    exact (number.fractionDigits digits given).digits digit member

theorem mantissa_filter (number : NumberLexeme) :
    (NumberText.mantissa number).filter (· != '.') = number.significand := by
  have kept := significand_digits number
  have digits : ∀ text : List Char, (∀ digit ∈ text, isAsciiDigit digit = true) →
      text.filter (· != '.') = text := fun text digits =>
    List.filter_eq_self.mpr fun digit member => (digit_not_marker (digits digit member)).2.1
  unfold NumberText.mantissa NumberLexeme.fractionText NumberLexeme.significand at *
  rw [List.filter_append, digits _ number.wholeDigits.digits]
  cases given : number.fraction with
  | none => rfl
  | some fraction =>
    rw [given] at kept
    have fractional := digits fraction (List.forall_mem_append.mp kept).2
    simp [fractional]

theorem head_signText (sign : Option ExponentSign) {digits : List Char} (isDigits : IsDigits digits) :
    (ExponentText.signText sign ++ digits).head? = some '-' ↔ sign = some .minus := by
  rcases sign with _ | _ | _
  · obtain ⟨first, rest, rfl⟩ := List.exists_cons_of_ne_nil isDigits.nonempty
    have notMinus := (digit_not_marker (isDigits.digits first List.mem_cons_self)).2.2
    simpa [ExponentText.signText] using notMinus
  · simp [ExponentText.signText]
  · simp [ExponentText.signText]

/-- What follows the marker of an exponent is read as its value. -/
theorem scanExponent_marked {marker : Char} (isMarker : marker = 'e' ∨ marker = 'E')
    (sign : Option ExponentSign) {digits : List Char} (isDigits : IsDigits digits) :
    scanExponent (marker :: (ExponentText.signText sign ++ digits)) =
      if value (digitsOf digits) ≤ maxRawJsonExponent then
        some (ExponentText.value ⟨decide (marker = 'E'), sign, digits, isDigits⟩)
      else none := by
  have starts := startsWithDigit_append isDigits []
  rw [List.append_nil] at starts
  have all : digits.all isAsciiDigit = true := List.all_eq_true.mpr isDigits.digits
  rw [scanExponent, if_pos isMarker, skipSign_signText sign starts, if_neg (by
    simpa [all] using isDigits.nonempty), parseSigned_split 64 isDigits (splitSign_digits isDigits)]
  simp only [Bool.false_eq_true, if_false, head_signText sign isDigits, ExponentText.value]
  by_cases small : value (digitsOf digits) ≤ maxRawJsonExponent
  · have fits : value (digitsOf digits) < 2 ^ (64 - 1) := small.trans_lt (by decide)
    rw [if_pos fits, Option.bind_some, if_pos small, if_pos (by exact_mod_cast small)]
  · rw [if_neg small]
    split
    · rw [Option.bind_some, if_neg (by exact_mod_cast small)]
    · rfl

theorem scanExponent_text_of_some {text : List Char} {exponent : Int}
    (scanned : scanExponent text = some exponent) :
    text = [] ∨ ∃ spelled : ExponentText, text = spelled.text := by
  cases text with
  | nil => exact .inl rfl
  | cons marker rest =>
    rw [scanExponent] at scanned
    split at scanned
    · rename_i isMarker
      split at scanned
      · cases scanned
      · rename_i isDigits
        rw [not_or, Bool.not_eq_false] at isDigits
        obtain ⟨sign, signed⟩ := exists_skipSign rest
        refine .inr ⟨⟨decide (marker = 'E'), sign, _, .of_all isDigits.1 isDigits.2⟩, ?_⟩
        rw [ExponentText.text, ← signed]
        rcases isMarker with rfl | rfl <;> rfl
    · cases scanned

/-- The exponent of a number is small enough to be scanned. -/
def SmallExponent (number : NumberLexeme) : Prop :=
  ∀ exponent ∈ number.exponent, exponent.value.natAbs ≤ maxRawJsonExponent

instance (number : NumberLexeme) : Decidable (SmallExponent number) :=
  inferInstanceAs (Decidable (∀ exponent ∈ number.exponent, _))

theorem scanExponent_text (number : NumberLexeme) :
    scanExponent ((number.exponent.map ExponentText.text).getD []) =
      if SmallExponent number then some ((number.exponent.map ExponentText.value).getD 0)
      else none := by
  cases given : number.exponent with
  | none => rw [if_pos (by simp [SmallExponent, given])]; rfl
  | some exponent =>
    obtain ⟨upperCase, sign, digits, isDigits⟩ := exponent
    have small : SmallExponent number ↔ value (digitsOf digits) ≤ maxRawJsonExponent := by
      simp [SmallExponent, given, exponent_natAbs]
    simp only [small, Option.map_some, Option.getD_some, ExponentText.text]
    exact scanExponent_marked (by cases upperCase <;> simp) sign isDigits

theorem skipMinus_text (number : NumberLexeme) : skipMinus number.text =
    NumberText.mantissa number ++ (number.exponent.map ExponentText.text).getD [] := by
  unfold NumberLexeme.text NumberText.mantissa
  rw [List.append_assoc, List.append_assoc,
    skipMinus_sign _ (startsWithDigit_append number.wholeDigits _), List.append_assoc]

theorem fractionText_length (number : NumberLexeme) :
    number.fractionText.length - 1 = (number.fraction.getD []).length := by
  unfold NumberLexeme.fractionText
  cases number.fraction <;> simp

/-- The scanner accepts a number if it has no more decimal places than zeros at its end. -/
theorem isMathematicalInteger_text
    (short : (String.ofList number.text).utf8ByteSize ≤ maxRawJsonNumberBytes) :
    isMathematicalInteger (String.ofList number.text) = true ↔
      SmallExponent number ∧ (0 ≤ number.scale ∨
        number.scale.natAbs ≤ (number.significand.reverse.takeWhile (· = '0')).length) := by
  obtain ⟨wholeParsed, fractionParsed⟩ := @parse_coefficient number [] (by simp [Delimited])
  simp only [List.append_nil, skipMinus_text] at wholeParsed fractionParsed
  have zeroes : countZeroes (NumberText.mantissa number).reverse =
      (number.significand.reverse.takeWhile (· = '0')).length := by
    rw [countZeroes_eq, List.filter_reverse, mantissa_filter]
  unfold isMathematicalInteger
  rw [if_neg (Nat.not_lt.mpr short)]
  simp only [String.toList_ofList, wholeParsed, fractionParsed, scanExponent_text,
    skipMinus_text, List.length_append, Nat.add_sub_cancel, List.take_left, zeroes,
    fractionText_length, NumberLexeme.scale]
  by_cases small : SmallExponent number
  · simp only [small, if_true, true_and, Bool.or_eq_true, decide_eq_true_eq]
    omega
  · simp [small]

/-- Whatever the scanner accepts is a number. -/
theorem isMathematicalInteger_sound {lexeme : String}
    (accepted : isMathematicalInteger lexeme = true) :
    lexeme.utf8ByteSize ≤ maxRawJsonNumberBytes ∧
      ∃ number : NumberLexeme, lexeme.toList = number.text := by
  unfold isMathematicalInteger at accepted
  split at accepted
  · cases accepted
  rename_i short
  refine ⟨Nat.not_lt.mp short, ?_⟩
  dsimp only at accepted
  split at accepted
  · cases accepted
  rename_i afterWhole wholeParsed
  split at accepted
  · cases accepted
  rename_i rest fractionParsed
  split at accepted
  · cases accepted
  rename_i exponent scanned
  obtain ⟨number, plain, text⟩ := parse_coefficient_sound wholeParsed fractionParsed
  rcases scanExponent_text_of_some scanned with rfl | ⟨spelled, rfl⟩
  · exact ⟨number, by rw [text, List.append_nil]⟩
  · use { number with exponent := some spelled }
    simp [text, NumberLexeme.text, NumberLexeme.fractionText, plain]

/-! ## Integers by their digits -/

theorem value_whole_iff (number : NumberLexeme) :
    (∃ whole : Int, number.value = whole) ↔
      0 ≤ number.scale ∨ 10 ^ number.scale.natAbs ∣ value (digitsOf number.significand) := by
  rw [← scaled_whole_iff]
  unfold NumberLexeme.value
  cases number.negative with
  | false => simp
  | true =>
    constructor
    · rintro ⟨whole, isWhole⟩
      exact ⟨-whole, by rw [Int.cast_neg, ← isWhole, if_pos rfl]; ring⟩
    · rintro ⟨whole, isWhole⟩
      exact ⟨-whole, by rw [Int.cast_neg, ← isWhole, if_pos rfl]; ring⟩

theorem all_take_iff {Entry : Type} (test : Entry → Bool) (entries : List Entry) (count : Nat) :
    (entries.take count).all test = true ↔
      min count entries.length ≤ (entries.takeWhile test).length := by
  induction entries generalizing count with
  | nil => simp
  | cons entry entries ih =>
    cases count with
    | zero => simp
    | succ count =>
      rw [List.take_succ_cons, List.all_cons, Bool.and_eq_true, ih, List.takeWhile_cons]
      cases test entry <;> simp

theorem digit_eq_zero {digit : Char} (decimal : isAsciiDigit digit = true) :
    decide (digit.toNat - '0'.toNat = 0) = decide (digit = '0') := by
  have range := (isAsciiDigit_iff digit).mp decimal
  rw [decide_eq_decide]
  constructor
  · intro zero
    apply Char.toNat_inj.mp
    omega
  · rintro rfl
    rfl

theorem takeWhile_digitsOf {text : List Char} (digits : ∀ digit ∈ text, isAsciiDigit digit = true) :
    ((digitsOf text).takeWhile (· = 0)).length = (text.takeWhile (· = '0')).length := by
  induction text with
  | nil => rfl
  | cons digit text ih =>
    obtain ⟨first, rest⟩ := List.forall_mem_cons.mp digits
    have same := digit_eq_zero first
    have shorter := ih rest
    unfold digitsOf at shorter ⊢
    rw [List.map_cons, List.takeWhile_cons, List.takeWhile_cons, same]
    split
    · rw [List.length_cons, List.length_cons, shorter]
    · rfl

/-- A power of ten divides what a text of digits denotes if as many zeros are at its end, or if
there is nothing else. -/
theorem pow_dvd_digitsOf {text : List Char} (digits : ∀ digit ∈ text, isAsciiDigit digit = true)
    (count : Nat) : 10 ^ count ∣ value (digitsOf text) ↔
      min count text.length ≤ (text.reverse.takeWhile (· = '0')).length := by
  have backwards : ∀ digit ∈ text.reverse, isAsciiDigit digit = true :=
    fun digit member => digits digit (List.mem_reverse.mp member)
  have reversed : (digitsOf text).reverse = digitsOf text.reverse := by
    rw [digitsOf, digitsOf, List.map_reverse]
  rw [← lastDigits_zero_iff (digitsOf_bounded digits), all_take_iff, reversed,
    takeWhile_digitsOf backwards]
  simp [digitsOf]

theorem value_eq_zero_iff {text : List Char} (digits : ∀ digit ∈ text, isAsciiDigit digit = true) :
    value (digitsOf text) = 0 ↔ (text.reverse.takeWhile (· = '0')).length = text.length := by
  have within := (List.takeWhile_sublist (fun digit => decide (digit = '0'))
    (l := text.reverse)).length_le
  rw [List.length_reverse] at within
  have small := (digitsOf_bounded digits).value_lt
  have divides := pow_dvd_digitsOf digits text.length
  rw [Nat.min_self] at divides
  have same : (digitsOf text).length = text.length := List.length_map _
  constructor
  · intro zero
    rw [zero] at divides
    exact Nat.le_antisymm within (divides.mp (Nat.dvd_zero _))
  · intro all
    rw [same] at small
    exact Nat.eq_zero_of_dvd_of_lt (divides.mpr all.ge) small

theorem lexeme_value_eq_zero (number : NumberLexeme) :
    number.value = 0 ↔ value (digitsOf number.significand) = 0 := by
  unfold NumberLexeme.value
  have power : (10 : ℚ) ^ number.scale ≠ 0 := by positivity
  cases number.negative <;> simp [power]

/-- The scanner is right about a number unless that is a zero with more decimal places than digits,
and it accepts nothing but numbers. -/
theorem isMathematicalInteger_iff (lexeme : String) :
    (∀ number : NumberLexeme, lexeme = String.ofList number.text →
      lexeme.utf8ByteSize ≤ maxRawJsonNumberBytes → SmallExponent number →
      ((isMathematicalInteger lexeme = true ↔ ∃ whole : Int, number.value = whole) ↔
        number.value ≠ 0 ∨ -number.scale ≤ number.significand.length)) ∧
    ((∀ number : NumberLexeme, lexeme.toList ≠ number.text) →
      isMathematicalInteger lexeme = false) := by
  constructor
  · rintro number rfl short small
    have digits := significand_digits number
    rw [isMathematicalInteger_text short, and_iff_right small, value_whole_iff,
      pow_dvd_digitsOf digits, Ne, lexeme_value_eq_zero, value_eq_zero_iff digits]
    have within := (List.takeWhile_sublist (fun digit => decide (digit = '0'))
      (l := number.significand.reverse)).length_le
    rw [List.length_reverse] at within
    omega
  · intro noNumber
    by_contra accepted
    obtain ⟨-, number, text⟩ :=
      isMathematicalInteger_sound (Bool.eq_true_of_not_eq_false accepted)
    exact noNumber number text

/-- Zero with a negative exponent is an integer, but its one zero is not enough for the scanner. -/
theorem small_zero_refused :
    let number : NumberLexeme := ⟨false, ['0'], none,
      some ⟨false, some .minus, ['5'], .of_all (by decide) (by decide)⟩,
      .of_all (by decide) (by decide), .inl rfl, by simp⟩
    number.text = "0e-5".toList ∧ isMathematicalInteger "0e-5" = false ∧ number.value = 0 :=
  ⟨by decide, by decide, (lexeme_value_eq_zero _).mpr (by decide)⟩

/-! ## The canonical spelling -/

theorem trimmed_digitsOf {text : List Char} (digits : ∀ digit ∈ text, isAsciiDigit digit = true)
    (notZero : text.head? ≠ some '0') : Trimmed (digitsOf text) := by
  cases text with
  | nil => simp [Trimmed, digitsOf]
  | cons first text =>
    have same := digit_eq_zero (digits first List.mem_cons_self)
    rw [decide_eq_decide] at same
    intro zero
    exact notZero (congrArg some (same.mp (Option.some.inj zero)))

theorem digitChar_digit {digit : Char} (decimal : isAsciiDigit digit = true) :
    Nat.digitChar (digit.toNat - '0'.toNat) = digit := by
  have range := (isAsciiDigit_iff digit).mp decimal
  have zero : '0'.toNat = 48 := rfl
  have nine : '9'.toNat = 57 := rfl
  apply Char.toNat_inj.mp
  rw [Nat.toNat_digitChar_of_lt_ten (by omega)]
  omega

/-- Digits of which the first is not zero are the decimal spelling of what they denote. -/
theorem toDigits_digitsOf {text : List Char} (isDigits : IsDigits text)
    (notZero : text.head? ≠ some '0') : Nat.toDigits 10 (value (digitsOf text)) = text := by
  induction text using List.reverseRecOn with
  | nil => exact absurd rfl isDigits.nonempty
  | append_singleton front last ih =>
    obtain ⟨frontDigits, lastDigit⟩ := List.forall_mem_append.mp isDigits.digits
    have same := digitChar_digit (lastDigit last List.mem_cons_self)
    have small : last.toNat - '0'.toNat < 10 :=
      digitsOf_bounded lastDigit _ (by simp [digitsOf])
    have snoc : digitsOf (front ++ [last]) = digitsOf front ++ [last.toNat - '0'.toNat] := by
      simp [digitsOf]
    rw [snoc, value_snoc, Nat.toDigits_eq_if (by decide)]
    by_cases alone : front = []
    · subst alone
      rw [show value (digitsOf []) = 0 from rfl, Nat.mul_zero, Nat.zero_add, if_pos small, same]
      rfl
    · have kept : front.head? ≠ some '0' := by
        rwa [List.head?_append_of_ne_nil _ alone] at notZero
      have positive := (trimmed_digitsOf frontDigits kept).value_eq_zero.not.mpr
        (by simpa [digitsOf] using alone)
      have quotient : (10 * value (digitsOf front) + (last.toNat - '0'.toNat)) / 10 =
          value (digitsOf front) := by omega
      have remainder : (10 * value (digitsOf front) + (last.toNat - '0'.toNat)) % 10 =
          last.toNat - '0'.toNat := by omega
      rw [if_neg (by omega), quotient, remainder, ih ⟨alone, frontDigits⟩ kept, same]

/-- A coefficient that is scaled to an integer is the spelling of that. -/
theorem rescale_spec {digits : List Char} (isDigits : IsDigits digits)
    (notZero : digits.head? ≠ some '0') {scale : Int}
    (divides : 0 < scale → 10 ^ scale.natAbs ∣ value (digitsOf digits)) :
    IsDigits (rescale digits scale) ∧ (rescale digits scale).head? ≠ some '0' ∧
      (value (digitsOf (rescale digits scale)) : ℚ) =
        value (digitsOf digits) * 10 ^ (-scale) := by
  have positive := (trimmed_digitsOf isDigits.digits notZero).value_eq_zero.not.mpr
    (by simpa [digitsOf] using isDigits.nonempty)
  unfold rescale
  split
  · rename_i below
    generalize kept : digits.length - scale.toNat = length
    have power : 10 ^ scale.natAbs ≤ value (digitsOf digits) :=
      Nat.le_of_dvd (Nat.pos_of_ne_zero positive) (divides below)
    have short : scale.natAbs < digits.length := by
      have bound := power.trans_lt (digitsOf_bounded isDigits.digits).value_lt
      rw [digitsOf, List.length_map] at bound
      exact (Nat.pow_lt_pow_iff_right (by decide)).mp bound
    have split : digitsOf digits = digitsOf (digits.take length) ++ digitsOf (digits.drop length) := by
      rw [digitsOf, digitsOf, digitsOf, ← List.map_append, List.take_append_drop]
    have dropped : (digitsOf (digits.drop length)).length = scale.natAbs := by
      rw [digitsOf, List.length_map, List.length_drop]
      omega
    have takenDigits : ∀ digit ∈ digits.take length, isAsciiDigit digit = true :=
      fun digit member => isDigits.digits digit (List.mem_of_mem_take member)
    have nothing : value (digitsOf (digits.drop length)) = 0 := by
      have small := (digitsOf_bounded fun digit member =>
        isDigits.digits digit (List.mem_of_mem_drop member) : Bounded (digitsOf (digits.drop length)))
      have bound := small.value_lt
      rw [dropped] at bound
      have divided := divides below
      rw [split, value_append, dropped] at divided
      exact Nat.eq_zero_of_dvd_of_lt ((Nat.dvd_add_right (Nat.dvd_mul_left _ _)).mp divided) bound
    have lengthNe : length ≠ 0 := by omega
    refine ⟨⟨by simp [lengthNe, isDigits.nonempty], takenDigits⟩,
      by rwa [List.head?_take, if_neg lengthNe],
      ?_⟩
    have cancelled : (10 : ℚ) ^ scale.natAbs * 10 ^ (-scale) = 1 := by
      rw [← zpow_natCast, ← zpow_add₀ (by norm_num)]
      have cancels : (scale.natAbs : Int) + -scale = 0 := by omega
      rw [cancels, zpow_zero]
    rw [split, value_append, dropped, nothing, Nat.add_zero]
    push_cast
    rw [mul_assoc, cancelled, mul_one]
  · rename_i notBelow
    refine ⟨⟨by simp [isDigits.nonempty], ?_⟩, ?_, ?_⟩
    · refine List.forall_mem_append.mpr ⟨isDigits.digits, fun digit member => ?_⟩
      rw [List.eq_of_mem_replicate member]
      rfl
    · rwa [List.head?_append_of_ne_nil _ isDigits.nonempty]
    · have zeros : digitsOf (digits ++ List.replicate scale.natAbs '0') =
          digitsOf digits ++ List.replicate scale.natAbs 0 := by
        simp [digitsOf]
      have same : -scale = (scale.natAbs : Int) := by omega
      rw [zeros, value_append_zeros, same, zpow_natCast]
      push_cast
      rfl

theorem parseSigned_small (exponent : ExponentText)
    (small : exponent.value.natAbs ≤ maxRawJsonExponent) :
    parseSigned 10 64 exponent.text.tail = some exponent.value := by
  rw [exponent_natAbs] at small
  have below : value (digitsOf exponent.digits) < 2 ^ (64 - 1) := small.trans_lt (by decide)
  rw [parseSigned_split 64 exponent.isDigits (splitSign_exponent exponent), if_pos below,
    if_pos below.le, ExponentText.value]
  by_cases minus : exponent.sign = some .minus <;> simp [minus]

theorem splitCoefficient_text (small : SmallExponent number) :
    splitCoefficient (NumberText.mantissa number ++
        (number.exponent.map ExponentText.text).getD []) =
      (NumberText.mantissa number, (number.exponent.map ExponentText.value).getD 0) := by
  obtain ⟨dropped, taken⟩ := NumberText.split_marker number
  rw [splitCoefficient, dropped, taken]
  cases given : number.exponent with
  | none => simp
  | some exponent =>
    have parsed := parseSigned_small exponent (small exponent given)
    rw [ExponentText.text, List.tail_cons] at parsed
    simp [ExponentText.text, parsed]

theorem canonicalIntegerLexeme_text (small : SmallExponent number) :
    canonicalIntegerLexeme (String.ofList number.text) =
      if number.significand.dropWhile (· == '0') = [] then "0"
      else
        let digits := rescale (number.significand.dropWhile (· == '0')) (-number.scale)
        String.ofList (if number.negative then '-' :: digits else digits) := by
  obtain ⟨signEq, unsignedEq⟩ := NumberText.text_sign number
  unfold canonicalIntegerLexeme
  simp only [String.toList_ofList, signEq, unsignedEq, splitCoefficient_text small,
    NumberText.splitFraction_mantissa]
  have scale : ((number.fraction.getD []).length : Int) -
      (number.exponent.map ExponentText.value).getD 0 = -number.scale := by
    rw [NumberLexeme.scale]
    omega
  rw [scale]
  rfl

theorem toString_signed {digits : List Char} (isDigits : IsDigits digits)
    (notZero : digits.head? ≠ some '0') (negative : Bool) :
    toString ((if negative then -1 else 1) * (value (digitsOf digits) : Int)) =
      String.ofList (if negative then '-' :: digits else digits) := by
  have decimal := toDigits_digitsOf isDigits notZero
  have positive := (trimmed_digitsOf isDigits.digits notZero).value_eq_zero.not.mpr
    (by simpa [digitsOf] using isDigits.nonempty)
  cases negative with
  | false =>
    rw [if_neg (by decide), one_mul, if_neg (by decide), Int.toString_eq_repr, Int.repr_eq_if,
      if_pos (by omega), Int.toNat_natCast, Nat.repr_eq_ofList_toDigits, decimal]
  | true =>
    rw [if_pos rfl, neg_one_mul, if_pos rfl, Int.toString_eq_repr, Int.repr_eq_if,
      if_neg (by omega), neg_neg, Int.toNat_natCast, Nat.repr_eq_ofList_toDigits, decimal]
    exact String.toList_inj.mp (by simp)

/-- Whatever the spelling of an integer, its canonical spelling is the decimal one. -/
theorem canonicalIntegerLexeme_eq {whole : Int} (small : SmallExponent number)
    (isWhole : number.value = whole) :
    canonicalIntegerLexeme (String.ofList number.text) = toString whole := by
  have digits := significand_digits number
  have sameValue := congrArg value (digitsOf_dropZeros digits)
  rw [value_trim] at sameValue
  rw [canonicalIntegerLexeme_text small]
  split
  · rename_i nothing
    rw [nothing] at sameValue
    rw [(lexeme_value_eq_zero number).mpr sameValue.symm] at isWhole
    rw [Int.cast_eq_zero.mp isWhole.symm]
    rfl
  · rename_i nonempty
    have isDigits : IsDigits (number.significand.dropWhile (· == '0')) :=
      ⟨nonempty, fun digit member => digits digit ((List.dropWhile_sublist _).subset member)⟩
    have notZero : (number.significand.dropWhile (· == '0')).head? ≠ some '0' := by
      intro zero
      have first := List.head?_dropWhile_not (· == '0') number.significand
      rw [zero] at first
      contradiction
    have divides : 0 < -number.scale → 10 ^ (-number.scale).natAbs ∣
        value (digitsOf (number.significand.dropWhile (· == '0'))) := by
      intro below
      rw [sameValue, Int.natAbs_neg]
      exact ((value_whole_iff number).mp ⟨whole, isWhole⟩).resolve_left (by omega)
    obtain ⟨spelled, trimmed, scaled⟩ := rescale_spec isDigits notZero divides
    generalize rescale _ _ = result at spelled trimmed scaled ⊢
    rw [sameValue, neg_neg] at scaled
    rw [NumberLexeme.value, mul_assoc, ← scaled] at isWhole
    rw [← toString_signed spelled trimmed number.negative]
    congr 1
    exact_mod_cast isWhole

end Lexemes

/-! ## Correlation -/

namespace RequestId

/-- The identifiers that pass the check. -/
abbrev Valid : Type :=
  { id : RequestId // id.validate = .ok () }

theorem validate_integer {lexeme : String} (valid : (integer lexeme).validate = .ok ()) :
    isMathematicalInteger lexeme = true := by
  by_contra refused
  simp [validate, refused] at valid

theorem Denotes.correlationKey {id : RequestId} {whole : Int} (denotes : id.Denotes whole)
    (valid : id.validate = .ok ()) :
    id.correlationKey = .ok (.integer (toString whole)) := by
  cases denotes with
  | number value => rfl
  | @integer lexeme _ spelled text isWhole =>
    have accepted := validate_integer valid
    obtain rfl : String.ofList spelled.text = lexeme := by rw [← text, String.ofList_toList]
    obtain ⟨short, -⟩ := isMathematicalInteger_sound accepted
    have small := ((isMathematicalInteger_text short).mp accepted).1
    rw [RequestId.correlationKey.eq_def, valid]
    exact congrArg (Except.ok ∘ CorrelationKey.integer) (canonicalIntegerLexeme_eq small isWhole)

/-- A valid identifier is a string, or it denotes an integer. -/
theorem Valid.string_or_denotes (id : Valid) :
    (∃ value, id.1 = .string value) ∨ ∃ whole, id.1.Denotes whole := by
  obtain ⟨id, valid⟩ := id
  cases id with
  | string value => exact .inl ⟨value, rfl⟩
  | number value => exact .inr ⟨_, .number value⟩
  | integer lexeme =>
    have accepted := validate_integer valid
    obtain ⟨short, number, text⟩ := isMathematicalInteger_sound accepted
    obtain rfl : String.ofList number.text = lexeme := by rw [← text, String.ofList_toList]
    obtain ⟨-, scanned⟩ := (isMathematicalInteger_text short).mp accepted
    have isWhole : ∃ whole : Int, number.value = whole := by
      rw [value_whole_iff, pow_dvd_digitsOf (significand_digits number)]
      omega
    obtain ⟨whole, isWhole⟩ := isWhole
    exact .inr ⟨whole, .integer number text isWhole⟩

theorem correlationKey_string {value : String} (valid : (string value).validate = .ok ()) :
    (string value).correlationKey = .ok (.string value) := by
  rw [correlationKey.eq_def, valid]

theorem Valid.correlationKey_isOk (id : Valid) : ∃ key, id.1.correlationKey = .ok key := by
  rcases id.string_or_denotes with ⟨value, same⟩ | ⟨whole, denotes⟩
  · have valid := id.2
    rw [same] at valid ⊢
    exact ⟨_, correlationKey_string valid⟩
  · exact ⟨_, denotes.correlationKey id.2⟩

theorem validate_of_key {id : RequestId} {key : CorrelationKey}
    (isKey : id.correlationKey = .ok key) : id.validate = .ok () := by
  cases checked : id.validate with
  | ok => rfl
  | error message => simp [correlationKey, checked] at isKey

theorem correlatesWith_of_error {id : RequestId} {error : String}
    (isError : id.correlationKey = .error error) (other : RequestId) :
    id.correlatesWith other = false := by
  simp [correlatesWith, isError]

theorem Valid.correlatesWith_iff (id other : Valid) :
    id.1.correlatesWith other.1 = true ↔ id.1.correlationKey = other.1.correlationKey := by
  obtain ⟨key, isKey⟩ := id.correlationKey_isOk
  obtain ⟨otherKey, isOtherKey⟩ := other.correlationKey_isOk
  simp [correlatesWith, isKey, isOtherKey]

theorem Valid.correlationKey_eq_iff (id other : Valid) :
    id.1.correlationKey = other.1.correlationKey ↔
      (∃ value, id.1 = .string value ∧ other.1 = .string value) ∨
        ∃ whole, id.1.Denotes whole ∧ other.1.Denotes whole := by
  constructor
  · intro sameKey
    rcases id.string_or_denotes with ⟨value, same⟩ | ⟨whole, denotes⟩ <;>
      rcases other.string_or_denotes with ⟨otherValue, otherSame⟩ | ⟨otherWhole, otherDenotes⟩
    · have valid := id.2
      have otherValid := other.2
      rw [same] at valid sameKey
      rw [otherSame] at otherValid sameKey
      rw [correlationKey_string valid, correlationKey_string otherValid] at sameKey
      cases sameKey
      exact .inl ⟨value, same, otherSame⟩
    · have valid := id.2
      rw [same] at valid sameKey
      rw [correlationKey_string valid, otherDenotes.correlationKey other.2] at sameKey
      cases sameKey
    · have valid := other.2
      rw [otherSame] at valid sameKey
      rw [correlationKey_string valid, denotes.correlationKey id.2] at sameKey
      cases sameKey
    · rw [denotes.correlationKey id.2, otherDenotes.correlationKey other.2] at sameKey
      have sameText : toString whole = toString otherWhole := by
        simpa using sameKey
      rw [Int.toString_eq_repr, Int.toString_eq_repr, Int.repr_inj] at sameText
      subst sameText
      exact .inr ⟨whole, denotes, otherDenotes⟩
  · rintro (⟨value, same, otherSame⟩ | ⟨whole, denotes, otherDenotes⟩)
    · rw [same, otherSame]
    · rw [denotes.correlationKey id.2, otherDenotes.correlationKey other.2]

/-- Two valid identifiers correlate if they are one string or denote one integer. Their keys are
equal then and only then, and the key of an integer is its decimal spelling. -/
theorem correlatesWith_iff_denote :
    Equivalence (fun id other : Valid => id.1.correlatesWith other.1 = true) ∧
    ∀ id other : Valid,
      (id.1.correlatesWith other.1 = true ↔
        (∃ value, id.1 = .string value ∧ other.1 = .string value) ∨
          ∃ whole, id.1.Denotes whole ∧ other.1.Denotes whole) ∧
      (id.1.correlationKey = other.1.correlationKey ↔ id.1.correlatesWith other.1 = true) ∧
      ((∃ value, id.1 = .string value) ∨
        ∃ whole, id.1.Denotes whole ∧ id.1.correlationKey = .ok (.integer (toString whole))) := by
  refine ⟨⟨fun id => ?_, fun same => ?_, fun same next => ?_⟩, fun id other => ⟨?_, ?_, ?_⟩⟩
  · rw [id.correlatesWith_iff]
  · rw [Valid.correlatesWith_iff] at same ⊢
    exact same.symm
  · rw [Valid.correlatesWith_iff] at same next ⊢
    exact same.trans next
  · rw [id.correlatesWith_iff, id.correlationKey_eq_iff]
  · rw [id.correlatesWith_iff]
  · apply id.string_or_denotes.imp_right
    rintro ⟨whole, denotes⟩
    exact ⟨whole, denotes, denotes.correlationKey id.2⟩

end RequestId

end FastMcp.JsonRpc
