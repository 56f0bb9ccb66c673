import FastMcp.ByteText
import FastMcp.DecimalDigits
import Mathlib.Algebra.Field.Rat
import Mathlib.Algebra.Order.Field.Rat
import Mathlib.Algebra.Order.Field.Power

/-! # JSON numbers

A number token consists of an optional minus sign, a whole part without
superfluous zeros, an optional fraction and an optional exponent. It denotes
an exact decimal rational.
-/

namespace FastMcp.JsonNumbers

open ByteText DecimalDigits

/-- A nonempty run of decimal digits. -/
structure IsDigits (text : List Char) : Prop where
  nonempty : text ≠ []
  digits : ∀ digit ∈ text, isAsciiDigit digit = true

theorem IsDigits.of_all {text : List Char} (nonempty : text ≠ [])
    (all : text.all isAsciiDigit = true) :
    IsDigits text :=
  ⟨nonempty, List.all_eq_true.mp all⟩

/-- The digits that a text of decimal digits denotes. -/
def digitsOf (text : List Char) : List Nat :=
  text.map fun digit => digit.toNat - '0'.toNat

inductive ExponentSign where
  | plus
  | minus
deriving DecidableEq, Repr

/-- The text of an exponent. -/
structure ExponentText where
  upperCase : Bool
  sign : Option ExponentSign
  digits : List Char
  isDigits : IsDigits digits
deriving DecidableEq

/-- A JSON number as it is written. -/
structure NumberLexeme where
  negative : Bool
  whole : List Char
  fraction : Option (List Char)
  exponent : Option ExponentText
  wholeDigits : IsDigits whole
  wholeCanonical : whole = ['0'] ∨ whole.head? ≠ some '0'
  fractionDigits : ∀ digits ∈ fraction, IsDigits digits
deriving DecidableEq

namespace ExponentText

def signText : Option ExponentSign → List Char
  | none => []
  | some .plus => ['+']
  | some .minus => ['-']

def text (exponent : ExponentText) : List Char :=
  (if exponent.upperCase then 'E' else 'e') :: (signText exponent.sign ++ exponent.digits)

def value (exponent : ExponentText) : Int :=
  let magnitude : Int := DecimalDigits.value (digitsOf exponent.digits)
  if exponent.sign = some .minus then -magnitude else magnitude

end ExponentText

namespace NumberLexeme

def fractionText (number : NumberLexeme) : List Char :=
  match number.fraction with
  | none => []
  | some digits => '.' :: digits

def text (number : NumberLexeme) : List Char :=
  (if number.negative then ['-'] else []) ++ number.whole ++ number.fractionText ++
    ((number.exponent.map ExponentText.text).getD [])

/-- The digits of the whole part and of the fraction. -/
def significand (number : NumberLexeme) : List Char :=
  number.whole ++ number.fraction.getD []

def scale (number : NumberLexeme) : Int :=
  (number.exponent.map ExponentText.value).getD 0 - (number.fraction.getD []).length

/-- The rational that a number denotes. -/
def value (number : NumberLexeme) : ℚ :=
  (if number.negative then -1 else 1) *
    (DecimalDigits.value (digitsOf number.significand) : ℚ) * 10 ^ number.scale

end NumberLexeme

theorem isAsciiDigit_iff (character : Char) :
    isAsciiDigit character = true ↔ '0'.toNat ≤ character.toNat ∧ character.toNat ≤ '9'.toNat := by
  simp [isAsciiDigit, Char.le_def, UInt32.le_iff_toNat_le]

theorem isAsciiDigit_ne {character other : Char} (digit : isAsciiDigit character = true)
    (notDigit : isAsciiDigit other = false) : character ≠ other := by
  rintro rfl
  rw [notDigit] at digit
  contradiction

theorem digitsOf_bounded {text : List Char} (digits : ∀ digit ∈ text, isAsciiDigit digit = true) :
    Bounded (digitsOf text) := by
  intro value member
  obtain ⟨digit, digitMember, rfl⟩ := List.mem_map.mp member
  have range := (isAsciiDigit_iff digit).mp (digits digit digitMember)
  have zero : '0'.toNat = 48 := rfl
  have nine : '9'.toNat = 57 := rfl
  omega

/-- A scaled coefficient is whole when the power of ten that it is divided by divides it. -/
theorem scaled_whole_iff (coefficient : Nat) (exponent : Int) :
    (∃ whole : Int, (coefficient : ℚ) * 10 ^ exponent = whole) ↔
      0 ≤ exponent ∨ 10 ^ exponent.natAbs ∣ coefficient := by
  by_cases large : 0 ≤ exponent
  · apply iff_of_true _ (.inl large)
    use coefficient * 10 ^ exponent.toNat
    push_cast
    rw [← zpow_natCast, Int.toNat_of_nonneg large]
  have scaled : (coefficient : ℚ) * 10 ^ exponent * 10 ^ exponent.natAbs = coefficient := by
    rw [mul_assoc, ← zpow_natCast, ← zpow_add₀ (by norm_num)]
    have cancelled : exponent + (exponent.natAbs : Int) = 0 := by omega
    rw [cancelled, zpow_zero, mul_one]
  rw [or_iff_right large]
  constructor
  · rintro ⟨whole, isWhole⟩
    rw [isWhole] at scaled
    have divides : ((10 ^ exponent.natAbs : Nat) : Int) ∣ (coefficient : Int) := by
      use whole
      rw [mul_comm]
      exact_mod_cast scaled.symm
    exact_mod_cast divides
  · rintro ⟨quotient, divided⟩
    use quotient
    have power : (10 : ℚ) ^ exponent.natAbs ≠ 0 := by positivity
    apply mul_right_cancel₀ power
    rw [scaled, divided]
    push_cast
    ring

end FastMcp.JsonNumbers
