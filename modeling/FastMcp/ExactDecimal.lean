import FastMcp.IntegerText
import FastMcp.JsonNumbers

/-! # Exact decimal numbers

The schema validator compares JSON numbers exactly. It keeps a sign, a
coefficient as a digit string and a power of ten, all within fixed bounds, and
decides divisibility by long division on digit strings. Work on untrusted
numbers is charged to a budget, and a computation stops when the budget is
spent.
-/

namespace FastMcp.JsonSchema

open ByteText DecimalDigits JsonNumbers IntegerText

/-- The most decimal digits that take part in an exact comparison. -/
def maxExactDecimalDigits : Nat := 4 * 1024

/-- Takes units from the remaining work, if there are enough. -/
def consumeValidationWorkUnits (work units : Nat) : Option Nat :=
  if units ≤ work then some (work - units) else none

/-- A bounded exact JSON number. The coefficient has no leading zeros, and zero
has one representation. -/
structure ExactDecimal where
  negative : Bool
  digits : List Nat
  exponent : Int
  bounded : Bounded digits
  canonical : (negative = false ∧ digits = [0] ∧ exponent = 0) ∨ (digits ≠ [] ∧ Trimmed digits)
deriving DecidableEq

/-- Splits a number before its exponent and reads the exponent. -/
def splitExponent (unsigned : List Char) : Option (List Char × Int) :=
  match unsigned.dropWhile fun character => character != 'e' && character != 'E' with
  | [] => some (unsigned, 0)
  | _ :: exponentText =>
    (parseSigned 10 64 exponentText).bind fun exponent =>
      if exponent.natAbs > maxExactDecimalDigits then none
      else
        some (unsigned.takeWhile fun character => character != 'e' && character != 'E', exponent)

def splitFraction (significand : List Char) : List Char × List Char :=
  match significand.dropWhile (· != '.') with
  | [] => (significand, [])
  | _ :: fraction => (significand.takeWhile (· != '.'), fraction)

namespace ExactDecimal

def zero : ExactDecimal where
  negative := false
  digits := [0]
  exponent := 0
  bounded := by simp [Bounded]
  canonical := .inl ⟨rfl, rfl, rfl⟩

/-- The number with the given parts, unless it exceeds the bounds. -/
def ofParts (negative : Bool) (whole fraction : List Char) (exponent : Int) : Option ExactDecimal :=
  if isDigits : (whole ++ fraction).all isAsciiDigit = true then
    if whole.isEmpty then none
    else if significant : trim (digitsOf (whole ++ fraction)) = [] then some zero
    else if (trim (digitsOf (whole ++ fraction))).length > maxExactDecimalDigits then none
    else if (exponent - fraction.length).natAbs > maxExactDecimalDigits then none
    else some {
      negative
      digits := trim (digitsOf (whole ++ fraction))
      exponent := exponent - fraction.length
      bounded := (digitsOf_bounded (List.all_eq_true.mp isDigits)).trim
      canonical := .inr ⟨significant, trim_trimmed _⟩ }
  else none

def parse (source : String) : Option ExactDecimal :=
  if source.isEmpty || source.utf8ByteSize > maxExactDecimalDigits then none
  else
    (splitExponent (if source.toList.head? = some '-' then source.toList.tail else source.toList)).bind
      fun split =>
        ofParts (source.toList.head? = some '-') (splitFraction split.1).1
          (splitFraction split.1).2 split.2

/-- The exact decimal of a JSON number, which keeps its lexeme. -/
def fromNumber (number : NumberLexeme) : Option ExactDecimal :=
  parse (String.ofList number.text)

/-- The rational that an exact decimal stands for. -/
def value (number : ExactDecimal) : ℚ :=
  (if number.negative then -1 else 1) * (DecimalDigits.value number.digits : ℚ) *
    10 ^ number.exponent

def isZero (number : ExactDecimal) : Bool :=
  number.digits.head? = some 0

end ExactDecimal

/-- The digit of the right operand at an offset from its end. Beyond its length
the subtraction of the offset saturates. -/
def rightDigit (right : List Nat) (offset : Nat) : Nat :=
  (right[right.length - (offset + 1)]?).getD 0

def subtractDecimalIntegers (left right : List Nat) : List Nat :=
  (subtractFrom (rightDigit right) 0 0 left.reverse).reverse

/-- Subtracts the divisor until the remainder is smaller. Each round costs work,
so more fuel than work is never used up. -/
def reduceRemainder (divisor : List Nat) : Nat → Nat → List Nat → Option (List Nat × Nat)
  | 0, _, _ => none
  | fuel + 1, work, remainder =>
    (consumeValidationWorkUnits work (min remainder.length divisor.length)).bind fun work =>
      if compareIntegers remainder divisor = .lt then some (remainder, work)
      else
        (consumeValidationWorkUnits work remainder.length).bind fun work =>
          (consumeValidationWorkUnits work (subtractDecimalIntegers remainder divisor).length).bind
            fun work =>
              reduceRemainder divisor fuel work (trim (subtractDecimalIntegers remainder divisor))

/-- Brings down the digits of the dividend one by one. -/
def divideDigits (divisor : List Nat) : Nat → List Nat → List Nat → Option (List Nat × Nat)
  | work, remainder, [] => some (remainder, work)
  | work, remainder, digit :: digits =>
    (consumeValidationWorkUnits work 1).bind fun work =>
      (reduceRemainder divisor (work + 1) work
        (if digit ≠ 0 ∨ remainder ≠ [] then remainder ++ [digit] else remainder)).bind
          fun reduced => divideDigits divisor reduced.2 reduced.1 digits

/-- Whether the dividend is divisible, and the work that is left. -/
def decimalIntegerIsDivisible (dividend divisor : List Nat) (work : Nat) : Option (Bool × Nat) :=
  if trim divisor = [] then some (false, work)
  else
    (divideDigits (trim divisor) work [] dividend).map fun divided =>
      (decide (divided.1 = [] ∨ divided.1 = [0]), divided.2)

namespace ExactDecimal

/-- The power of ten that makes both numbers whole. -/
def commonScale (number divisor : ExactDecimal) : Nat :=
  (min (min number.exponent divisor.exponent) 0).natAbs

/-- Whether a number is a multiple of another, and the work that is left. -/
def isMultipleOfBounded (number divisor : ExactDecimal) (work : Nat) : Option (Bool × Nat) :=
  if divisor.isZero then some (false, work)
  else if number.isZero then some (true, work)
  else
    let scale := commonScale number divisor
    if number.exponent + scale < 0 ∨ divisor.exponent + scale < 0 then some (false, work)
    else
      let dividendZeros := (number.exponent + scale).toNat
      let divisorZeros := (divisor.exponent + scale).toNat
      (consumeValidationWorkUnits work (dividendZeros + divisorZeros)).bind fun work =>
        decimalIntegerIsDivisible (number.digits ++ List.replicate dividendZeros 0)
          (divisor.digits ++ List.replicate divisorZeros 0) work

end ExactDecimal

end FastMcp.JsonSchema
