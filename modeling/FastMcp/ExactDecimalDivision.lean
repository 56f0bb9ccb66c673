import FastMcp.ExactDecimalValue
import Mathlib.Algebra.Order.Ring.Int
import Mathlib.Data.Rat.Cast.Defs
import Mathlib.Tactic.FieldSimp

/-! # Long division on digit strings

The divisor is subtracted from a remainder of the same length or of one digit
more. In the second case the subtraction also takes the leading digit of the
divisor from the additional place, so the remainder is right only modulo the
amounts that were taken too much and borrowed.
-/

namespace FastMcp.JsonSchema

open DecimalDigits JsonNumbers

section Subtraction

variable {left right : List Nat}

theorem rightDigit_lt (bounded : Bounded right) (offset : Nat) : rightDigit right offset < 10 := by
  unfold rightDigit
  cases found : right[right.length - (offset + 1)]? with
  | none => decide
  | some digit => exact bounded digit (List.mem_of_getElem? found)

theorem subtrahendDigits_right (right : List Nat) :
    subtrahendDigits (rightDigit right) 0 right.length = right.reverse := by
  refine List.ext_getElem (by simp [subtrahendDigits]) fun index inDigits inReverse => ?_
  have inRange : index < right.length := by simpa using inReverse
  have place : right.length - (index + 1) < right.length := by omega
  have swap : right.length - 1 - index = right.length - (index + 1) := by omega
  simp [subtrahendDigits, rightDigit, List.getElem_reverse, swap, List.getElem?_eq_getElem place]

theorem subtrahendDigits_longer (right : List Nat) :
    subtrahendDigits (rightDigit right) 0 (right.length + 1) =
      right.reverse ++ [right.headD 0] := by
  have first : rightDigit right right.length = right.headD 0 := by
    rw [rightDigit, Nat.sub_eq_zero_of_le (Nat.le_succ _)]
    cases right <;> rfl
  rw [subtrahendDigits, List.range'_1_concat, List.map_append, ← subtrahendDigits,
    subtrahendDigits_right]
  simp [first]

theorem subtractDecimalIntegers_bounded (bounded : Bounded left) (right : List Nat) :
    Bounded (subtractDecimalIntegers left right) := by
  have reversed : Bounded left.reverse :=
    fun digit member => bounded digit (List.mem_reverse.mp member)
  intro digit member
  exact subtractFrom_bounded (Nat.zero_le 1) reversed digit (List.mem_reverse.mp member)

@[simp]
theorem length_subtractDecimalIntegers (left right : List Nat) :
    (subtractDecimalIntegers left right).length = left.length := by
  simp [subtractDecimalIntegers]

theorem subtractDecimalIntegers_add (leftBounded : Bounded left) (rightBounded : Bounded right) :
    ∃ last ≤ 1, value (subtractDecimalIntegers left right) +
        Nat.ofDigits 10 (subtrahendDigits (rightDigit right) 0 left.length) =
      value left + last * 10 ^ left.length := by
  have reversed : Bounded left.reverse :=
    fun digit member => leftBounded digit (List.mem_reverse.mp member)
  obtain ⟨last, small, sum⟩ :=
    subtractFrom_add (rightDigit_lt rightBounded) 0 (Nat.zero_le 1) reversed
  refine ⟨last, small, ?_⟩
  rw [List.length_reverse, Nat.add_zero] at sum
  rw [value, subtractDecimalIntegers, List.reverse_reverse, sum, value]

/-- Operands of one length are subtracted as numbers. -/
theorem value_subtract_same (leftBounded : Bounded left) (rightBounded : Bounded right)
    (sameLength : left.length = right.length) (notLess : value right ≤ value left) :
    value (subtractDecimalIntegers left right) = value left - value right := by
  obtain ⟨last, small, sum⟩ := subtractDecimalIntegers_add leftBounded rightBounded
  have resultSmall := (subtractDecimalIntegers_bounded leftBounded right).value_lt
  rw [length_subtractDecimalIntegers] at resultSmall
  rw [sameLength, subtrahendDigits_right, ← value, ← sameLength] at sum
  have noBorrow : last = 0 := by
    by_contra borrowed
    have one : last = 1 := by omega
    rw [one, Nat.one_mul] at sum
    omega
  rw [noBorrow, Nat.zero_mul] at sum
  omega

/-- A left operand with one digit more loses the leading digit of the right one
there as well. -/
theorem value_subtract_longer (leftBounded : Bounded left) (rightBounded : Bounded right)
    (longer : left.length = right.length + 1) :
    ∃ last ≤ 1, value (subtractDecimalIntegers left right) +
        (value right + right.headD 0 * 10 ^ right.length) =
      value left + last * 10 ^ (right.length + 1) := by
  obtain ⟨last, small, sum⟩ := subtractDecimalIntegers_add leftBounded rightBounded
  refine ⟨last, small, ?_⟩
  rw [longer, subtrahendDigits_longer, Nat.ofDigits_append, ← value, List.length_reverse] at sum
  rw [← sum]
  simp [Nat.mul_comm]

end Subtraction

/-- A nonzero divisor as the division loop sees it. -/
structure DivisorDigits (divisor : List Nat) : Prop where
  bounded : Bounded divisor
  trimmed : Trimmed divisor
  nonempty : divisor ≠ []

/-- A remainder as the division loop sees it. -/
structure RemainderDigits (divisor remainder : List Nat) : Prop where
  bounded : Bounded remainder
  trimmed : Trimmed remainder
  length_le : remainder.length ≤ divisor.length + 1

/-- What the subtraction of a longer remainder takes too much, and what it
borrows, are multiples of the divisor. -/
def HarmlessDigits (divisor : List Nat) : Prop :=
  value divisor ∣ divisor.headD 0 * 10 ^ divisor.length ∧ value divisor ∣ 10 ^ (divisor.length + 1)

/-- A remainder that the loop reduces correctly. -/
def ReducesRight (divisor : List Nat) (remainder : Nat) : Prop :=
  remainder < 10 ^ divisor.length ∨ HarmlessDigits divisor

section Reduction

variable {divisor remainder : List Nat}

theorem DivisorDigits.value_pos (isDivisor : DivisorDigits divisor) : 0 < value divisor :=
  Nat.pos_of_ne_zero fun zero => isDivisor.nonempty (isDivisor.trimmed.value_eq_zero.mp zero)

theorem DivisorDigits.length_le (isDivisor : DivisorDigits divisor) (bounded : Bounded remainder)
    (notLess : value divisor ≤ value remainder) : divisor.length ≤ remainder.length :=
  isDivisor.trimmed.length_le (Nat.lt_of_le_of_lt notLess bounded.value_lt)

/-- One subtraction keeps the residue. -/
theorem subtract_modEq (isDivisor : DivisorDigits divisor)
    (isRemainder : RemainderDigits divisor remainder)
    (right : ReducesRight divisor (value remainder)) (notLess : value divisor ≤ value remainder) :
    value (subtractDecimalIntegers remainder divisor) ≡ value remainder [MOD value divisor] ∧
      ReducesRight divisor (value (subtractDecimalIntegers remainder divisor)) := by
  have atLeast := isDivisor.length_le isRemainder.bounded notLess
  by_cases sameLength : remainder.length = divisor.length
  · have difference := value_subtract_same isRemainder.bounded isDivisor.bounded sameLength notLess
    refine ⟨?_, right.imp_left fun small => ?_⟩
    · rw [difference]
      exact (Nat.modEq_iff_dvd' (Nat.sub_le _ _)).mpr
        ⟨1, by rw [Nat.sub_sub_self notLess, Nat.mul_one]⟩
    · rw [difference]
      exact Nat.lt_of_le_of_lt (Nat.sub_le _ _) small
  · have longer : remainder.length = divisor.length + 1 := by
      have atMost := isRemainder.length_le
      omega
    have harmless : HarmlessDigits divisor := by
      refine right.resolve_left fun small => sameLength ?_
      exact Nat.le_antisymm (isRemainder.trimmed.length_le small) atLeast
    obtain ⟨last, -, sum⟩ := value_subtract_longer isRemainder.bounded isDivisor.bounded longer
    refine ⟨?_, .inr harmless⟩
    have taken : value divisor ∣ value divisor + divisor.headD 0 * 10 ^ divisor.length :=
      Nat.dvd_add (Nat.dvd_refl _) harmless.1
    have borrowed : value divisor ∣ last * 10 ^ (divisor.length + 1) :=
      Nat.dvd_mul_left_of_dvd harmless.2 _
    calc value (subtractDecimalIntegers remainder divisor)
        ≡ value (subtractDecimalIntegers remainder divisor) +
            (value divisor + divisor.headD 0 * 10 ^ divisor.length) [MOD value divisor] :=
          (Nat.modEq_iff_dvd' (Nat.le_add_right _ _)).mpr (by rwa [Nat.add_sub_cancel_left])
      _ = value remainder + last * 10 ^ (divisor.length + 1) := sum
      _ ≡ value remainder [MOD value divisor] :=
          ((Nat.modEq_iff_dvd' (Nat.le_add_right _ _)).mpr
            (by rwa [Nat.add_sub_cancel_left])).symm

/-- Where the loop ends, the remainder is the one of division. -/
theorem reduceRemainder_spec (isDivisor : DivisorDigits divisor) {fuel work left : Nat}
    {result : List Nat} (isRemainder : RemainderDigits divisor remainder)
    (right : ReducesRight divisor (value remainder))
    (reduced : reduceRemainder divisor fuel work remainder = some (result, left)) :
    RemainderDigits divisor result ∧ value result = value remainder % value divisor := by
  induction fuel generalizing work remainder with
  | zero => contradiction
  | succ fuel ih =>
    obtain ⟨_, -, reduced⟩ := Option.bind_eq_some_iff.mp reduced
    rw [compareIntegers_eq_compare isRemainder.bounded isDivisor.bounded isRemainder.trimmed
      isDivisor.trimmed] at reduced
    split at reduced
    · rename_i less
      cases reduced
      exact ⟨isRemainder, (Nat.mod_eq_of_lt (Nat.compare_eq_lt.mp less)).symm⟩
    · rename_i notLess
      rw [Nat.compare_eq_lt] at notLess
      obtain ⟨_, -, reduced⟩ := Option.bind_eq_some_iff.mp reduced
      obtain ⟨_, -, reduced⟩ := Option.bind_eq_some_iff.mp reduced
      obtain ⟨sameResidue, rightNext⟩ :=
        subtract_modEq isDivisor isRemainder right (Nat.not_lt.mp notLess)
      have isNext : RemainderDigits divisor (trim (subtractDecimalIntegers remainder divisor)) := by
        refine ⟨(subtractDecimalIntegers_bounded isRemainder.bounded divisor).trim,
          trim_trimmed _, ?_⟩
        refine Nat.le_trans (length_trim_le _) ?_
        rw [length_subtractDecimalIntegers]
        exact isRemainder.length_le
      rw [← value_trim (subtractDecimalIntegers remainder divisor)] at rightNext sameResidue
      obtain ⟨isResult, valueEq⟩ := ih isNext rightNext reduced
      exact ⟨isResult, valueEq.trans sameResidue⟩

end Reduction

section Division

variable {divisor : List Nat}

/-- The digits brought down so far leave the remainder of the number they form. -/
theorem divideDigits_spec (isDivisor : DivisorDigits divisor) {work left : Nat}
    (processed : List Nat) {remainder digits result : List Nat} (digitsBounded : Bounded digits)
    (isRemainder : RemainderDigits divisor remainder)
    (valueEq : value remainder = value processed % value divisor)
    (right : ∀ front digit back, digits = front ++ digit :: back →
      ReducesRight divisor (10 * (value (processed ++ front) % value divisor) + digit))
    (divided : divideDigits divisor work remainder digits = some (result, left)) :
    Trimmed result ∧ value result = value (processed ++ digits) % value divisor := by
  induction digits generalizing work remainder processed with
  | nil =>
    cases divided
    rw [List.append_nil]
    exact ⟨isRemainder.trimmed, valueEq⟩
  | cons digit digits ih =>
    obtain ⟨digitSmall, tailBounded⟩ := List.forall_mem_cons.mp digitsBounded
    obtain ⟨_, -, divided⟩ := Option.bind_eq_some_iff.mp divided
    obtain ⟨⟨reduced, _⟩, reducedOk, divided⟩ := Option.bind_eq_some_iff.mp divided
    have broughtDown : value (if digit ≠ 0 ∨ remainder ≠ [] then remainder ++ [digit]
        else remainder) = 10 * (value processed % value divisor) + digit := by
      rw [← valueEq]
      split
      · rw [value_snoc]
      · rename_i nothing
        obtain ⟨zero, empty⟩ := not_or.mp nothing
        rw [not_not.mp zero, not_not.mp empty]
        rfl
    have small : value remainder < value divisor := by
      rw [valueEq]
      exact Nat.mod_lt _ isDivisor.value_pos
    have isNext : RemainderDigits divisor (if digit ≠ 0 ∨ remainder ≠ [] then remainder ++ [digit]
        else remainder) := by
      have length := isRemainder.trimmed.length_le (Nat.lt_trans small isDivisor.bounded.value_lt)
      split
      · rename_i something
        refine ⟨isRemainder.bounded.append (by simpa [Bounded] using digitSmall), ?_, by simpa⟩
        cases remainder with
        | nil => simpa [Trimmed] using something
        | cons first rest => exact isRemainder.trimmed
      · exact isRemainder
    have rightHere := right [] digit digits rfl
    rw [List.append_nil, ← broughtDown] at rightHere
    obtain ⟨isReduced, reducedEq⟩ := reduceRemainder_spec isDivisor isNext rightHere reducedOk
    have reducedValue : value reduced = value (processed ++ [digit]) % value divisor := by
      rw [reducedEq, broughtDown, value_snoc]
      simp [Nat.add_mod, Nat.mul_mod]
    have later : ∀ front next back, digits = front ++ next :: back → ReducesRight divisor
        (10 * (value (processed ++ [digit] ++ front) % value divisor) + next) := by
      intro front next back split
      have rightLater := right (digit :: front) next back (by rw [split]; rfl)
      rwa [List.append_assoc, List.singleton_append]
    have final := ih (processed ++ [digit]) tailBounded isReduced reducedValue later divided
    rwa [List.append_assoc, List.singleton_append] at final

end Division

/-- No partial dividend of the long division has more digits than the divisor. -/
def ShortPartials (dividend divisor : Nat) : Prop :=
  ∀ place, 10 * (dividend / 10 ^ (place + 1) % divisor) + dividend / 10 ^ place % 10 <
    10 ^ (Nat.digits 10 divisor).length

/-- The divisor divides the power of ten with one zero more than it has digits,
and its own leading digit moved one place beyond its digits. -/
def HarmlessDivisor (divisor : Nat) : Prop :=
  divisor ∣ 10 ^ ((Nat.digits 10 divisor).length + 1) ∧
    divisor ∣ (Nat.digits 10 divisor).reverse.headD 0 * 10 ^ (Nat.digits 10 divisor).length

section Divisibility

variable {dividend divisor : List Nat}

theorem DivisorDigits.digits_value (isDivisor : DivisorDigits divisor) :
    Nat.digits 10 (value divisor) = divisor.reverse := by
  refine Nat.digits_ofDigits 10 (by decide) _ (fun digit member => ?_) fun nonempty => ?_
  · exact isDivisor.bounded digit (List.mem_reverse.mp member)
  · rw [List.getLast_reverse]
    intro zero
    refine isDivisor.trimmed ?_
    rw [List.head?_eq_some_head isDivisor.nonempty, zero]

theorem DivisorDigits.harmless_iff (isDivisor : DivisorDigits divisor) :
    HarmlessDivisor (value divisor) ↔ HarmlessDigits divisor := by
  rw [HarmlessDivisor, HarmlessDigits, isDivisor.digits_value, List.length_reverse,
    List.reverse_reverse, and_comm]

/-- The quotient by a power of ten drops the last digits. -/
theorem value_front (front back : List Nat) (bounded : Bounded back) :
    value (front ++ back) / 10 ^ back.length = value front := by
  rw [value_append, Nat.mul_comm, Nat.mul_add_div (Nat.pow_pos (by decide)),
    Nat.div_eq_of_lt bounded.value_lt, Nat.add_zero]

theorem reducesRight_of_short (isDivisor : DivisorDigits divisor) (bounded : Bounded dividend)
    (safe : ShortPartials (value dividend) (value divisor) ∨ HarmlessDivisor (value divisor))
    (front : List Nat) (digit : Nat) (back : List Nat) (split : dividend = front ++ digit :: back) :
    ReducesRight divisor (10 * (value front % value divisor) + digit) := by
  rcases safe with short | harmless
  · left
    subst split
    obtain ⟨-, tailBounded⟩ := List.forall_mem_append.mp bounded
    obtain ⟨digitSmall, backBounded⟩ := List.forall_mem_cons.mp tailBounded
    have here := short back.length
    have whole : value (front ++ digit :: back) / 10 ^ (back.length + 1) = value front :=
      value_front front (digit :: back) tailBounded
    have last : value (front ++ digit :: back) / 10 ^ back.length % 10 = digit := by
      rw [← List.singleton_append, ← List.append_assoc, value_front _ back backBounded, value_snoc]
      omega
    rwa [whole, last, isDivisor.digits_value, List.length_reverse] at here
  · exact .inr (isDivisor.harmless_iff.mp harmless)

/-- Where the division finishes on a safe input, it decides divisibility. -/
theorem decimalIntegerIsDivisible_iff {work left : Nat} {result : Bool}
    (dividendBounded : Bounded dividend) (divisorBounded : Bounded divisor)
    (nonzero : value divisor ≠ 0)
    (safe : ShortPartials (value dividend) (value divisor) ∨ HarmlessDivisor (value divisor))
    (decided : decimalIntegerIsDivisible dividend divisor work = some (result, left)) :
    result = true ↔ value divisor ∣ value dividend := by
  rw [← value_trim divisor] at nonzero safe ⊢
  have nonempty : trim divisor ≠ [] := by
    intro empty
    rw [empty] at nonzero
    contradiction
  have isDivisor : DivisorDigits (trim divisor) :=
    ⟨divisorBounded.trim, trim_trimmed divisor, nonempty⟩
  rw [decimalIntegerIsDivisible, if_neg nonempty] at decided
  obtain ⟨⟨remainder, _⟩, divided, same⟩ := Option.map_eq_some_iff.mp decided
  cases same
  have start : RemainderDigits (trim divisor) [] :=
    ⟨fun _ member => absurd member List.not_mem_nil, by simp [Trimmed], Nat.zero_le _⟩
  obtain ⟨trimmed, valueEq⟩ := divideDigits_spec isDivisor [] dividendBounded start
    (by simp) (fun front digit back split => by
      rw [List.nil_append]
      exact reducesRight_of_short isDivisor dividendBounded safe front digit back split) divided
  have zeroDigits : remainder ≠ [0] := by
    rintro rfl
    exact trimmed rfl
  rw [List.nil_append] at valueEq
  rw [decide_eq_true_eq, Nat.dvd_iff_mod_eq_zero, ← valueEq, trimmed.value_eq_zero]
  exact ⟨fun empty => empty.resolve_right zeroDigits, .inl⟩

end Divisibility

namespace ExactDecimal

variable {number divisor : ExactDecimal}

/-- The coefficient of a number that is scaled by the common power of ten. -/
def scaledCoefficient (number : ExactDecimal) (scale : Nat) : Nat :=
  DecimalDigits.value number.digits * 10 ^ (number.exponent + scale).toNat

/-- The inputs on which the long division never goes wrong. -/
def DividesSafely (number divisor : ExactDecimal) : Prop :=
  ShortPartials (scaledCoefficient number (commonScale number divisor))
      (scaledCoefficient divisor (commonScale number divisor)) ∨
    HarmlessDivisor (scaledCoefficient divisor (commonScale number divisor))

theorem commonScale_number (number divisor : ExactDecimal) :
    0 ≤ number.exponent + commonScale number divisor := by
  unfold commonScale
  omega

theorem commonScale_divisor (number divisor : ExactDecimal) :
    0 ≤ divisor.exponent + commonScale number divisor := by
  unfold commonScale
  omega

theorem value_scaled {scale : Nat} (nonnegative : 0 ≤ number.exponent + scale) :
    number.value * 10 ^ scale =
      (if number.negative then -1 else 1) * (scaledCoefficient number scale : ℚ) := by
  obtain ⟨power, powerEq⟩ := Int.eq_ofNat_of_zero_le nonnegative
  have powers : (10 : ℚ) ^ number.exponent * 10 ^ scale = 10 ^ power := by
    rw [← zpow_natCast, ← zpow_natCast, ← zpow_add₀ (by norm_num), powerEq]
  rw [value, scaledCoefficient, powerEq, mul_assoc, powers]
  push_cast
  rw [mul_assoc]
  rfl

theorem not_negative_of_pos (positive : 0 < divisor.value) : divisor.negative = false := by
  by_contra negative
  rw [Bool.not_eq_false] at negative
  rw [value, negative, if_pos rfl] at positive
  have powerPositive : (0 : ℚ) < 10 ^ divisor.exponent := zpow_pos (by norm_num) _
  have coefficient : (0 : ℚ) ≤ DecimalDigits.value divisor.digits := Nat.cast_nonneg _
  nlinarith

/-- A number is an integral multiple exactly when the scaled coefficients
divide. -/
theorem exists_multiple_iff (positive : 0 < divisor.value) :
    (∃ factor : ℤ, number.value = factor * divisor.value) ↔
      scaledCoefficient divisor (commonScale number divisor) ∣
        scaledCoefficient number (commonScale number divisor) := by
  have numberScaled := value_scaled (commonScale_number number divisor)
  have divisorScaled := value_scaled (commonScale_divisor number divisor)
  rw [not_negative_of_pos positive, if_neg Bool.false_ne_true, one_mul] at divisorScaled
  have scalePositive : (10 : ℚ) ^ commonScale number divisor ≠ 0 := pow_ne_zero _ (by norm_num)
  generalize scaledCoefficient number (commonScale number divisor) = dividend at *
  generalize scaledCoefficient divisor (commonScale number divisor) = scaled at *
  obtain ⟨sign, signEq, signUnit⟩ : ∃ sign : ℤ,
      (if number.negative then -1 else 1 : ℚ) = sign ∧ sign * sign = 1 := by
    cases number.negative
    · exact ⟨1, by simp, by decide⟩
    · exact ⟨-1, by simp, by decide⟩
  rw [signEq] at numberScaled
  constructor
  · rintro ⟨factor, multiple⟩
    have product : ((sign * dividend : ℤ) : ℚ) = ((factor * scaled : ℤ) : ℚ) := by
      push_cast
      rw [← numberScaled, ← divisorScaled, multiple, mul_assoc]
    have integers : sign * dividend = factor * scaled := Int.cast_injective product
    refine Int.natCast_dvd_natCast.mp ⟨sign * factor, ?_⟩
    calc (dividend : ℤ) = sign * (sign * dividend) := by rw [← mul_assoc, signUnit, one_mul]
      _ = scaled * (sign * factor) := by rw [integers]; ring
  · rintro ⟨quotient, rfl⟩
    refine ⟨sign * quotient, mul_right_cancel₀ scalePositive ?_⟩
    rw [numberScaled, mul_assoc, divisorScaled]
    push_cast
    ring

/-- Where the work suffices, a safe number is reported as a multiple exactly
when it is one. -/
theorem isMultipleOfBounded_safe {work left : Nat} {result : Bool} (positive : 0 < divisor.value)
    (safe : DividesSafely number divisor)
    (decided : number.isMultipleOfBounded divisor work = some (result, left)) :
    result = true ↔ ∃ factor : ℤ, number.value = factor * divisor.value := by
  have divisorNonzero : DecimalDigits.value divisor.digits ≠ 0 := by
    intro zero
    rw [value, zero] at positive
    simp at positive
  have divisorNotZero : divisor.isZero = false := by
    rw [← Bool.not_eq_true, isZero_iff]
    exact divisorNonzero
  rw [isMultipleOfBounded, divisorNotZero, if_neg Bool.false_ne_true] at decided
  rw [exists_multiple_iff positive]
  split at decided
  · rename_i zero
    cases decided
    rw [isZero_iff] at zero
    simp [scaledCoefficient, zero]
  · have scaled := commonScale_number number divisor
    have divisorScaled := commonScale_divisor number divisor
    rw [if_neg (by omega)] at decided
    obtain ⟨_, -, decided⟩ := Option.bind_eq_some_iff.mp decided
    have zeros : ∀ count, Bounded (List.replicate count 0) := by
      intro count digit member
      rw [List.eq_of_mem_replicate member]
      decide
    have scaledEq : scaledCoefficient divisor (commonScale number divisor) ≠ 0 :=
      Nat.mul_ne_zero divisorNonzero (Nat.pow_pos (by decide)).ne'
    have dividendValue := value_append_zeros number.digits
      (number.exponent + commonScale number divisor).toNat
    have divisorValue := value_append_zeros divisor.digits
      (divisor.exponent + commonScale number divisor).toNat
    rw [← scaledCoefficient] at dividendValue divisorValue
    unfold DividesSafely at safe
    rw [← dividendValue, ← divisorValue] at safe ⊢
    rw [← divisorValue] at scaledEq
    exact decimalIntegerIsDivisible_iff (number.bounded.append (zeros _))
      (divisor.bounded.append (zeros _)) scaledEq safe decided

end ExactDecimal

/-- For JSON numbers within the bounds: where the work suffices, a safe number is
reported as a multiple exactly when it is one. -/
theorem isMultipleOfBounded_iff {number divisor : NumberLexeme} {left right : ExactDecimal}
    (numberParsed : ExactDecimal.fromNumber number = some left)
    (divisorParsed : ExactDecimal.fromNumber divisor = some right) (positive : 0 < divisor.value)
    {work rest : Nat} {result : Bool}
    (decided : left.isMultipleOfBounded right work = some (result, rest))
    (safe : left.DividesSafely right) :
    result = true ↔ ∃ factor : ℤ, number.value = factor * divisor.value := by
  rw [← ExactDecimal.parse_value numberParsed, ← ExactDecimal.parse_value divisorParsed]
  rw [← ExactDecimal.parse_value divisorParsed] at positive
  exact ExactDecimal.isMultipleOfBounded_safe positive safe decided

/-- A number without fraction and exponent. -/
def wholeNumber (whole : List Char) (isDigits : IsDigits whole)
    (canonical : whole = ['0'] ∨ whole.head? ≠ some '0') : NumberLexeme where
  negative := false
  whole
  fraction := none
  exponent := none
  wholeDigits := isDigits
  wholeCanonical := canonical
  fractionDigits := by simp

def fourteen : NumberLexeme :=
  wholeNumber ['1', '4'] (.of_all (by decide) (by decide)) (by decide)

def seven : NumberLexeme :=
  wholeNumber ['7'] (.of_all (by decide) (by decide)) (by decide)

def fourteenDecimal : ExactDecimal where
  negative := false
  digits := [1, 4]
  exponent := 0
  bounded := by simp [Bounded]
  canonical := .inr ⟨by decide, by simp [Trimmed]⟩

def sevenDecimal : ExactDecimal where
  negative := false
  digits := [7]
  exponent := 0
  bounded := by simp [Bounded]
  canonical := .inr ⟨by decide, by simp [Trimmed]⟩

theorem wholeNumber_value (whole : List Char) (isDigits : IsDigits whole)
    (canonical : whole = ['0'] ∨ whole.head? ≠ some '0') :
    (wholeNumber whole isDigits canonical).value = value (digitsOf whole) := by
  simp [NumberLexeme.value, wholeNumber, NumberLexeme.significand, NumberLexeme.scale]

/-- Fourteen is twice seven, but the second subtraction takes seventy too much. -/
theorem isMultipleOfBounded_fourteen_seven :
    ExactDecimal.fromNumber fourteen = some fourteenDecimal ∧
      ExactDecimal.fromNumber seven = some sevenDecimal ∧ 0 < seven.value ∧
      fourteenDecimal.isMultipleOfBounded sevenDecimal 4096 = some (false, 4072) ∧
      fourteen.value = (2 : ℤ) * seven.value := by
  refine ⟨by decide, by decide, ?_, by decide, ?_⟩
  · rw [seven, wholeNumber_value, show value (digitsOf ['7']) = 7 by decide]
    norm_num
  · rw [seven, fourteen, wholeNumber_value, wholeNumber_value,
      show value (digitsOf ['7']) = 7 by decide,
      show value (digitsOf ['1', '4']) = 14 by decide]
    norm_num

theorem shortPartials_seventyFive : ShortPartials 75 25 := by
  intro place
  have length : (Nat.digits 10 25).length = 2 := by simp
  rw [length]
  rcases place with _ | _ | place
  · decide
  · decide
  · have power : 100 ≤ 10 ^ (place + 2) := by
      rw [Nat.pow_add]
      exact Nat.le_mul_of_pos_left _ (Nat.pow_pos (by decide))
    rw [Nat.div_eq_of_lt (by omega : 75 < 10 ^ (place + 2)),
      Nat.div_eq_of_lt (by rw [Nat.pow_succ]; omega : 75 < 10 ^ (place + 2 + 1))]
    decide

theorem isMultipleOfBounded_seventyFive :
    ∃ factor : ℤ,
      (wholeNumber ['7', '5'] (.of_all (by decide) (by decide)) (by decide)).value =
        factor *
          (wholeNumber ['2', '5'] (.of_all (by decide) (by decide)) (by decide)).value := by
  let seventyFive : ExactDecimal :=
    ⟨false, [7, 5], 0, by simp [Bounded], .inr ⟨by decide, by simp [Trimmed]⟩⟩
  let twentyFive : ExactDecimal :=
    ⟨false, [2, 5], 0, by simp [Bounded], .inr ⟨by decide, by simp [Trimmed]⟩⟩
  refine (isMultipleOfBounded_iff (by decide : ExactDecimal.fromNumber _ = some seventyFive)
    (by decide : ExactDecimal.fromNumber _ = some twentyFive) ?_
    (by decide : seventyFive.isMultipleOfBounded twentyFive 100 = some (true, 79)) ?_).mp rfl
  · rw [wholeNumber_value, show value (digitsOf ['2', '5']) = 25 by decide]
    norm_num
  · exact .inl shortPartials_seventyFive

end FastMcp.JsonSchema
