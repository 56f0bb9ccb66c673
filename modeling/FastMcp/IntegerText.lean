import Mathlib.Algebra.Order.Group.Nat
import Mathlib.Algebra.Ring.Int.Defs
import Mathlib.Algebra.Ring.Nat
import Mathlib.Data.List.Basic
import Mathlib.Data.List.Induction

/-! # Integers written in a radix

The integer parsers of the standard library: an optional sign, at least one
digit, and a range check. A leading plus sign is part of the accepted
language, also for unsigned types.
-/

namespace FastMcp.IntegerText

/-- The value of one digit, letters counting from ten in either case. -/
def toDigit (radix : Nat) (digit : Char) : Option Nat :=
  let value :=
    if '0' ≤ digit ∧ digit ≤ '9' then digit.toNat - '0'.toNat
    else if 'a' ≤ digit ∧ digit ≤ 'z' then digit.toNat - 'a'.toNat + 10
    else if 'A' ≤ digit ∧ digit ≤ 'Z' then digit.toNat - 'A'.toNat + 10
    else radix
  if value < radix then some value else none

/-- The value of a sequence of digits, most significant digit first. -/
def parseDigits (radix : Nat) (text : List Char) : Option Nat :=
  text.foldl (fun total digit => do
    let total ← total
    let value ← toDigit radix digit
    return total * radix + value) (some 0)

/-- An unsigned integer of at most `greatest`, written with an optional plus
sign. -/
def parseUnsigned (radix greatest : Nat) (text : List Char) : Option Nat := do
  let digits := match text with
    | '+' :: rest => rest
    | _ => text
  if digits.isEmpty then none
  let value ← parseDigits radix digits
  if value ≤ greatest then some value else none

/-- Takes an optional sign off a text and says whether it was a minus sign. -/
def splitSign : List Char → Bool × List Char
  | '+' :: rest => (false, rest)
  | '-' :: rest => (true, rest)
  | text => (false, text)

/-- A signed integer of `width` bits in two's complement, written with an
optional sign. -/
def parseSigned (radix width : Nat) (text : List Char) : Option Int :=
  if (splitSign text).2.isEmpty then none
  else
    (parseDigits radix (splitSign text).2).bind fun value =>
      if (splitSign text).1 then
        if value ≤ 2 ^ (width - 1) then some (-(value : Int)) else none
      else
        if value < 2 ^ (width - 1) then some (value : Int) else none

/-! ## Reading what was written -/

theorem toDigit_digitChar : ∀ digit < 10, toDigit 10 (Nat.digitChar digit) = some digit := by
  decide

theorem parseDigits_snoc (radix : Nat) (text : List Char) (digit : Char) :
    parseDigits radix (text ++ [digit]) =
      (parseDigits radix text).bind fun total =>
        (toDigit radix digit).map fun value => total * radix + value := by
  simp only [parseDigits, List.foldl_append, List.foldl_cons, List.foldl_nil]
  generalize List.foldl _ _ text = total
  cases total <;> cases toDigit radix digit <;> rfl

theorem parseDigits_toDigits (number : Nat) :
    parseDigits 10 (Nat.toDigits 10 number) = some number := by
  induction number using Nat.strongRecOn with
  | ind number ih =>
    rw [Nat.toDigits_eq_if (by decide)]
    split
    · rename_i small
      rw [← List.nil_append [_], parseDigits_snoc, toDigit_digitChar number small]
      simp [parseDigits]
    · rw [parseDigits_snoc, ih _ (by omega), toDigit_digitChar _ (Nat.mod_lt _ (by decide))]
      simp only [Option.bind_some, Option.map_some, Option.some.injEq]
      omega

theorem toDigit_eq_some {digit : Char} {number : Nat} (read : toDigit 10 digit = some number) :
    number < 10 ∧ Nat.digitChar number = digit := by
  unfold toDigit at read
  split at read
  · rename_i range
    have zero : '0'.toNat = 48 := rfl
    have nine : '9'.toNat = 57 := rfl
    have lower : '0'.toNat ≤ digit.toNat := range.1
    have upper : digit.toNat ≤ '9'.toNat := range.2
    rw [if_pos (by omega), Option.some.injEq] at read
    subst read
    refine ⟨by omega, ?_⟩
    apply Char.toNat_inj.mp
    rw [Nat.toNat_digitChar_of_lt_ten (by omega)]
    omega
  · simp only at read
    split at read
    · split at read <;> simp at read
      omega
    · split at read
      · split at read <;> simp at read
        omega
      · simp at read

/-- Digits of which the first is not zero are the decimal spelling of their value. -/
theorem toDigits_of_parseDigits {text : List Char} {number : Nat} (nonempty : text ≠ [])
    (notZero : text.head? ≠ some '0') (parsed : parseDigits 10 text = some number) :
    Nat.toDigits 10 number = text := by
  induction text using List.reverseRecOn generalizing number with
  | nil => exact absurd rfl nonempty
  | append_singleton front last ih =>
    rw [parseDigits_snoc] at parsed
    obtain ⟨total, frontParsed, continued⟩ := Option.bind_eq_some_iff.mp parsed
    obtain ⟨value, lastRead, rfl⟩ := Option.map_eq_some_iff.mp continued
    obtain ⟨small, same⟩ := toDigit_eq_some lastRead
    rw [Nat.toDigits_eq_if (by decide)]
    by_cases alone : front = []
    · subst alone
      cases frontParsed
      rw [Nat.zero_mul, Nat.zero_add, if_pos small, same]
      rfl
    · have frontHead : front.head? ≠ some '0' := by
        rwa [List.head?_append_of_ne_nil _ alone] at notZero
      have spelled := ih alone frontHead frontParsed
      have positive : total ≠ 0 := by
        rintro rfl
        rw [← spelled] at frontHead
        exact frontHead rfl
      rw [if_neg (by omega), show (total * 10 + value) / 10 = total by omega,
        show (total * 10 + value) % 10 = value by omega, spelled, same]

theorem isDigit_toDigits (number : Nat) :
    ∀ digit ∈ Nat.toDigits 10 number, digit.isDigit = true :=
  fun _ member => Nat.isDigit_of_mem_toDigits (by decide) (Nat.le_refl _) member

/-- Without a sign the digits are the whole text. -/
theorem parseUnsigned_unsigned {radix greatest : Nat} {first : Char} {rest : List Char}
    (unsigned : first ≠ '+') :
    parseUnsigned radix greatest (first :: rest) =
      (parseDigits radix (first :: rest)).bind fun value =>
        if value ≤ greatest then some value else none := by
  unfold parseUnsigned
  split
  · rename_i same
    exact absurd (List.cons.inj same).1 unsigned
  · rfl

theorem parseUnsigned_toDigits {number greatest : Nat} (small : number ≤ greatest) :
    parseUnsigned 10 greatest (Nat.toDigits 10 number) = some number := by
  have digits := isDigit_toDigits number
  have parsed := parseDigits_toDigits number
  cases text : Nat.toDigits 10 number with
  | nil => exact absurd text Nat.toDigits_ne_nil
  | cons first rest =>
    rw [text] at digits parsed
    have unsigned : first ≠ '+' := by
      rintro rfl
      exact absurd (digits '+' List.mem_cons_self) (by decide)
    rw [parseUnsigned_unsigned unsigned, parsed, Option.bind_some, if_pos small]

/-- The decimal spelling of an integer is read back if the integer is in range. -/
theorem parseSigned_toString (width : Nat) (whole : Int) :
    parseSigned 10 width (toString whole).toList =
      if -2 ^ (width - 1) ≤ whole ∧ whole < 2 ^ (width - 1) then some whole else none := by
  have power : ((2 ^ (width - 1) : Nat) : Int) = 2 ^ (width - 1) := by push_cast; rfl
  have nonempty (number : Nat) : (Nat.toDigits 10 number).isEmpty = false := by
    simp [Nat.toDigits_ne_nil]
  rw [Int.toString_eq_repr, Int.repr_eq_if]
  by_cases negative : 0 ≤ whole
  · obtain ⟨number, rfl⟩ := Int.eq_ofNat_of_zero_le negative
    have unsigned : splitSign (Nat.toDigits 10 number) = (false, Nat.toDigits 10 number) := by
      have digits := isDigit_toDigits number
      cases text : Nat.toDigits 10 number with
      | nil => rfl
      | cons first rest =>
        have digit := digits first (text ▸ List.mem_cons_self)
        unfold splitSign
        split <;> simp_all
    rw [if_pos negative, Int.toNat_natCast, Nat.repr_eq_ofList_toDigits, String.toList_ofList]
    simp only [parseSigned, unsigned, nonempty, parseDigits_toDigits, Option.bind_some,
      Bool.false_eq_true, if_false]
    exact if_congr (by omega) rfl rfl
  · have digits : ("-" ++ (-whole).toNat.repr).toList = '-' :: Nat.toDigits 10 (-whole).toNat := by
      simp [Nat.repr_eq_ofList_toDigits]
    rw [if_neg negative, digits]
    simp only [parseSigned, splitSign, nonempty, parseDigits_toDigits, Option.bind_some,
      Bool.false_eq_true, if_false, if_true]
    rw [show -(((-whole).toNat : Nat) : Int) = whole by omega]
    exact if_congr (by omega) rfl rfl

end FastMcp.IntegerText
