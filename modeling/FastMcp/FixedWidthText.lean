import FastMcp.ByteText
import Mathlib.Algebra.Ring.Nat

/-! # Numbers of a fixed width in ordered texts

Texts that are compared byte by byte are ordered like their fields, one after
another, if all but the last field have a fixed width. A number gets one by
zeros in front of its digits.
-/

namespace FastMcp.FixedWidthText

open ByteText

theorem append_lt_append_iff {Item : Type} [LT Item] {first second rest other : List Item}
    (width : first.length = second.length) :
    first ++ rest < second ++ other ↔ first < second ∨ first = second ∧ rest < other := by
  induction first generalizing second with
  | nil =>
    rw [List.eq_nil_of_length_eq_zero width.symm]
    simp
  | cons item first ih =>
    cases second with
    | nil => contradiction
    | cons otherItem second =>
      rw [List.cons_append, List.cons_append, List.cons_lt_cons_iff, List.cons_lt_cons_iff,
        ih (Nat.succ.inj width), List.cons.injEq]
      tauto

/-- The digits of a number behind enough zeros for the width. -/
def zeroPadded (width number : Nat) : List Char :=
  (Nat.toDigits 10 number).leftpad width '0'

def paddedBytes (width number : Nat) : Bytes :=
  (zeroPadded width number).flatMap String.utf8EncodeChar

theorem digit_byte : ∀ digit < 10,
    String.utf8EncodeChar (Nat.digitChar digit) = [UInt8.ofNat (48 + digit)] := by
  decide

theorem zeroPadded_snoc (width number : Nat) : zeroPadded (width + 2) number =
    zeroPadded (width + 1) (number / 10) ++ [Nat.digitChar (number % 10)] := by
  unfold zeroPadded List.leftpad
  rw [Nat.toDigits_eq_if (by decide)]
  split
  · rename_i small
    rw [Nat.div_eq_of_lt small, Nat.mod_eq_of_lt small, Nat.toDigits_of_lt_base (by decide)]
    rw [List.length_singleton, List.length_singleton, Nat.add_sub_cancel,
      show width + 2 - 1 = width + 1 from rfl, List.replicate_succ']
    rfl
  · rw [List.length_append, List.length_singleton, ← List.append_assoc]
    congr 3
    omega

theorem paddedBytes_one {number : Nat} (small : number < 10) :
    paddedBytes 1 number = [UInt8.ofNat (48 + number)] := by
  simp [paddedBytes, zeroPadded, List.leftpad, Nat.toDigits_of_lt_base small,
    digit_byte number small]

theorem paddedBytes_snoc (width number : Nat) : paddedBytes (width + 2) number =
    paddedBytes (width + 1) (number / 10) ++ [UInt8.ofNat (48 + number % 10)] := by
  rw [paddedBytes, zeroPadded_snoc, List.flatMap_append, List.flatMap_singleton,
    digit_byte _ (Nat.mod_lt _ (by decide))]
  rfl

theorem toNat_digit {digit : Nat} (small : digit < 10) :
    (UInt8.ofNat (48 + digit)).toNat = 48 + digit := by
  rw [UInt8.toNat_ofNat']
  omega

theorem length_paddedBytes {width number : Nat} (fits : number < 10 ^ (width + 1)) :
    (paddedBytes (width + 1) number).length = width + 1 := by
  induction width generalizing number with
  | zero => rw [paddedBytes_one (by simpa using fits), List.length_singleton]
  | succ width ih =>
    rw [paddedBytes_snoc, List.length_append, List.length_singleton, ih]
    exact Nat.div_lt_of_lt_mul (by rwa [Nat.pow_succ'] at fits)

theorem mem_paddedBytes {width number : Nat} (fits : number < 10 ^ (width + 1)) {byte : UInt8}
    (listed : byte ∈ paddedBytes (width + 1) number) : byte.toNat < 58 := by
  induction width generalizing number with
  | zero =>
    have small : number < 10 := by simpa using fits
    rw [paddedBytes_one small, List.mem_singleton] at listed
    rw [listed, toNat_digit small]
    omega
  | succ width ih =>
    rw [paddedBytes_snoc, List.mem_append, List.mem_singleton] at listed
    rcases listed with listed | rfl
    · exact ih (Nat.div_lt_of_lt_mul (by rwa [Nat.pow_succ'] at fits)) listed
    · rw [toNat_digit (Nat.mod_lt _ (by decide))]
      omega

/-- Numbers of a fixed width are ordered like their bytes. -/
theorem paddedBytes_order {width first second : Nat} (firstFits : first < 10 ^ (width + 1))
    (secondFits : second < 10 ^ (width + 1)) :
    (paddedBytes (width + 1) first < paddedBytes (width + 1) second ↔ first < second) ∧
      (paddedBytes (width + 1) first = paddedBytes (width + 1) second ↔ first = second) := by
  have digitOrder {first second : Nat} (firstSmall : first < 10) (secondSmall : second < 10) :
      ([UInt8.ofNat (48 + first)] < [UInt8.ofNat (48 + second)] ↔ first < second) ∧
        (UInt8.ofNat (48 + first) = UInt8.ofNat (48 + second) ↔ first = second) := by
    rw [List.cons_lt_cons_iff, UInt8.lt_iff_toNat_lt, ← UInt8.toNat_inj, toNat_digit firstSmall,
      toNat_digit secondSmall]
    simp
  induction width generalizing first second with
  | zero =>
    have firstSmall : first < 10 := by simpa using firstFits
    have secondSmall : second < 10 := by simpa using secondFits
    simpa [paddedBytes_one firstSmall, paddedBytes_one secondSmall]
      using digitOrder firstSmall secondSmall
  | succ width ih =>
    have firstRest : first / 10 < 10 ^ (width + 1) :=
      Nat.div_lt_of_lt_mul (by rwa [Nat.pow_succ'] at firstFits)
    have secondRest : second / 10 < 10 ^ (width + 1) :=
      Nat.div_lt_of_lt_mul (by rwa [Nat.pow_succ'] at secondFits)
    have lengths := (length_paddedBytes firstRest).trans (length_paddedBytes secondRest).symm
    obtain ⟨rests, same⟩ := ih firstRest secondRest
    obtain ⟨lasts, sameLast⟩ :=
      digitOrder (Nat.mod_lt first (by decide)) (Nat.mod_lt second (by decide))
    rw [paddedBytes_snoc, paddedBytes_snoc, append_lt_append_iff lengths, rests, same, lasts,
      List.append_singleton_inj, same, sameLast]
    omega

end FastMcp.FixedWidthText
