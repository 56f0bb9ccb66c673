import FastMcp.ByteText

/-! # Percent-encoding

A byte is written as itself when a given test keeps it, and as a percent sign
with two upper-case hexadecimal digits otherwise. An encoder may also copy the
triplets that its input already contains. Decoding replaces every triplet once
and copies all other bytes.
-/

namespace FastMcp.PercentCoding

open ByteText

/-- The percent sign. -/
def percent : UInt8 := 0x25

def hexValue (byte : UInt8) : Option UInt8 :=
  if 0x30 ≤ byte && byte ≤ 0x39 then some (byte - 0x30)
  else if 0x41 ≤ byte && byte ≤ 0x46 then some (byte - 0x41 + 10)
  else if 0x61 ≤ byte && byte ≤ 0x66 then some (byte - 0x61 + 10)
  else none

def isHexDigit (byte : UInt8) : Bool :=
  (hexValue byte).isSome

/-- The upper-case digit of a half byte. -/
def hexDigit (nibble : UInt8) : UInt8 :=
  if nibble < 10 then 0x30 + nibble else 0x41 + (nibble - 10)

/-- The triplet that stands for a byte. -/
def triplet (byte : UInt8) : Bytes :=
  [percent, hexDigit (byte >>> 4), hexDigit (byte &&& 0x0f)]

/-- Whether a text begins with a percent sign and two hexadecimal digits. -/
def startsWithTriplet : Bytes → Bool
  | byte :: high :: low :: _ => byte == percent && isHexDigit high && isHexDigit low
  | _ => false

/-- Whether a triplet occurs anywhere in a text. -/
def containsTriplet : Bytes → Bool
  | [] => false
  | byte :: rest => startsWithTriplet (byte :: rest) || containsTriplet rest

def encodeByte (keep : UInt8 → Bool) (byte : UInt8) : Bytes :=
  if keep byte then [byte] else triplet byte

/-- Percent-encodes a text, copying existing triplets when `preserve` is set. -/
def encode (keep : UInt8 → Bool) (preserve : Bool) : Bytes → Bytes
  | [] => []
  | byte :: rest =>
    match rest with
    | high :: low :: tail =>
      if preserve && startsWithTriplet [byte, high, low] then
        byte :: high :: low :: encode keep preserve tail
      else encodeByte keep byte ++ encode keep preserve (high :: low :: tail)
    | shorter => encodeByte keep byte ++ encode keep preserve shorter

/-- Decodes every triplet once. A percent sign without two digits is an error. -/
def decode : Bytes → Option Bytes
  | [] => some []
  | byte :: rest =>
    if byte = percent then
      match rest with
      | high :: low :: tail => do
        let high ← hexValue high
        let low ← hexValue low
        let tail ← decode tail
        return (high <<< 4 ||| low) :: tail
      | _ => none
    else (decode rest).map (byte :: ·)

theorem decode_cons_of_ne {byte : UInt8} (different : byte ≠ percent) (rest : Bytes) :
    decode (byte :: rest) = (decode rest).map (byte :: ·) := by
  rw [decode.eq_def]
  simp [different]

/-- A statement about every half byte follows from the 16 cases. -/
theorem forall_nibble (holds : UInt8 → Prop) (cases : ∀ value : Fin 16, holds (UInt8.ofNat value))
    {nibble : UInt8} (small : nibble.toNat < 16) : holds nibble := by
  simpa using cases ⟨nibble.toNat, small⟩

theorem high_small (byte : UInt8) : (byte >>> 4).toNat < 16 := by
  have bound := byte.toNat_lt
  simp only [UInt8.toNat_shiftRight, UInt8.reduceToNat, Nat.reduceMod, Nat.shiftRight_eq_div_pow]
  omega

theorem low_small (byte : UInt8) : (byte &&& 0x0f).toNat < 16 := by
  rw [UInt8.toNat_and]
  exact Nat.lt_succ_of_le Nat.and_le_right

theorem hexValue_hexDigit {nibble : UInt8} (small : nibble.toNat < 16) :
    hexValue (hexDigit nibble) = some nibble :=
  forall_nibble (fun nibble => hexValue (hexDigit nibble) = some nibble) (by decide) small

theorem forall_triplet (holds : UInt8 → Prop) (ofPercent : holds percent)
    (ofDigits : ∀ value : Fin 16, holds (hexDigit (UInt8.ofNat value))) (byte : UInt8) :
    ∀ written ∈ triplet byte, holds written := by
  have digit {nibble : UInt8} (small : nibble.toNat < 16) : holds (hexDigit nibble) :=
    forall_nibble (fun nibble => holds (hexDigit nibble)) ofDigits small
  simp only [triplet, List.forall_mem_cons]
  exact ⟨ofPercent, digit (high_small byte), digit (low_small byte), by simp⟩

theorem joined_nibbles (byte : UInt8) : (byte >>> 4) <<< 4 ||| (byte &&& 0x0f) = byte := by
  apply UInt8.toNat_inj.mp
  have small := byte.toNat_lt
  have high : byte.toNat >>> 4 = byte.toNat / 16 := Nat.shiftRight_eq_div_pow _ 4
  have low : byte.toNat &&& 15 = byte.toNat % 16 := Nat.and_two_pow_sub_one_eq_mod _ 4
  have fits : (byte.toNat / 16) <<< 4 % 256 = (byte.toNat / 16) <<< 4 := by
    rw [Nat.shiftLeft_eq]
    omega
  have isNibble : byte.toNat % 16 < 2 ^ 4 := Nat.mod_lt _ (by decide)
  simp only [UInt8.toNat_or, UInt8.toNat_shiftLeft, UInt8.toNat_shiftRight, UInt8.toNat_and,
    UInt8.reduceToNat, Nat.reduceMod, Nat.reducePow]
  rw [high, low, fits, ← Nat.shiftLeft_add_eq_or_of_lt isNibble, Nat.shiftLeft_eq]
  omega

theorem decode_triplet (byte : UInt8) (rest : Bytes) :
    decode (triplet byte ++ rest) = (decode rest).map (byte :: ·) := by
  have high := hexValue_hexDigit (high_small byte)
  have low := hexValue_hexDigit (low_small byte)
  simp only [triplet, List.cons_append, List.nil_append, decode, if_true, high, low]
  cases decode rest with
  | none => rfl
  | some tail => exact congrArg (fun joined => some (joined :: tail)) (joined_nibbles byte)

variable {keep : UInt8 → Bool} {preserve : Bool} {source : Bytes}

theorem decode_encodeByte (keepsNoPercent : keep percent = false) (byte : UInt8) (rest : Bytes) :
    decode (encodeByte keep byte ++ rest) = (decode rest).map (byte :: ·) := by
  unfold encodeByte
  split
  · rename_i kept
    have different : byte ≠ percent := by
      rintro rfl
      rw [keepsNoPercent] at kept
      contradiction
    exact decode_cons_of_ne different rest
  · exact decode_triplet byte rest

/-- Without existing triplets to copy, every byte is encoded on its own. -/
theorem encode_eq_flatMap (plain : preserve = true → containsTriplet source = false) :
    encode keep preserve source = source.flatMap (encodeByte keep) := by
  induction source with
  | nil => rfl
  | cons byte rest ih =>
    have restPlain : preserve = true → containsTriplet rest = false := by
      intro preserved
      have whole := plain preserved
      rw [containsTriplet, Bool.or_eq_false_iff] at whole
      exact whole.2
    rw [List.flatMap_cons, ← ih restPlain]
    rcases rest with _ | ⟨high, _ | ⟨low, tail⟩⟩
    · rfl
    · rfl
    · rw [encode]
      split
      · rename_i copied
        rw [Bool.and_eq_true] at copied
        have whole := plain copied.1
        rw [containsTriplet, Bool.or_eq_false_iff] at whole
        have starts : startsWithTriplet (byte :: high :: low :: tail) = true := copied.2
        rw [starts] at whole
        exact absurd whole.1 Bool.noConfusion
      · rfl

theorem decode_flatMap_append (keepsNoPercent : keep percent = false) (source rest : Bytes) :
    decode (source.flatMap (encodeByte keep) ++ rest) = (decode rest).map (source ++ ·) := by
  induction source with
  | nil => simp
  | cons byte source ih =>
    rw [List.flatMap_cons, List.append_assoc, decode_encodeByte keepsNoPercent, ih, Option.map_map]
    rfl

theorem encodeByte_length (keep : UInt8 → Bool) (byte : UInt8) :
    (encodeByte keep byte).length ≤ 3 := by
  unfold encodeByte
  split <;> simp [triplet]

theorem encode_length (keep : UInt8 → Bool) (preserve : Bool) (source : Bytes) :
    (encode keep preserve source).length ≤ 3 * source.length := by
  fun_induction encode keep preserve source with
  | case1 => simp
  | case2 byte high low tail _ ih =>
    simp only [List.length_cons]
    omega
  | case3 byte high low tail _ ih =>
    have short := encodeByte_length keep byte
    simp only [List.length_append, List.length_cons] at ih ⊢
    omega
  | case4 byte shorter _ ih =>
    have short := encodeByte_length keep byte
    simp only [List.length_append, List.length_cons]
    omega

/-- A text of bytes that are kept is not changed by encoding. -/
theorem encode_kept (keepsNoPercent : keep percent = false) (preserve : Bool) (source : Bytes)
    (kept : ∀ byte ∈ source, keep byte = true) : encode keep preserve source = source := by
  fun_induction encode keep preserve source with
  | case1 => rfl
  | case2 byte high low tail preserved ih =>
    simp only [startsWithTriplet, Bool.and_eq_true, beq_iff_eq] at preserved
    have percentKept := kept byte List.mem_cons_self
    rw [preserved.2.1.1, keepsNoPercent] at percentKept
    contradiction
  | case3 byte high low tail _ ih =>
    rw [encodeByte, if_pos (kept byte List.mem_cons_self),
      ih fun other member => kept other (List.mem_cons_of_mem _ member)]
    rfl
  | case4 byte shorter _ ih =>
    rw [encodeByte, if_pos (kept byte List.mem_cons_self),
      ih fun other member => kept other (List.mem_cons_of_mem _ member)]
    rfl

theorem triplet_ascii (byte : UInt8) : ∀ written ∈ triplet byte, written < 128 :=
  forall_triplet (· < 128) (by decide) (by decide) byte

theorem isHexDigit_ascii (byte : UInt8) (isHex : isHexDigit byte = true) : byte < 128 := by
  simp only [isHexDigit, hexValue, Bool.and_eq_true, decide_eq_true_eq] at isHex
  split_ifs at isHex with digit upper lower
  · exact UInt8.lt_of_le_of_lt digit.2 (by decide)
  · exact UInt8.lt_of_le_of_lt upper.2 (by decide)
  · exact UInt8.lt_of_le_of_lt lower.2 (by decide)
  · contradiction

theorem encodeByte_ascii (keepsAscii : ∀ byte, keep byte = true → byte < 128) (byte : UInt8) :
    ∀ written ∈ encodeByte keep byte, written < 128 := by
  intro written member
  unfold encodeByte at member
  split at member
  · rename_i kept
    rw [List.mem_singleton.mp member]
    exact keepsAscii byte kept
  · exact triplet_ascii byte written member

/-- An encoder that keeps only ASCII bytes writes only ASCII bytes. -/
theorem encode_ascii (keepsAscii : ∀ byte, keep byte = true → byte < 128) (preserve : Bool)
    (source : Bytes) : ∀ written ∈ encode keep preserve source, written < 128 := by
  fun_induction encode keep preserve source with
  | case1 => simp
  | case2 byte high low tail preserved ih =>
    simp only [startsWithTriplet, Bool.and_eq_true, beq_iff_eq] at preserved
    obtain ⟨-, ⟨rfl, highDigit⟩, lowDigit⟩ := preserved
    simp only [List.forall_mem_cons]
    exact ⟨by decide, isHexDigit_ascii high highDigit, isHexDigit_ascii low lowDigit, ih⟩
  | case3 byte high low tail _ ih =>
    exact List.forall_mem_append.mpr ⟨encodeByte_ascii keepsAscii byte, ih⟩
  | case4 byte shorter _ ih =>
    exact List.forall_mem_append.mpr ⟨encodeByte_ascii keepsAscii byte, ih⟩

end FastMcp.PercentCoding
