import FastMcp.ByteText

/-! # UTF-8 with replacement

Decoding never fails: a sequence that is cut short by a byte that cannot
continue it, or by the end of the input, is replaced by one replacement
character, and the byte is then looked at again.
-/

namespace FastMcp.LossyUtf8

open ByteText

def replacement : Char := Char.ofNat 0xFFFD

/-- A sequence that owes continuation bytes, with the bounds of the next one. -/
structure Pending where
  needed : Nat
  lower : Nat
  upper : Nat
  codePoint : Nat
deriving DecidableEq, Repr

/-- The effect of a byte between sequences. -/
def lead (byte : UInt8) : List Char × Option Pending :=
  let value := byte.toNat
  if value < 0x80 then ([Char.ofNat value], none)
  else if 0xC2 ≤ value ∧ value ≤ 0xDF then ([], some ⟨1, 0x80, 0xBF, value - 0xC0⟩)
  else if 0xE0 ≤ value ∧ value ≤ 0xEF then
    let lower := if value = 0xE0 then 0xA0 else 0x80
    -- the bytes above this bound would continue to a surrogate
    let upper := if value = 0xED then 0x9F else 0xBF
    ([], some ⟨2, lower, upper, value - 0xE0⟩)
  else if 0xF0 ≤ value ∧ value ≤ 0xF4 then
    let lower := if value = 0xF0 then 0x90 else 0x80
    let upper := if value = 0xF4 then 0x8F else 0xBF
    ([], some ⟨3, lower, upper, value - 0xF0⟩)
  else ([replacement], none)

def step : Option Pending → UInt8 → List Char × Option Pending
  | none, byte => lead byte
  | some pending, byte =>
    let value := byte.toNat
    if pending.lower ≤ value ∧ value ≤ pending.upper then
      let codePoint := pending.codePoint * 64 + (value - 0x80)
      if pending.needed = 1 then ([Char.ofNat codePoint], none)
      else ([], some ⟨pending.needed - 1, 0x80, 0xBF, codePoint⟩)
    else
      let (characters, next) := lead byte
      (replacement :: characters, next)

def decodeFrom : Option Pending → Bytes → List Char
  | none, [] => []
  | some _, [] => [replacement]
  | state, byte :: rest =>
    let (characters, next) := step state byte
    characters ++ decodeFrom next rest

/-- The text of some bytes, with replacements where they are not valid. -/
def fromUtf8Lossy (content : Bytes) : List Char :=
  decodeFrom none content

/-- Describes the first sequence that is not valid, which is the current one or a later one. Before
the current one there are `start` bytes, and it has `length` bytes so far. -/
def describeError (start length : Nat) : Option Pending → Bytes → String
  | _, [] => s!"incomplete utf-8 byte sequence from index {start}"
  | none, byte :: rest =>
    match (lead byte).2 with
    | some pending => describeError start 1 pending rest
    | none =>
      if byte < 0x80 then describeError (start + 1) 0 none rest
      else s!"invalid utf-8 sequence of 1 bytes from index {start}"
  | some pending, byte :: rest =>
    if pending.lower ≤ byte.toNat ∧ byte.toNat ≤ pending.upper then
      match (step pending byte).2 with
      | some pending => describeError start (length + 1) pending rest
      | none => describeError (start + length + 1) 0 none rest
    else s!"invalid utf-8 sequence of {length} bytes from index {start}"

/-- The message about bytes that are not valid. -/
def utf8Error (content : Bytes) : String :=
  describeError 0 0 none content

example : utf8Error [0xC3, 0xA9, 0xE2, 0x82, 0x41] =
    "invalid utf-8 sequence of 2 bytes from index 2" := by
  rfl

end FastMcp.LossyUtf8
