import Mathlib.Algebra.Ring.Nat
import Mathlib.Data.List.Basic
import Mathlib.Data.List.Infix

/-! # Text as bytes

A text is a Lean string, which is a valid UTF-8 byte array. Code that takes
text apart byte by byte works on the list of its bytes. Prefix removal and
substring search are stated for lists of any type.
-/

namespace FastMcp.ByteText

abbrev Bytes := List UInt8

/-- The UTF-8 bytes of a text. -/
def bytes (text : String) : Bytes :=
  text.toByteArray.data.toList

/-- The text with the given bytes, if they are valid UTF-8. -/
def fromUtf8 (content : Bytes) : Option String :=
  String.fromUTF8? ⟨content.toArray⟩

/-- The text of a sequence of ASCII bytes. -/
def asciiText (content : Bytes) : String :=
  String.ofList (content.map fun byte => Char.ofNat byte.toNat)

/-- The number of bytes of a text. -/
def byteLength (text : List Char) : Nat :=
  (text.map Char.utf8Size).sum

def isControl (character : Char) : Bool :=
  character.toNat ≤ 0x1f || (0x7f ≤ character.toNat && character.toNat ≤ 0x9f)

def isAsciiDigit (character : Char) : Bool :=
  '0' ≤ character && character ≤ '9'

def lineFeed : UInt8 := 10
def carriageReturn : UInt8 := 13
def colon : UInt8 := 58

@[simp]
theorem fromUtf8_bytes (text : String) : fromUtf8 (bytes text) = some text := by
  unfold fromUtf8 bytes
  rw [Array.toArray_toList, String.fromUTF8?, dif_pos text.isValidUTF8]
  rfl

theorem bytes_injective : Function.Injective bytes := by
  intro first second equal
  have decoded := congrArg fromUtf8 equal
  simpa using decoded

variable {text : String}

theorem bytes_of_fromUtf8 {content : Bytes} (decoded : fromUtf8 content = some text) :
    bytes text = content := by
  unfold fromUtf8 String.fromUTF8? at decoded
  split at decoded
  · rw [← Option.some.inj decoded]
    simp [bytes, String.fromUTF8]
  · contradiction

theorem toNat_ofNat_byte (byte : UInt8) : (Char.ofNat byte.toNat).toNat = byte.toNat := by
  have valid : byte.toNat.isValidChar := .inl (Nat.lt_trans byte.toNat_lt (by decide))
  rw [Char.ofNat, dif_pos valid]
  rfl

theorem utf8EncodeChar_ascii (byte : UInt8) (ascii : byte < 128) :
    String.utf8EncodeChar (Char.ofNat byte.toNat) = [byte] := by
  have small : byte.toNat < 128 := UInt8.lt_iff_toNat_lt.mp ascii
  have isByte : (Char.ofNat byte.toNat).val.toNat = byte.toNat := toNat_ofNat_byte byte
  unfold String.utf8EncodeChar
  simp only [isByte]
  rw [if_pos (by omega)]
  simp

theorem bytes_ofList (characters : List Char) :
    bytes (String.ofList characters) = characters.flatMap String.utf8EncodeChar := by
  simp [bytes, List.utf8Encode]

theorem bytes_eq_flatMap (text : String) :
    bytes text = text.toList.flatMap String.utf8EncodeChar := by
  rw [← bytes_ofList, String.ofList_toList]

theorem bytes_append (first second : String) :
    bytes (first ++ second) = bytes first ++ bytes second := by
  simp [bytes]

theorem utf8ByteSize_eq (text : String) : text.utf8ByteSize = (bytes text).length := by
  simp [bytes]

/-- An ASCII byte occurs only in the encoding of its own character. -/
theorem eq_of_mem_utf8EncodeChar {character : Char} {byte : UInt8} (ascii : byte < 128)
    (member : byte ∈ String.utf8EncodeChar character) : character = Char.ofNat byte.toNat := by
  have small : byte.toNat < 128 := UInt8.lt_iff_toNat_lt.mp ascii
  unfold String.utf8EncodeChar at member
  simp only at member
  split at member
  · rename_i short
    have fits : character.toNat % 2 ^ 8 = character.toNat := Nat.mod_eq_of_lt (by
      change character.val.toNat < 256
      omega)
    rw [List.mem_singleton.mp member, UInt8.toNat_ofNat', ← Char.toNat, fits, Char.ofNat_toNat]
  -- Every byte of a longer encoding has its top bit set.
  split at member
  · simp only [List.mem_cons, List.not_mem_nil, or_false] at member
    rcases member with rfl | rfl <;> simp at small <;> omega
  split at member
  · simp only [List.mem_cons, List.not_mem_nil, or_false] at member
    rcases member with rfl | rfl | rfl <;> simp at small <;> omega
  · simp only [List.mem_cons, List.not_mem_nil, or_false] at member
    rcases member with rfl | rfl | rfl | rfl <;> simp at small <;> omega

theorem mem_toList_of_mem_bytes {byte : UInt8} (ascii : byte < 128) (member : byte ∈ bytes text) :
    Char.ofNat byte.toNat ∈ text.toList := by
  rw [bytes_eq_flatMap, List.mem_flatMap] at member
  obtain ⟨character, charMember, member⟩ := member
  rw [← eq_of_mem_utf8EncodeChar ascii member]
  exact charMember

theorem bytes_asciiText {content : Bytes} (ascii : ∀ byte ∈ content, byte < 128) :
    bytes (asciiText content) = content := by
  rw [asciiText, bytes_ofList, List.flatMap_map]
  induction content with
  | nil => rfl
  | cons byte rest ih =>
    rw [List.flatMap_cons, utf8EncodeChar_ascii byte (ascii byte List.mem_cons_self),
      ih fun other member => ascii other (List.mem_cons_of_mem _ member)]
    rfl

/-- A text all of whose bytes are ASCII is the text of those bytes. -/
theorem asciiText_bytes (ascii : ∀ byte ∈ bytes text, byte < 128) : asciiText (bytes text) = text :=
  bytes_injective (bytes_asciiText ascii)

theorem toList_asciiText (content : Bytes) :
    (asciiText content).toList = content.map fun byte => Char.ofNat byte.toNat :=
  String.toList_ofList

section Slices

variable {Item : Type*} [DecidableEq Item]

/-- Removes a prefix from a text. -/
def stripPrefix : List Item → List Item → Option (List Item)
  | [], text => some text
  | _ :: _, [] => none
  | first :: rest, head :: tail => if first = head then stripPrefix rest tail else none

variable {text slice : List Item}

theorem stripPrefix_eq_some {lead rest : List Item} :
    stripPrefix lead text = some rest ↔ text = lead ++ rest := by
  induction lead generalizing text with
  | nil => simp [stripPrefix]
  | cons first lead ih =>
    cases text with
    | nil => simp [stripPrefix]
    | cons head tail =>
      by_cases same : first = head
      · simp [stripPrefix, same, ih]
      · simp [stripPrefix, same, Ne.symm same]

@[simp]
theorem stripPrefix_append (lead rest : List Item) :
    stripPrefix lead (lead ++ rest) = some rest :=
  stripPrefix_eq_some.mpr rfl

theorem stripPrefix_eq_none {lead : List Item} :
    stripPrefix lead text = none ↔ ¬ lead <+: text := by
  rw [← not_iff_not, not_not, ← ne_eq, Option.ne_none_iff_exists']
  exact exists_congr fun rest => stripPrefix_eq_some.trans eq_comm

/-- The first offset at which a slice occurs in a text. -/
def findSlice (slice : List Item) : List Item → Option Nat
  | [] => if slice = [] then some 0 else none
  | head :: tail =>
    if slice <+: head :: tail then some 0 else (findSlice slice tail).map (· + 1)

end Slices

end FastMcp.ByteText
