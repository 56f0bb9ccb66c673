import FastMcp.JsonNumbers

/-! # JSON texts as syntax trees

The trees of this module keep everything that a JSON text consists of:
whitespace, number tokens and the spelling of each string character. Rendering
a tree gives back its text, so a text is JSON exactly when some tree renders
to it.
-/

namespace FastMcp.JsonGrammar

open ByteText JsonNumbers

def isWhitespace (character : Char) : Bool :=
  character == ' ' || character == '\t' || character == '\r' || character == '\n'

/-- A possibly empty run of whitespace. -/
structure Whitespace where
  text : List Char
  blank : ∀ character ∈ text, isWhitespace character = true
deriving DecidableEq

/-! ## Strings -/

/-- The value of a hexadecimal digit. -/
def nibble (digit : Char) : Option Nat :=
  if '0' ≤ digit ∧ digit ≤ '9' then some (digit.toNat - '0'.toNat)
  else if 'a' ≤ digit ∧ digit ≤ 'f' then some (digit.toNat - 'a'.toNat + 10)
  else if 'A' ≤ digit ∧ digit ≤ 'F' then some (digit.toNat - 'A'.toNat + 10)
  else none

/-- Four hexadecimal digits. -/
structure HexQuad where
  digits : List Char
  four : digits.length = 4
  hexadecimal : ∀ digit ∈ digits, (nibble digit).isSome = true
deriving DecidableEq

def HexQuad.value (quad : HexQuad) : Nat :=
  quad.digits.foldl (fun value digit => value * 16 + (nibble digit).getD 0) 0

/-- The escapes that name one character by one letter or mark. -/
inductive ShortEscape where
  | quote
  | backslash
  | slash
  | backspace
  | formFeed
  | newline
  | carriageReturn
  | tab
deriving DecidableEq, Repr

namespace ShortEscape

def letter : ShortEscape → Char
  | quote => '"'
  | backslash => '\\'
  | slash => '/'
  | backspace => 'b'
  | formFeed => 'f'
  | newline => 'n'
  | carriageReturn => 'r'
  | tab => 't'

def character : ShortEscape → Char
  | quote => '"'
  | backslash => '\\'
  | slash => '/'
  | backspace => '\x08'
  | formFeed => '\x0c'
  | newline => '\n'
  | carriageReturn => '\r'
  | tab => '\t'

end ShortEscape

/-- A character that stands for itself in a string. -/
def isUnescaped (character : Char) : Bool :=
  0x20 ≤ character.toNat && character != '"' && character != '\\'

inductive StringItem where
  | plain (character : Char) (unescaped : isUnescaped character = true)
  | short (escape : ShortEscape)
  | unicode (quad : HexQuad)
deriving DecidableEq

def StringItem.text : StringItem → List Char
  | plain character _ => [character]
  | short escape => ['\\', escape.letter]
  | unicode quad => '\\' :: 'u' :: quad.digits

/-- The text of a string between its quotation marks, with both of them. -/
def stringText (items : List StringItem) : List Char :=
  '"' :: (items.flatMap StringItem.text ++ ['"'])

/-- The character with a given code point, if that is a Unicode scalar value. -/
def codePoint (scalar : Nat) : Option Char :=
  if scalar.isValidChar then some (Char.ofNat scalar) else none

def isHighSurrogate (unit : Nat) : Bool :=
  0xd800 ≤ unit && unit ≤ 0xdbff

def isLowSurrogate (unit : Nat) : Bool :=
  0xdc00 ≤ unit && unit ≤ 0xdfff

/-- The code point that a pair of surrogates stands for. -/
def pairScalar (high low : Nat) : Nat :=
  0x10000 + (high - 0xd800) * 0x400 + (low - 0xdc00)

/-- The characters that a string denotes. A surrogate that is not part of a
pair denotes nothing. -/
def decodeItems : List StringItem → Option (List Char)
  | [] => some []
  | .plain character _ :: items => (decodeItems items).map (character :: ·)
  | .short escape :: items => (decodeItems items).map (escape.character :: ·)
  | .unicode high :: .unicode low :: items =>
    if isHighSurrogate high.value then
      if isLowSurrogate low.value then
        (codePoint (pairScalar high.value low.value)).bind fun character =>
          (decodeItems items).map (character :: ·)
      else none
    else
      (codePoint high.value).bind fun character =>
        (decodeItems (.unicode low :: items)).map (character :: ·)
  | .unicode quad :: items =>
    if isHighSurrogate quad.value then none
    else (codePoint quad.value).bind fun character => (decodeItems items).map (character :: ·)

/-- The ways of writing one character in a string. -/
inductive Spells : List StringItem → Char → Prop where
  | plain (character : Char) (unescaped : isUnescaped character = true) :
      Spells [.plain character unescaped] character
  | short (escape : ShortEscape) : Spells [.short escape] escape.character
  | unicode (quad : HexQuad) (character : Char) (single : isHighSurrogate quad.value = false)
      (scalar : codePoint quad.value = some character) : Spells [.unicode quad] character
  | pair (high low : HexQuad) (character : Char) (isHigh : isHighSurrogate high.value = true)
      (isLow : isLowSurrogate low.value = true)
      (scalar : codePoint (pairScalar high.value low.value) = some character) :
      Spells [.unicode high, .unicode low] character

theorem decodeItems_spelled {spelled : List StringItem} {character : Char}
    (spells : Spells spelled character) (items : List StringItem) :
    decodeItems (spelled ++ items) = (decodeItems items).map (character :: ·) := by
  cases spells with
  | plain character unescaped => rfl
  | short escape => rfl
  | unicode quad character single scalar =>
    rcases items with _ | ⟨first, items⟩
    · simp [decodeItems, single, scalar]
    · cases first <;> simp [decodeItems, single, scalar]
  | pair high low character isHigh isLow scalar => simp [decodeItems, isHigh, isLow, scalar]

/-- A string that denotes a character first begins by spelling it. -/
theorem decodeItems_cons {items : List StringItem} {character : Char} {characters : List Char}
    (decoded : decodeItems items = some (character :: characters)) :
    ∃ spelled rest, items = spelled ++ rest ∧ Spells spelled character ∧
      decodeItems rest = some characters := by
  unfold decodeItems at decoded
  split at decoded
  · simp at decoded
  · rename_i first unescaped items
    obtain ⟨rest, restDecoded, equal⟩ := Option.map_eq_some_iff.mp decoded
    obtain ⟨rfl, rfl⟩ := List.cons.inj equal
    exact ⟨[.plain _ unescaped], items, rfl, .plain _ unescaped, restDecoded⟩
  · rename_i escape items
    obtain ⟨rest, restDecoded, equal⟩ := Option.map_eq_some_iff.mp decoded
    obtain ⟨rfl, rfl⟩ := List.cons.inj equal
    exact ⟨[.short escape], items, rfl, .short escape, restDecoded⟩
  · rename_i high low items
    split at decoded
    · rename_i isHigh
      split at decoded
      · rename_i isLow
        obtain ⟨first, scalar, mapped⟩ := Option.bind_eq_some_iff.mp decoded
        obtain ⟨rest, restDecoded, equal⟩ := Option.map_eq_some_iff.mp mapped
        obtain ⟨rfl, rfl⟩ := List.cons.inj equal
        exact ⟨[.unicode high, .unicode low], items, rfl, .pair high low _ isHigh isLow scalar,
          restDecoded⟩
      · simp at decoded
    · rename_i notHigh
      obtain ⟨first, scalar, mapped⟩ := Option.bind_eq_some_iff.mp decoded
      obtain ⟨rest, restDecoded, equal⟩ := Option.map_eq_some_iff.mp mapped
      obtain ⟨rfl, rfl⟩ := List.cons.inj equal
      exact ⟨[.unicode high], .unicode low :: items, rfl,
        .unicode high _ (Bool.not_eq_true _ ▸ notHigh) scalar, restDecoded⟩
  · rename_i quad items _
    split at decoded
    · simp at decoded
    · rename_i notHigh
      obtain ⟨first, scalar, mapped⟩ := Option.bind_eq_some_iff.mp decoded
      obtain ⟨rest, restDecoded, equal⟩ := Option.map_eq_some_iff.mp mapped
      obtain ⟨rfl, rfl⟩ := List.cons.inj equal
      exact ⟨[.unicode quad], items, rfl, .unicode quad _ (Bool.not_eq_true _ ▸ notHigh) scalar,
        restDecoded⟩

theorem eq_nil_of_decodeItems {items : List StringItem} (decoded : decodeItems items = some []) :
    items = [] := by
  unfold decodeItems at decoded
  split at decoded
  · rfl
  all_goals
    repeat' split at decoded
    all_goals simp [Option.bind_eq_some_iff] at decoded

/-- The number of bytes of the characters that a string denotes. -/
def decodedLength (items : List StringItem) : Nat :=
  ((decodeItems items).map byteLength).getD 0

/-! ## Values -/

/-- The name of an object member with the colon and the blanks around it. -/
structure MemberName where
  items : List StringItem
  after : Whitespace
  before : Whitespace
deriving DecidableEq

def MemberName.text (name : MemberName) : List Char :=
  stringText name.items ++ name.after.text ++ ':' :: name.before.text

mutual

inductive Value where
  | null
  | boolean (value : Bool)
  | number (lexeme : NumberLexeme)
  | string (items : List StringItem)
  | emptyArray (inside : Whitespace)
  | array (before : Whitespace) (elements : Elements)
  | emptyObject (inside : Whitespace)
  | object (before : Whitespace) (members : Members)

/-- The elements of an array up to its closing bracket. -/
inductive Elements where
  | last (value : Value) (after : Whitespace)
  | more (value : Value) (after before : Whitespace) (rest : Elements)

/-- The members of an object up to its closing brace. -/
inductive Members where
  | last (name : MemberName) (value : Value) (after : Whitespace)
  | more (name : MemberName) (value : Value) (after before : Whitespace) (rest : Members)

end

mutual

def Value.text : Value → List Char
  | .null => ['n', 'u', 'l', 'l']
  | .boolean true => ['t', 'r', 'u', 'e']
  | .boolean false => ['f', 'a', 'l', 's', 'e']
  | .number lexeme => lexeme.text
  | .string items => stringText items
  | .emptyArray inside => '[' :: (inside.text ++ [']'])
  | .array before elements => '[' :: (before.text ++ elements.text)
  | .emptyObject inside => '\x7b' :: (inside.text ++ ['\x7d'])
  | .object before members => '\x7b' :: (before.text ++ members.text)

def Elements.text : Elements → List Char
  | .last value after => value.text ++ (after.text ++ [']'])
  | .more value after before rest => value.text ++ (after.text ++ ',' :: (before.text ++ rest.text))

def Members.text : Members → List Char
  | .last name value after => name.text ++ (value.text ++ (after.text ++ ['\x7d']))
  | .more name value after before rest =>
    name.text ++ (value.text ++ (after.text ++ ',' :: (before.text ++ rest.text)))

end

mutual

/-- How deeply arrays and objects are nested in a value. -/
def Value.nesting : Value → Nat
  | .emptyArray _ | .emptyObject _ => 1
  | .array _ elements => elements.nesting + 1
  | .object _ members => members.nesting + 1
  | .null | .boolean _ | .number _ | .string _ => 0

def Elements.nesting : Elements → Nat
  | .last value _ => value.nesting
  | .more value _ _ rest => max value.nesting rest.nesting

def Members.nesting : Members → Nat
  | .last _ value _ => value.nesting
  | .more _ value _ _ rest => max value.nesting rest.nesting

end

mutual

/-- The number of array elements and object members at every depth. -/
def Value.entries : Value → Nat
  | .array _ elements => elements.entries
  | .object _ members => members.entries
  | .emptyArray _ | .emptyObject _ | .null | .boolean _ | .number _ | .string _ => 0

def Elements.entries : Elements → Nat
  | .last value _ => value.entries + 1
  | .more value _ _ rest => value.entries + 1 + rest.entries

def Members.entries : Members → Nat
  | .last _ value _ => value.entries + 1
  | .more _ value _ _ rest => value.entries + 1 + rest.entries

end

mutual

/-- The number tokens of a value, in order. -/
def Value.numbers : Value → List NumberLexeme
  | .number lexeme => [lexeme]
  | .array _ elements => elements.numbers
  | .object _ members => members.numbers
  | .emptyArray _ | .emptyObject _ | .null | .boolean _ | .string _ => []

def Elements.numbers : Elements → List NumberLexeme
  | .last value _ => value.numbers
  | .more value _ _ rest => value.numbers ++ rest.numbers

def Members.numbers : Members → List NumberLexeme
  | .last _ value _ => value.numbers
  | .more _ value _ _ rest => value.numbers ++ rest.numbers

end

mutual

/-- The strings of a value, member names included, in order. -/
def Value.strings : Value → List (List StringItem)
  | .string items => [items]
  | .array _ elements => elements.strings
  | .object _ members => members.strings
  | .emptyArray _ | .emptyObject _ | .null | .boolean _ | .number _ => []

def Elements.strings : Elements → List (List StringItem)
  | .last value _ => value.strings
  | .more value _ _ rest => value.strings ++ rest.strings

def Members.strings : Members → List (List StringItem)
  | .last name value _ => name.items :: value.strings
  | .more name value _ _ rest => name.items :: (value.strings ++ rest.strings)

end

/-- The names of the members of one object, in order. -/
def Members.names : Members → List (List StringItem)
  | .last name _ _ => [name.items]
  | .more name _ _ _ rest => name.items :: rest.names

mutual

/-- The member names of every object at every depth, one list for an object. -/
def Value.objects : Value → List (List (List StringItem))
  | .array _ elements => elements.objects
  | .object _ members => members.names :: members.objects
  | .emptyArray _ | .emptyObject _ | .null | .boolean _ | .number _ | .string _ => []

def Elements.objects : Elements → List (List (List StringItem))
  | .last value _ => value.objects
  | .more value _ _ rest => value.objects ++ rest.objects

def Members.objects : Members → List (List (List StringItem))
  | .last _ value _ => value.objects
  | .more _ value _ _ rest => value.objects ++ rest.objects

end

/-- A whole JSON text: one value with optional whitespace around it. -/
structure Document where
  before : Whitespace
  value : Value
  after : Whitespace

def Document.text (document : Document) : List Char :=
  document.before.text ++ (document.value.text ++ document.after.text)

end FastMcp.JsonGrammar
