import FastMcp.JsonGrammar
import FastMcp.Outcomes

/-! # The shared part of the JSON admission scanners

Two scanners pass over a JSON text before it is decoded: the one that every
consumer of the protocol uses, and the one that the transport codec uses to
classify a frame. They have the same cursor, budgets, string and literal
rules. This module models these; the two scanners differ in how they treat
numbers and object members.

A position in the text is modelled by the characters that follow it.
-/

namespace FastMcp.RawAdmission

open JsonGrammar JsonNumbers

/-- What a scanner has consumed of its budgets, and what is left to read. -/
structure Cursor where
  rest : List Char
  containerEntries : Nat
  numberBytes : Nat
  decodedStringBytes : Nat
deriving DecidableEq, Repr

def Cursor.new (input : List Char) : Cursor :=
  ⟨input, 0, 0, 0⟩

/-- The limits of a scanner and its words for passing them. -/
structure ScanProfile (Failure : Type) where
  maxNestingDepth : Nat
  maxContainerEntries : Nat
  maxNumberBytes : Nat
  maxAggregateNumberBytes : Nat
  maxExponent : Nat
  invalidSyntax : Failure
  nestingTooDeep : Failure
  tooManyContainerEntries : Failure
  numberTooLong : Failure
  tooManyNumberBytes : Failure
  exponentTooLarge : Failure
  tooManyDecodedStringBytes : Failure

namespace Cursor

def skipWhitespace (cursor : Cursor) : Cursor :=
  { cursor with rest := cursor.rest.dropWhile isWhitespace }

/-- The cursor after an expected character. -/
def consume (cursor : Cursor) (expected : Char) : Option Cursor :=
  match cursor.rest with
  | [] => none
  | first :: rest => if first = expected then some { cursor with rest := rest } else none

end Cursor

/-! ## Strings -/

def parseHexQuad (text : List Char) : Option (Nat × List Char) :=
  if (text.take 4).length = 4 then
    ((text.take 4).foldlM (fun value digit => (nibble digit).map (value * 16 + ·)) 0).map
      (·, text.drop 4)
  else none

def parseUnicodeEscape (text : List Char) : Option (Char × List Char) :=
  (parseHexQuad text).bind fun first =>
    if isHighSurrogate first.1 then
      match first.2 with
      | '\\' :: 'u' :: rest =>
        (parseHexQuad rest).bind fun second =>
          if isLowSurrogate second.1 then
            (codePoint (pairScalar first.1 second.1)).map (·, second.2)
          else none
      | _ => none
    else if isLowSurrogate first.1 then none
    else (codePoint first.1).map (·, first.2)

def parseEscape : List Char → Option (Char × List Char)
  | '"' :: rest => some ('"', rest)
  | '\\' :: rest => some ('\\', rest)
  | '/' :: rest => some ('/', rest)
  | 'b' :: rest => some ('\x08', rest)
  | 'f' :: rest => some ('\x0c', rest)
  | 'n' :: rest => some ('\n', rest)
  | 'r' :: rest => some ('\r', rest)
  | 't' :: rest => some ('\t', rest)
  | 'u' :: rest => parseUnicodeEscape rest
  | _ => none

/-- What one turn of the string loop finds. -/
inductive StringStep where
  | closed (rest : List Char)
  | character (decoded : Char) (rest : List Char)
  | invalid

def stringStep : List Char → StringStep
  | [] => .invalid
  | first :: rest =>
    if first = '"' then .closed rest
    else if first = '\\' then
      match parseEscape rest with
      | some (decoded, rest) => .character decoded rest
      | none => .invalid
    else if first.toNat < 0x20 then .invalid
    else .character first rest

namespace ScanProfile

variable {Failure : Type} (profile : ScanProfile Failure)

def enterContainer (depth : Nat) : Except Failure Nat :=
  if depth + 1 > profile.maxNestingDepth then .error profile.nestingTooDeep else .ok (depth + 1)

def chargeContainerEntry (cursor : Cursor) : Except Failure Cursor :=
  if cursor.containerEntries + 1 > profile.maxContainerEntries then
    .error profile.tooManyContainerEntries
  else .ok { cursor with containerEntries := cursor.containerEntries + 1 }

def chargeStringBytes (decodedStringByteLimit bytes : Nat) (cursor : Cursor) :
    Except Failure Cursor :=
  if cursor.decodedStringBytes + bytes > decodedStringByteLimit then
    .error profile.tooManyDecodedStringBytes
  else .ok { cursor with decodedStringBytes := cursor.decodedStringBytes + bytes }

def chargeNumberBytes (bytes : Nat) (cursor : Cursor) : Except Failure Cursor :=
  if cursor.numberBytes + bytes > profile.maxAggregateNumberBytes then
    .error profile.tooManyNumberBytes
  else .ok { cursor with numberBytes := cursor.numberBytes + bytes }

/-- The loop over the characters of a string. Every turn consumes a character,
so as many turns as there are characters left are enough. -/
def parseStringLoop (decodedStringByteLimit : Nat) :
    Nat → Option String → Cursor → Except Failure (Option String × Cursor)
  | 0, _, _ => .error profile.invalidSyntax
  | turns + 1, decoded, cursor =>
    match stringStep cursor.rest with
    | .invalid => .error profile.invalidSyntax
    | .closed rest => .ok (decoded, { cursor with rest := rest })
    | .character character rest =>
      (profile.chargeStringBytes decodedStringByteLimit character.utf8Size
        { cursor with rest := rest }).bind fun cursor =>
          parseStringLoop decodedStringByteLimit turns (decoded.map (·.push character)) cursor

def parseString (decodedStringByteLimit : Nat) (capture : Bool) (cursor : Cursor) :
    Except Failure (Option String × Cursor) :=
  match cursor.consume '"' with
  | none => .error profile.invalidSyntax
  | some cursor =>
    profile.parseStringLoop decodedStringByteLimit cursor.rest.length
      (if capture then some "" else none) cursor

def parseLiteral (literal : List Char) (cursor : Cursor) : Except Failure Cursor :=
  if literal.isPrefixOf cursor.rest then
    .ok { cursor with rest := cursor.rest.drop literal.length }
  else .error profile.invalidSyntax

/-- Whether the digits of an exponent denote more than the limit. -/
def exponentExceedsLimit (digits : List Char) : Bool :=
  (digits.dropWhile (· == '0')).length > 5 ||
    (digits.dropWhile (· == '0')).foldl (fun value digit => value * 10 + (digit.toNat - '0'.toNat)) 0
      > profile.maxExponent

end ScanProfile

end FastMcp.RawAdmission
