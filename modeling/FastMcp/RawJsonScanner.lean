import FastMcp.AdmissionScanning
import FastMcp.ByteText

/-! # The protocol's raw JSON admission scanner

`admitRawJsonDocument` is the bounded pass that a JSON document has to survive
before it is decoded. It does not build a value: it checks the syntax, keeps
the document within its limits and refuses an object in which two members have
the same decoded name.
-/

namespace FastMcp.RawAdmission

open ByteText JsonGrammar JsonNumbers

inductive RawJsonAdmissionError where
  | documentTooLarge
  | invalidUtf8
  | byteOrderMark
  | invalidSyntax
  | topLevelBatch
  | topLevelNotObject
  | duplicateObjectMember
  | nestingTooDeep
  | tooManyContainerEntries
  | numberTooLong
  | tooManyNumberBytes
  | exponentTooLarge
  | tooManyDecodedStringBytes
deriving DecidableEq, Repr

inductive RawJsonTopLevel where
  | jsonRpcObject
  | securityDocumentObject
  | anyValue
deriving DecidableEq, Repr

inductive RawJsonPathSegment where
  | member (name : String)
  | index (index : Nat)
deriving DecidableEq, Repr

/-- An error together with the redacted path at which it was found. -/
structure RawJsonAdmissionFailure where
  error : RawJsonAdmissionError
  path : String
deriving DecidableEq, Repr

def RawJsonAdmissionFailure.atRoot (error : RawJsonAdmissionError) : RawJsonAdmissionFailure :=
  ⟨error, ""⟩

def maxRawJsonPathSegmentBytes : Nat := 64

def maxRawJsonPathSegments : Nat := 16

def redactCharacter (character : Char) : Char :=
  if character.isAlphanum || character == '_' || character == '.' || character == '-' then character
  else '*'

def RawJsonPathSegment.redact : RawJsonPathSegment → String
  | .member name =>
    String.ofList ((name.toList.take maxRawJsonPathSegmentBytes).map redactCharacter) ++
      if name.toList.length > maxRawJsonPathSegmentBytes then "~" else ""
  | .index position => toString position

def redactRawJsonPath (path : List RawJsonPathSegment) : String :=
  (path.take maxRawJsonPathSegments).foldl (fun rendered segment => rendered ++ "/" ++ segment.redact) ""
    ++ if path.length > maxRawJsonPathSegments then "/~" else ""

/-- The limits of the protocol's scanner. -/
def rawScanProfile : ScanProfile RawJsonAdmissionError where
  maxNestingDepth := 64
  maxContainerEntries := 100000
  maxNumberBytes := 4 * 1024
  maxAggregateNumberBytes := 256 * 1024
  maxExponent := 10000
  invalidSyntax := .invalidSyntax
  nestingTooDeep := .nestingTooDeep
  tooManyContainerEntries := .tooManyContainerEntries
  numberTooLong := .numberTooLong
  tooManyNumberBytes := .tooManyNumberBytes
  exponentTooLarge := .exponentTooLarge
  tooManyDecodedStringBytes := .tooManyDecodedStringBytes

namespace RawJsonScanner

abbrev enterContainer := rawScanProfile.enterContainer

abbrev chargeContainerEntry := rawScanProfile.chargeContainerEntry

abbrev parseString := rawScanProfile.parseString

abbrev parseLiteral := rawScanProfile.parseLiteral

abbrev exponentExceedsRawLimit := rawScanProfile.exponentExceedsLimit

/-! ## Numbers -/

def startsWithDigit (text : List Char) : Bool :=
  (text.head?.map isAsciiDigit).getD false

def consumeDigits (text : List Char) : List Char :=
  text.dropWhile isAsciiDigit

/-- What follows an optional minus sign. -/
def skipMinus : List Char → List Char
  | '-' :: rest => rest
  | text => text

/-- What follows an optional sign of an exponent. -/
def skipSign : List Char → List Char
  | '+' :: rest => rest
  | '-' :: rest => rest
  | text => text

def parseWhole : List Char → Except RawJsonAdmissionError (List Char)
  | [] => .error .invalidSyntax
  | first :: rest =>
    if first = '0' then if startsWithDigit rest then .error .invalidSyntax else .ok rest
    else if isAsciiDigit first then .ok (consumeDigits rest)
    else .error .invalidSyntax

def parseFraction : List Char → Except RawJsonAdmissionError (List Char)
  | '.' :: rest => if startsWithDigit rest then .ok (consumeDigits rest) else .error .invalidSyntax
  | text => .ok text

def parseExponentDigits (text : List Char) : Except RawJsonAdmissionError (List Char) :=
  if startsWithDigit text then
    if exponentExceedsRawLimit (text.takeWhile isAsciiDigit) then .error .exponentTooLarge
    else .ok (consumeDigits text)
  else .error .invalidSyntax

def parseExponent : List Char → Except RawJsonAdmissionError (List Char)
  | 'e' :: rest => parseExponentDigits (skipSign rest)
  | 'E' :: rest => parseExponentDigits (skipSign rest)
  | text => .ok text

/-- What follows the number at the start of a text. -/
def scanToken (text : List Char) : Except RawJsonAdmissionError (List Char) :=
  (parseWhole (skipMinus text)).bind fun afterWhole =>
    (parseFraction afterWhole).bind parseExponent

/-- A number token. All of its characters are ASCII, so their number is the
number of bytes. -/
def parseNumber (cursor : Cursor) : Except RawJsonAdmissionError Cursor :=
  (scanToken cursor.rest).bind fun rest =>
    if cursor.rest.length - rest.length > rawScanProfile.maxNumberBytes then .error .numberTooLong
    else
      rawScanProfile.chargeNumberBytes (cursor.rest.length - rest.length)
        { cursor with rest := rest }

/-! ## Values -/

/-- An error and the path that the scanner holds when it stops. -/
structure Stop where
  error : RawJsonAdmissionError
  path : List RawJsonPathSegment
deriving DecidableEq, Repr

/-- Attaches the current path to the error of a step that has none of its own. -/
def located {Result : Type} (path : List RawJsonPathSegment)
    (result : Except RawJsonAdmissionError Result) : Except Stop Result :=
  result.mapError fun error => ⟨error, path⟩

/-- Enters a container. An empty one ends at once; `scanEntries` reads the
entries of any other at the nested depth. -/
def openContainer (close : Char) (scanEntries : Nat → Cursor → Except Stop Cursor) (depth : Nat)
    (path : List RawJsonPathSegment) (cursor : Cursor) : Except Stop Cursor :=
  (located path (enterContainer depth)).bind fun nestedDepth =>
    let opened := Cursor.skipWhitespace { cursor with rest := cursor.rest.tail }
    match opened.consume close with
    | some closed => .ok closed
    | none => scanEntries nestedDepth opened

/-- What follows an entry: the end of the container, or a comma and the next
entry. -/
def closeOrContinue (close : Char) (path : List RawJsonPathSegment)
    (next : Cursor → Except Stop Cursor) (cursor : Cursor) : Except Stop Cursor :=
  match cursor.skipWhitespace.consume close with
  | some closed => .ok closed
  | none =>
    match cursor.skipWhitespace.consume ',' with
    | none => .error ⟨.invalidSyntax, path⟩
    | some separated => next separated.skipWhitespace

/-- The colon and the value of a member, and then the end of the object or the
next member. -/
def parseMemberValue (path : List RawJsonPathSegment) (name : String)
    (scanValue next : Cursor → Except Stop Cursor) (cursor : Cursor) : Except Stop Cursor :=
  match cursor.skipWhitespace.consume ':' with
  | none => .error ⟨.invalidSyntax, path ++ [.member name]⟩
  | some afterColon =>
    (scanValue afterColon.skipWhitespace).bind (closeOrContinue '\x7d' path next)

mutual

/-- One JSON value. The first number bounds the recursion: `fuelFor` gives
enough of it for a text. -/
def parseValue (stringLimit : Nat) :
    Nat → Nat → List RawJsonPathSegment → Cursor → Except Stop Cursor
  | 0, _, path, _ => .error ⟨.invalidSyntax, path⟩
  | fuel + 1, depth, path, cursor =>
    match cursor.rest with
    | [] => .error ⟨.invalidSyntax, path⟩
    | first :: _ =>
      if first = '\x7b' then
        openContainer '\x7d'
          (fun nestedDepth => parseMembers stringLimit fuel nestedDepth path []) depth path cursor
      else if first = '[' then
        openContainer ']'
          (fun nestedDepth => parseElements stringLimit fuel nestedDepth path 0) depth path cursor
      else if first = '"' then
        (located path (parseString stringLimit false cursor)).map Prod.snd
      else if first = 't' then located path (parseLiteral ['t', 'r', 'u', 'e'] cursor)
      else if first = 'f' then located path (parseLiteral ['f', 'a', 'l', 's', 'e'] cursor)
      else if first = 'n' then located path (parseLiteral ['n', 'u', 'l', 'l'] cursor)
      else if first = '-' ∨ isAsciiDigit first = true then located path (parseNumber cursor)
      else .error ⟨.invalidSyntax, path⟩

/-- The loop over the members of an object, with the names seen so far. -/
def parseMembers (stringLimit : Nat) :
    Nat → Nat → List RawJsonPathSegment → List String → Cursor → Except Stop Cursor
  | 0, _, path, _, _ => .error ⟨.invalidSyntax, path⟩
  | fuel + 1, nestedDepth, path, names, cursor =>
    (located path (chargeContainerEntry cursor)).bind fun cursor =>
      (located path (parseString stringLimit true cursor)).bind fun parsed =>
        match parsed.1 with
        | none => .error ⟨.invalidSyntax, path⟩
        | some name =>
          -- the member joins the path before the duplicate check
          if name ∈ names then .error ⟨.duplicateObjectMember, path ++ [.member name]⟩
          else
            parseMemberValue path name
              (parseValue stringLimit fuel nestedDepth (path ++ [.member name]))
              (parseMembers stringLimit fuel nestedDepth path (name :: names)) parsed.2

/-- The loop over the elements of an array, with the index of the next one. -/
def parseElements (stringLimit : Nat) :
    Nat → Nat → List RawJsonPathSegment → Nat → Cursor → Except Stop Cursor
  | 0, _, path, _, _ => .error ⟨.invalidSyntax, path⟩
  | fuel + 1, nestedDepth, path, index, cursor =>
    (located path (chargeContainerEntry cursor)).bind fun cursor =>
      (parseValue stringLimit fuel nestedDepth (path ++ [.index index]) cursor).bind
        (closeOrContinue ']' path (parseElements stringLimit fuel nestedDepth path (index + 1)))

end

/-- Every value and every entry consumes a character before the next one. -/
def fuelFor (cursor : Cursor) : Nat :=
  2 * cursor.rest.length + 2

def parseObject (stringLimit fuel depth : Nat) (path : List RawJsonPathSegment) (cursor : Cursor) :
    Except Stop Cursor :=
  openContainer '\x7d' (fun nestedDepth => parseMembers stringLimit fuel nestedDepth path []) depth
    path cursor

def parseArray (stringLimit fuel depth : Nat) (path : List RawJsonPathSegment) (cursor : Cursor) :
    Except Stop Cursor :=
  openContainer ']' (fun nestedDepth => parseElements stringLimit fuel nestedDepth path 0) depth
    path cursor

def failure (stop : Stop) : RawJsonAdmissionFailure :=
  ⟨stop.error, redactRawJsonPath stop.path⟩

end RawJsonScanner

/-! ## Documents -/

def byteOrderMark : Bytes :=
  [0xef, 0xbb, 0xbf]

/-- Whether three consecutive bytes are a byte-order mark, anywhere. -/
def containsByteOrderMark (document : Bytes) : Bool :=
  document.tails.any fun suffix => suffix.take 3 == byteOrderMark

open RawJsonScanner in
/-- The value at the top of a document, if the policy admits its kind. -/
def scanTopLevel (stringLimit : Nat) (topLevel : RawJsonTopLevel) (cursor : Cursor) :
    Except RawJsonAdmissionFailure Cursor :=
  match cursor.rest, topLevel with
  | '\x7b' :: _, _ =>
    (parseObject stringLimit (fuelFor cursor) 0 [] cursor).mapError failure
  | '[' :: _, .jsonRpcObject => .error (.atRoot .topLevelBatch)
  | '[' :: _, .securityDocumentObject => .error (.atRoot .topLevelNotObject)
  | _ :: _, .anyValue => (parseValue stringLimit (fuelFor cursor) 0 [] cursor).mapError failure
  | _, _ => .error (.atRoot .topLevelNotObject)

def admitRawJsonDocument (document : Bytes) (documentByteLimit : Nat)
    (topLevel : RawJsonTopLevel) : Except RawJsonAdmissionFailure Unit :=
  if document.length > documentByteLimit then .error (.atRoot .documentTooLarge)
  else if containsByteOrderMark document then .error (.atRoot .byteOrderMark)
  else
    match fromUtf8 document with
    | none => .error (.atRoot .invalidUtf8)
    | some input =>
      (scanTopLevel documentByteLimit topLevel
        (Cursor.new input.toList).skipWhitespace).bind fun cursor =>
          if cursor.skipWhitespace.rest = [] then .ok () else .error (.atRoot .invalidSyntax)

def admitRawJsonrpcDocument (document : Bytes) (documentByteLimit : Nat) :
    Except RawJsonAdmissionError Unit :=
  (admitRawJsonDocument document documentByteLimit .jsonRpcObject).mapError (·.error)

end FastMcp.RawAdmission
