import FastMcp.RawJsonScanner

/-! # The admission scanner of the transport codec

The codec scans a frame itself before it decodes it, to learn the shape of the
envelope even when the frame is refused. Unlike the protocol's scanner it goes
on after a duplicate member, and it checks the length of a number token after
every character of it.
-/

namespace FastMcp.TransportCodec

open ByteText RawAdmission JsonGrammar JsonNumbers

inductive JsonAdmissionError where
  | invalidUtf8
  | invalidSyntax
  | duplicateObjectMember
  | nestingTooDeep
  | tooManyContainerEntries
  | numberTooLong
  | tooManyNumberBytes
  | exponentTooLarge
  | tooManyDecodedStringBytes
deriving DecidableEq, Repr

/-- What the scanner has seen of the members of the top-level object. -/
structure RawEnvelopeShape where
  rootIsObject : Bool := false
  hasMethod : Bool := false
  hasParams : Bool := false
  hasId : Bool := false
  hasResult : Bool := false
  hasError : Bool := false
  hasUnknownMember : Bool := false
  hasDuplicateId : Bool := false
  idSpan : Option (Nat × Nat) := none
deriving DecidableEq, Repr

namespace RawEnvelopeShape

def noteMember (envelope : RawEnvelopeShape) (name : String) : RawEnvelopeShape :=
  if name = "jsonrpc" then envelope
  else if name = "method" then { envelope with hasMethod := true }
  else if name = "params" then { envelope with hasParams := true }
  else if name = "id" then { envelope with hasId := true }
  else if name = "result" then { envelope with hasResult := true }
  else if name = "error" then { envelope with hasError := true }
  else { envelope with hasUnknownMember := true }

def noteValueSpan (envelope : RawEnvelopeShape) (name : String) (start finish : Nat) :
    RawEnvelopeShape :=
  if name = "id" then { envelope with idSpan := some (start, finish) } else envelope

def noteDuplicateMember (envelope : RawEnvelopeShape) (name : String) : RawEnvelopeShape :=
  if name = "id" then { envelope with hasDuplicateId := true } else envelope

end RawEnvelopeShape

/-- A refused document, with what is known of its envelope. -/
structure JsonAdmissionFailure where
  error : JsonAdmissionError
  envelope : RawEnvelopeShape
deriving DecidableEq, Repr

/-- The limits of the codec's scanner. -/
def codecScanProfile : ScanProfile JsonAdmissionError where
  maxNestingDepth := 64
  maxContainerEntries := 100000
  maxNumberBytes := 4 * 1024
  maxAggregateNumberBytes := 256 * 1024
  maxExponent := 10000
  invalidSyntax := .invalidSyntax
  nestingTooDeep := .nestingTooDeep
  tooManyContainerEntries := .tooManyContainerEntries
  numberTooLong := .numberTooLong
  tooManyNumberBytes := .tooManyNumberBytes
  exponentTooLarge := .exponentTooLarge
  tooManyDecodedStringBytes := .tooManyDecodedStringBytes

/-- The state of a scan. `inputBytes` is the length of the whole frame. -/
structure JsonAdmission where
  cursor : Cursor
  inputBytes : Nat
  envelope : RawEnvelopeShape
  duplicateObjectMember : Bool
deriving DecidableEq, Repr

namespace JsonAdmission

def new (input : String) : JsonAdmission where
  cursor := Cursor.new input.toList
  inputBytes := input.utf8ByteSize
  envelope := {}
  duplicateObjectMember := false

/-- The number of bytes before the cursor. -/
def position (state : JsonAdmission) : Nat :=
  state.inputBytes - byteLength state.cursor.rest

abbrev enterContainer := codecScanProfile.enterContainer

abbrev chargeContainerEntry := codecScanProfile.chargeContainerEntry

abbrev parseString := codecScanProfile.parseString

abbrev parseLiteral := codecScanProfile.parseLiteral

abbrev exponentExceedsLimit := codecScanProfile.exponentExceedsLimit

/-! ## Numbers

The functions below take the text at the start of the token, to measure how
much of it has been read.
-/

def ensureNumberTokenWithinLimit (start rest : List Char) : Except JsonAdmissionError Unit :=
  if start.length - rest.length > codecScanProfile.maxNumberBytes then .error .numberTooLong
  else .ok ()

def consumeNumberDigits (start : List Char) : List Char → Except JsonAdmissionError (List Char)
  | [] => .ok []
  | first :: rest =>
    if isAsciiDigit first then
      (ensureNumberTokenWithinLimit start rest).bind fun _ => consumeNumberDigits start rest
    else .ok (first :: rest)

def parseWhole (start : List Char) : List Char → Except JsonAdmissionError (List Char)
  | [] => .error .invalidSyntax
  | first :: rest =>
    if first = '0' then
      (ensureNumberTokenWithinLimit start rest).bind fun _ =>
        if RawJsonScanner.startsWithDigit rest then .error .invalidSyntax else .ok rest
    else if isAsciiDigit first then
      (ensureNumberTokenWithinLimit start rest).bind fun _ => consumeNumberDigits start rest
    else .error .invalidSyntax

def parseFraction (start : List Char) : List Char → Except JsonAdmissionError (List Char)
  | '.' :: rest =>
    (ensureNumberTokenWithinLimit start rest).bind fun _ =>
      if RawJsonScanner.startsWithDigit rest then consumeNumberDigits start rest
      else .error .invalidSyntax
  | text => .ok text

def parseExponentSign (start : List Char) : List Char → Except JsonAdmissionError (List Char)
  | '+' :: rest => (ensureNumberTokenWithinLimit start rest).map fun _ => rest
  | '-' :: rest => (ensureNumberTokenWithinLimit start rest).map fun _ => rest
  | text => .ok text

def parseExponentDigits (start text : List Char) : Except JsonAdmissionError (List Char) :=
  if RawJsonScanner.startsWithDigit text then
    (consumeNumberDigits start text).bind fun rest =>
      if exponentExceedsLimit (text.take (text.length - rest.length)) then
        .error .exponentTooLarge
      else .ok rest
  else .error .invalidSyntax

def parseExponent (start : List Char) : List Char → Except JsonAdmissionError (List Char)
  | 'e' :: rest =>
    (ensureNumberTokenWithinLimit start rest).bind fun _ =>
      (parseExponentSign start rest).bind (parseExponentDigits start)
  | 'E' :: rest =>
    (ensureNumberTokenWithinLimit start rest).bind fun _ =>
      (parseExponentSign start rest).bind (parseExponentDigits start)
  | text => .ok text

/-- What follows the number at the start of a text. -/
def scanToken (start : List Char) : Except JsonAdmissionError (List Char) :=
  (ensureNumberTokenWithinLimit start (RawJsonScanner.skipMinus start)).bind fun _ =>
    (parseWhole start (RawJsonScanner.skipMinus start)).bind fun afterWhole =>
      (parseFraction start afterWhole).bind (parseExponent start)

def parseNumber (cursor : Cursor) : Except JsonAdmissionError Cursor :=
  (scanToken cursor.rest).bind fun rest =>
    codecScanProfile.chargeNumberBytes (cursor.rest.length - rest.length)
      { cursor with rest := rest }

/-! ## Values -/

/-- The failure of a step that has no envelope of its own. -/
def attached {Result : Type} (state : JsonAdmission) (result : Except JsonAdmissionError Result) :
    Except JsonAdmissionFailure Result :=
  result.mapError fun error => ⟨error, state.envelope⟩

/-- A step that only moves the cursor. -/
def moved (state : JsonAdmission) (result : Except JsonAdmissionError Cursor) :
    Except JsonAdmissionFailure JsonAdmission :=
  (attached state result).map fun cursor => { state with cursor := cursor }

def openContainer (close : Char)
    (scanEntries : Nat → JsonAdmission → Except JsonAdmissionFailure JsonAdmission) (depth : Nat)
    (state : JsonAdmission) : Except JsonAdmissionFailure JsonAdmission :=
  (attached state (enterContainer depth)).bind fun nestedDepth =>
    let opened := Cursor.skipWhitespace { state.cursor with rest := state.cursor.rest.tail }
    match opened.consume close with
    | some closed => .ok { state with cursor := closed }
    | none => scanEntries nestedDepth { state with cursor := opened }

def closeOrContinue (close : Char)
    (next : JsonAdmission → Except JsonAdmissionFailure JsonAdmission) (state : JsonAdmission) :
    Except JsonAdmissionFailure JsonAdmission :=
  match state.cursor.skipWhitespace.consume close with
  | some closed => .ok { state with cursor := closed }
  | none =>
    match state.cursor.skipWhitespace.consume ',' with
    | none => .error ⟨.invalidSyntax, state.envelope⟩
    | some separated => next { state with cursor := separated.skipWhitespace }

/-- An object at depth zero is the top of the frame. -/
def noteRoot (depth : Nat) (state : JsonAdmission) : JsonAdmission :=
  if depth = 0 then { state with envelope := { state.envelope with rootIsObject := true } } else state

/-- What the scanner notes about the name of a member: a duplicate is recorded
and scanning goes on. -/
def noteName (isRoot : Bool) (name : String) (duplicate : Bool) (state : JsonAdmission) :
    JsonAdmission :=
  let noted := state.envelope.noteMember name
  { state with
    envelope :=
      if isRoot then if duplicate then noted.noteDuplicateMember name else noted
      else state.envelope
    duplicateObjectMember := state.duplicateObjectMember || duplicate }

/-- What the scanner notes about the value of a member. -/
def noteValue (isRoot : Bool) (name : String) (start : Nat) (state : JsonAdmission) :
    JsonAdmission :=
  if isRoot then
    { state with envelope := state.envelope.noteValueSpan name start state.position }
  else state

/-- The colon and the value of a member whose name was noted, and then the end
of the object or the next member. -/
def parseMemberValue (isRoot : Bool) (name : String)
    (scanValue next : JsonAdmission → Except JsonAdmissionFailure JsonAdmission)
    (named : JsonAdmission) : Except JsonAdmissionFailure JsonAdmission :=
  match named.cursor.skipWhitespace.consume ':' with
  | none => .error ⟨.invalidSyntax, named.envelope⟩
  | some afterColon =>
    let valued := { named with cursor := afterColon.skipWhitespace }
    (scanValue valued).bind fun state =>
      closeOrContinue '\x7d' next (noteValue isRoot name valued.position state)

mutual

def parseValue (stringLimit : Nat) :
    Nat → Nat → JsonAdmission → Except JsonAdmissionFailure JsonAdmission
  | 0, _, state => .error ⟨.invalidSyntax, state.envelope⟩
  | fuel + 1, depth, state =>
    match state.cursor.rest with
    | [] => .error ⟨.invalidSyntax, state.envelope⟩
    | first :: _ =>
      if first = '\x7b' then
        openContainer '\x7d'
          (fun nestedDepth => parseMembers stringLimit fuel (depth == 0) nestedDepth []) depth
          (noteRoot depth state)
      else if first = '[' then
        openContainer ']' (fun nestedDepth => parseElements stringLimit fuel nestedDepth) depth state
      else if first = '"' then
        moved state ((parseString stringLimit false state.cursor).map Prod.snd)
      else if first = 't' then moved state (parseLiteral ['t', 'r', 'u', 'e'] state.cursor)
      else if first = 'f' then moved state (parseLiteral ['f', 'a', 'l', 's', 'e'] state.cursor)
      else if first = 'n' then moved state (parseLiteral ['n', 'u', 'l', 'l'] state.cursor)
      else if first = '-' ∨ isAsciiDigit first = true then moved state (parseNumber state.cursor)
      else .error ⟨.invalidSyntax, state.envelope⟩

def parseMembers (stringLimit : Nat) :
    Nat → Bool → Nat → List String → JsonAdmission → Except JsonAdmissionFailure JsonAdmission
  | 0, _, _, _, state => .error ⟨.invalidSyntax, state.envelope⟩
  | fuel + 1, isRoot, nestedDepth, names, state =>
    (moved state (chargeContainerEntry state.cursor)).bind fun state =>
      (attached state (parseString stringLimit true state.cursor)).bind fun parsed =>
        match parsed.1 with
        | none => .error ⟨.invalidSyntax, state.envelope⟩
        | some name =>
          parseMemberValue isRoot name (parseValue stringLimit fuel nestedDepth)
            (parseMembers stringLimit fuel isRoot nestedDepth (name :: names))
            (noteName isRoot name (name ∈ names) { state with cursor := parsed.2 })

def parseElements (stringLimit : Nat) :
    Nat → Nat → JsonAdmission → Except JsonAdmissionFailure JsonAdmission
  | 0, _, state => .error ⟨.invalidSyntax, state.envelope⟩
  | fuel + 1, nestedDepth, state =>
    (moved state (chargeContainerEntry state.cursor)).bind fun state =>
      (parseValue stringLimit fuel nestedDepth state).bind
        (closeOrContinue ']' (parseElements stringLimit fuel nestedDepth))

end

/-- Scans a frame. It succeeds with the shape of the envelope. -/
def admitFrame (input : String) (decodedStringByteLimit : Nat) :
    Except JsonAdmissionFailure RawEnvelopeShape :=
  let state := { new input with cursor := (new input).cursor.skipWhitespace }
  (parseValue decodedStringByteLimit (RawJsonScanner.fuelFor state.cursor) 0 state).bind fun state =>
    if state.cursor.skipWhitespace.rest = [] then
      if state.duplicateObjectMember then .error ⟨.duplicateObjectMember, state.envelope⟩
      else .ok state.envelope
    else .error ⟨.invalidSyntax, state.envelope⟩

end JsonAdmission

end FastMcp.TransportCodec
