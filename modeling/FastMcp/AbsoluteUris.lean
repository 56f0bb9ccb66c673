import FastMcp.Outcomes
import FastMcp.UriGrammar

/-! # Absolute URIs

An absolute URI is kept as it was written, together with the places of its
delimiters. The delimiters are searched in the whole text, and the pieces between
them are then checked byte by byte, after one pass over all percent triplets.
-/

namespace FastMcp.Uri

open ByteText PercentCoding TextCutting UriGrammar Outcomes

def absoluteUriHardMaxBytes : Nat := 64 * 1024

inductive AbsoluteUriComponent where
  | scheme
  | userinfo
  | host
  | port
  | path
  | query
  | fragment
deriving DecidableEq, Repr

inductive AuthorityErrorKind where
  | multipleAtSigns
  | missingIpLiteralBracket
  | invalidIpLiteral
  | invalidIpLiteralSuffix
  | unbracketedColon
deriving DecidableEq, Repr

inductive AbsoluteUriError where
  | limitExceedsHardCeiling (requestedMaxBytes hardMaxBytes : Nat)
  | tooLong (inputBytes maxBytes : Nat)
  | empty
  | missingScheme
  | emptyScheme
  | nonAscii (index : Nat)
  | controlOrSpace (index : Nat) (byte : UInt8)
  | invalidCharacter (component : AbsoluteUriComponent) (index : Nat) (byte : UInt8)
  | invalidPercentEncoding (index : Nat)
  | invalidAuthority (index : Nat) (kind : AuthorityErrorKind)
deriving DecidableEq, Repr

/-! ## Bytes and components -/

def isUserinfoByte (byte : UInt8) : Bool :=
  isUnreserved byte || isSubDelim byte || byte == colon || byte == percent

def isRegNameByte (byte : UInt8) : Bool :=
  isUnreserved byte || isSubDelim byte || byte == percent

def isPchar (byte : UInt8) : Bool :=
  isUnreserved byte || isSubDelim byte || byte == colon || byte == atSign || byte == percent

def validateComponent (kind : AbsoluteUriComponent) (admitted : UInt8 → Bool) :
    Nat → Bytes → Except AbsoluteUriError Unit
  | _, [] => .ok ()
  | offset, byte :: rest =>
    if admitted byte then validateComponent kind admitted (offset + 1) rest
    else .error (.invalidCharacter kind offset byte)

def validateAsciiWireBytes : Nat → Bytes → Except AbsoluteUriError Unit
  | _, [] => .ok ()
  | index, byte :: rest =>
    if byte ≥ 128 then .error (.nonAscii index)
    else if byte ≤ 0x20 ∨ byte = 0x7f then .error (.controlOrSpace index byte)
    else validateAsciiWireBytes (index + 1) rest

def validateScheme : Bytes → Except AbsoluteUriError Unit
  | [] => .error .emptyScheme
  | first :: rest =>
    if isAlpha first then validateComponent .scheme isSchemeByte 1 rest
    else .error (.invalidCharacter .scheme 0 first)

def validatePercentTriplets : Nat → Bytes → Except AbsoluteUriError Unit
  | _, [] => .ok ()
  | index, byte :: rest =>
    if byte = percent then
      match rest with
      | high :: low :: tail =>
        if isHexDigit high && isHexDigit low then validatePercentTriplets (index + 3) tail
        else .error (.invalidPercentEncoding index)
      | _ => .error (.invalidPercentEncoding index)
    else validatePercentTriplets (index + 1) rest

def validatePath (offset : Nat) (path : Bytes) : Except AbsoluteUriError Unit :=
  validateComponent .path (fun byte => isPchar byte || byte == slash) offset path

def validateQueryOrFragment (component : AbsoluteUriComponent) (offset : Nat) (text : Bytes) :
    Except AbsoluteUriError Unit :=
  validateComponent component (fun byte => isPchar byte || byte == slash || byte == questionMark)
    offset text

/-! ## Authorities -/

def isValidIpvFuture : Bytes → Bool
  | [] => false
  | letter :: rest =>
    if rest.length < 3 || !(letter == 0x76 || letter == 0x56) then false
    else
      match find dot rest with
      | none => false
      | some place =>
        if place = 0 ∨ place + 1 ≥ rest.length then false
        else
          (rest.take place).all isHexDigit &&
            (rest.drop (place + 1)).all fun byte =>
              isUnreserved byte || isSubDelim byte || byte == colon

variable (isIpv6Address : Bytes → Bool)

def isValidIpLiteral (literal : Bytes) : Bool :=
  isIpv6Address literal || isValidIpvFuture literal

/-- The host and the port, without any user information. -/
def validateHostPort (offset : Nat) (hostPort : Bytes) : Except AbsoluteUriError Unit :=
  match stripPrefix [openBracket] hostPort with
  | some ipLiteral =>
    match find closeBracket ipLiteral with
    | none => .error (.invalidAuthority offset .missingIpLiteralBracket)
    | some close =>
      if isValidIpLiteral isIpv6Address (ipLiteral.take close) then
        match ipLiteral.drop (close + 1) with
        | [] => .ok ()
        | next :: port =>
          if next = colon then validateComponent .port isDigit (offset + close + 3) port
          else .error (.invalidAuthority (offset + close + 2) .invalidIpLiteralSuffix)
      else .error (.invalidAuthority (offset + 1) .invalidIpLiteral)
  | none =>
    match splitOnce colon hostPort with
    | some (host, port) =>
      match find colon port with
      | some second =>
        .error (.invalidAuthority (offset + host.length + 1 + second) .unbracketedColon)
      | none =>
        (validateComponent .host isRegNameByte offset host).bind fun _ =>
          validateComponent .port isDigit (offset + host.length + 1) port
    | none => validateComponent .host isRegNameByte offset hostPort

def validateAuthority (offset : Nat) (authority : Bytes) : Except AbsoluteUriError Unit :=
  match find atSign authority with
  | some place =>
    match find atSign (authority.drop (place + 1)) with
    | some second =>
      .error (.invalidAuthority (offset + place + 1 + second) .multipleAtSigns)
    | none =>
      (validateComponent .userinfo isUserinfoByte offset (authority.take place)).bind fun _ =>
        validateHostPort isIpv6Address (offset + place + 1) (authority.drop (place + 1))
  | none => validateHostPort isIpv6Address offset authority

def validateHierPart (hierStart : Nat) (hier : Bytes) : Except AbsoluteUriError Unit :=
  match stripPrefix [slash, slash] hier with
  | some afterSlashes =>
    let authorityLength := (find slash afterSlashes).getD afterSlashes.length
    (validateAuthority isIpv6Address (hierStart + 2) (afterSlashes.take authorityLength)).bind
      fun _ =>
        validatePath (hierStart + 2 + authorityLength) (afterSlashes.drop authorityLength)
  | none => validatePath hierStart hier

/-! ## Parsing -/

/-- The bytes from one place up to another. -/
def slice (text : Bytes) (start stop : Nat) : Bytes := (text.take stop).drop start

/-- A component that is checked if its delimiter was found. -/
def validateAfter (component : AbsoluteUriComponent) (text : Bytes) (stop : Nat) :
    Option Nat → Except AbsoluteUriError Unit
  | none => .ok ()
  | some delimiter =>
    validateQueryOrFragment component (delimiter + 1) (slice text (delimiter + 1) stop)

/-- An accepted URI with the positions of its delimiters. -/
structure AbsoluteUri where
  original : String
  schemeEnd : Nat
  queryDelimiter : Option Nat
  fragmentDelimiter : Option Nat
deriving DecidableEq, Repr

namespace AbsoluteUri

def parseWithMaxBytes (input : String) (maxBytes : Nat) : Except AbsoluteUriError AbsoluteUri :=
  let text := bytes input
  if maxBytes > absoluteUriHardMaxBytes then
    .error (.limitExceedsHardCeiling maxBytes absoluteUriHardMaxBytes)
  else if text.length > maxBytes then .error (.tooLong text.length maxBytes)
  else if text.isEmpty then .error .empty
  else
    (validateAsciiWireBytes 0 text).bind fun _ =>
      (orFail .missingScheme (find colon text)).bind fun schemeEnd =>
        (validateScheme (text.take schemeEnd)).bind fun _ =>
          (validatePercentTriplets (schemeEnd + 1) (text.drop (schemeEnd + 1))).bind fun _ =>
            let fragmentDelimiter := find hash text
            let beforeFragmentEnd := fragmentDelimiter.getD text.length
            let queryDelimiter := find questionMark (text.take beforeFragmentEnd)
            let hierEnd := queryDelimiter.getD beforeFragmentEnd
            (validateHierPart isIpv6Address (schemeEnd + 1)
              (slice text (schemeEnd + 1) hierEnd)).bind fun _ =>
              (validateAfter .query text beforeFragmentEnd queryDelimiter).bind fun _ =>
                (validateAfter .fragment text text.length fragmentDelimiter).map fun _ =>
                  { original := input, schemeEnd, queryDelimiter, fragmentDelimiter }

variable (uri : AbsoluteUri)

def scheme : Bytes := (bytes uri.original).take uri.schemeEnd

def hierPart : Bytes :=
  let stop := (uri.queryDelimiter.or uri.fragmentDelimiter).getD (bytes uri.original).length
  slice (bytes uri.original) (uri.schemeEnd + 1) stop

def query : Option Bytes :=
  uri.queryDelimiter.map fun delimiter =>
    let stop := uri.fragmentDelimiter.getD (bytes uri.original).length
    slice (bytes uri.original) (delimiter + 1) stop

def fragment : Option Bytes :=
  uri.fragmentDelimiter.map fun delimiter => (bytes uri.original).drop (delimiter + 1)

end AbsoluteUri

end FastMcp.Uri
