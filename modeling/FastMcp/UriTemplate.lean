import FastMcp.IntegerText
import FastMcp.MachineWords
import FastMcp.PercentCoding
import Std.Data.ExtTreeMap

/-! # RFC 6570 templates and their parser

A template is a sequence of literal texts and expressions. The parser keeps
byte offsets, which its errors report, and works through the characters of the
source: every byte it looks for is ASCII, so characters and bytes agree there.
-/

namespace FastMcp.UriTemplates

open ByteText PercentCoding IntegerText MachineWords

def maxUriTemplateBytes : Nat := 16 * 1024
def maxUriTemplateParts : Nat := 256
def maxUriTemplateExpressions : Nat := 128
def maxUriTemplateVariablesPerExpression : Nat := 64
def maxUriTemplateVariableNameBytes : Nat := 512
def maxUriTemplatePrefixLength : Nat := 9999
def maxUriTemplateValueBytes : Nat := 16 * 1024
def maxUriTemplateCompositeItems : Nat := 1024
def maxUriTemplateExpansionOutputBytes : Nat := 64 * 1024
def maxUriTemplateMatchInputBytes : Nat := maxUriTemplateExpansionOutputBytes

/-- One defined variable value. An absent map entry is the undefined value. -/
inductive TemplateValue where
  | scalar (value : String)
  | list (values : List (Option String))
  | associative (values : List (String × Option String))
deriving DecidableEq, Repr

abbrev TemplateValues := Std.ExtTreeMap String TemplateValue compare

/-- Why a valid template cannot be used for reverse matching. -/
inductive UriTemplateMatchRejection where
  | multipleVariables
  | adjacentCaptures
  | duplicateVariable (variableName : String)
  | lossyPrefix (variableName : String)
  | explodedComposite (variableName : String)
  | ambiguousBoundary
  | unboundedReservedCapture
deriving DecidableEq, Repr

inductive UriTemplateError where
  | sourceTooLong (actual maximum : Nat)
  | tooManyParts (maximum : Nat)
  | tooManyExpressions (maximum : Nat)
  | tooManyVariables (maximum : Nat)
  | variableNameTooLong (actual maximum : Nat)
  | invalidLiteral (offset : Nat)
  | unclosedExpression (offset : Nat)
  | nestedExpression (offset : Nat)
  | unexpectedCloseBrace (offset : Nat)
  | emptyExpression (offset : Nat)
  | unsupportedOperator (operator : Char) (offset : Nat)
  | invalidVariable (offset : Nat)
  | invalidPrefix (offset : Nat)
  | invalidExpansionLimit (field : String) (actual maximum : Nat)
  | valueTooLong (actual maximum : Nat)
  | tooManyCompositeItems (actual maximum : Nat)
  | expansionTooLarge (actual maximum : Nat)
  | prefixAppliedToComposite (variableName : String)
  | duplicateAssociativeKey (key : String)
  | nonReversibleTemplate (reason : UriTemplateMatchRejection)
  | nonScalarMatchValue (variableName : String)
  | ambiguousEmptyScalar (variableName : String)
  | matchInputTooLong (actual maximum : Nat)
  | preescapedReservedMatchValue (variableName : String)
deriving DecidableEq, Repr

inductive UriTemplateOperator where
  | simple
  | reserved
  | fragment
  | label
  | path
  | pathParameter
  | query
  | queryContinuation
deriving DecidableEq, Repr

/-- How an operator writes its variables. -/
structure OperatorProperties where
  first : Bytes
  separator : Bytes
  named : Bool
  ifEmpty : Bytes
  allowReserved : Bool
deriving DecidableEq, Repr

def UriTemplateOperator.properties : UriTemplateOperator → OperatorProperties
  | .simple => ⟨[], bytes ",", false, [], false⟩
  | .reserved => ⟨[], bytes ",", false, [], true⟩
  | .fragment => ⟨bytes "#", bytes ",", false, [], true⟩
  | .label => ⟨bytes ".", bytes ".", false, [], false⟩
  | .path => ⟨bytes "/", bytes "/", false, [], false⟩
  | .pathParameter => ⟨bytes ";", bytes ";", true, [], false⟩
  | .query => ⟨bytes "?", bytes "&", true, bytes "=", false⟩
  | .queryContinuation => ⟨bytes "&", bytes "&", true, bytes "=", false⟩

def OperatorProperties.isFormStyle (properties : OperatorProperties) : Bool :=
  properties.first == bytes "?" || properties.first == bytes "&"

inductive UriTemplateModifier where
  | prefixLength (length : Nat)
  | explode
deriving DecidableEq, Repr

/-- A variable of an expression. -/
structure UriTemplateVariable where
  name : String
  modifier : Option UriTemplateModifier
deriving DecidableEq, Repr

/-- An expression between braces. -/
structure UriTemplateExpression where
  operator : UriTemplateOperator
  vars : List UriTemplateVariable
deriving DecidableEq, Repr

inductive UriTemplatePart where
  | literal (text : String)
  | expression (expression : UriTemplateExpression)
deriving DecidableEq, Repr

/-- A parsed template with its source. -/
structure UriTemplate where
  source : String
  parts : List UriTemplatePart
deriving DecidableEq, Repr

def isAsciiHexDigit (character : Char) : Bool :=
  character.toNat < 128 && isHexDigit (UInt8.ofNat character.toNat)

def isAsciiAlphanumeric (character : Char) : Bool :=
  isAsciiDigit character || ('A' ≤ character && character ≤ 'Z') ||
    ('a' ≤ character && character ≤ 'z')

/-- The ASCII characters a literal may contain, percent signs apart. -/
def isValidLiteralByte (character : Char) : Bool :=
  character == '!' || ('#' ≤ character && character ≤ '$') || character == '&' ||
    ('(' ≤ character && character ≤ ';') || character == '=' ||
    ('?' ≤ character && character ≤ '[') || character == ']' || character == '_' ||
    ('a' ≤ character && character ≤ 'z') || character == '~'

/-- The ranges `ucschar` and `iprivate`. -/
def validLiteralRanges : List (Nat × Nat) :=
  [(0x00A0, 0xD7FF), (0xE000, 0xF8FF), (0xF900, 0xFDCF), (0xFDF0, 0xFFEF), (0x10000, 0x1FFFD),
    (0x20000, 0x2FFFD), (0x30000, 0x3FFFD), (0x40000, 0x4FFFD), (0x50000, 0x5FFFD),
    (0x60000, 0x6FFFD), (0x70000, 0x7FFFD), (0x80000, 0x8FFFD), (0x90000, 0x9FFFD),
    (0xA0000, 0xAFFFD), (0xB0000, 0xBFFFD), (0xC0000, 0xCFFFD), (0xD0000, 0xDFFFD),
    (0xE1000, 0xEFFFD), (0xF0000, 0xFFFFD), (0x100000, 0x10FFFD)]

def isValidLiteralCharacter (character : Char) : Bool :=
  validLiteralRanges.any fun range =>
    range.1 ≤ character.toNat && character.toNat ≤ range.2

/-- The byte offset of the first character a literal may not contain. -/
def invalidLiteralOffset : Nat → List Char → Option Nat
  | _, [] => none
  | offset, character :: rest =>
    if character.toNat < 128 then
      if character = '%' then
        match rest with
        | high :: low :: tail =>
          if isAsciiHexDigit high && isAsciiHexDigit low then invalidLiteralOffset (offset + 3) tail
          else some offset
        | _ => some offset
      else if isValidLiteralByte character then invalidLiteralOffset (offset + 1) rest
      else some offset
    else if isValidLiteralCharacter character then
      invalidLiteralOffset (offset + character.utf8Size) rest
    else some offset

def isValidVariableNameSegment : List Char → Bool
  | [] => false
  | segment => checkSegment segment
where
  checkSegment : List Char → Bool
    | [] => true
    | character :: rest =>
      if isAsciiAlphanumeric character || character == '_' then checkSegment rest
      else if character == '%' then
        match rest with
        | high :: low :: tail =>
          if isAsciiHexDigit high && isAsciiHexDigit low then checkSegment tail else false
        | _ => false
      else false

def isValidVariableName (name : List Char) : Bool :=
  !name.isEmpty && (name.splitOn '.').all isValidVariableNameSegment

def isValidPrefix (text : List Char) : Bool :=
  text.length ≤ 4 &&
    (text.head?.any fun first => '1' ≤ first && first ≤ '9') &&
    text.all isAsciiDigit &&
    ((parseUnsigned 10 usizeMax text).any fun length => length ≤ maxUriTemplatePrefixLength)

/-- Splits a variable specification into its name and modifier. -/
def parseModifier (source : List Char) (offset : Nat) :
    Except UriTemplateError (List Char × Option UriTemplateModifier) :=
  if source.getLast? = some '*' then
    let name := source.dropLast
    if name.isEmpty || name.contains ':' then .error (.invalidVariable offset)
    else .ok (name, some .explode)
  else
    match source.dropWhile (· ≠ ':') with
    | _ :: text =>
      let name := source.takeWhile (· ≠ ':')
      let prefixOffset := offset + byteLength name
      if !isValidPrefix text then .error (.invalidPrefix prefixOffset)
      else
        match parseUnsigned 10 usizeMax text with
        | none => .error (.invalidPrefix prefixOffset)
        | some length => .ok (name, some (.prefixLength length))
    | [] => .ok (source, none)

def parseVariable (source : List Char) (offset : Nat) :
    Except UriTemplateError UriTemplateVariable := do
  if source.isEmpty then throw (.invalidVariable offset)
  let (name, modifier) ← parseModifier source offset
  if byteLength name > maxUriTemplateVariableNameBytes then
    throw (.variableNameTooLong (byteLength name) maxUriTemplateVariableNameBytes)
  if !isValidVariableName name then throw (.invalidVariable offset)
  return ⟨String.ofList name, modifier⟩

/-- Parses the specifications of one expression from left to right. -/
def parseVariables : List UriTemplateVariable → Nat → List (List Char) →
    Except UriTemplateError (List UriTemplateVariable)
  | parsed, _, [] => .ok parsed
  | parsed, offset, source :: rest => do
    if parsed.length = maxUriTemplateVariablesPerExpression then
      throw (.tooManyVariables maxUriTemplateVariablesPerExpression)
    let parsedVariable ← parseVariable source offset
    parseVariables (parsed ++ [parsedVariable]) (offset + byteLength source + 1) rest

/-- The operator of an expression and the text after it. -/
def parseOperator (source : List Char) (offset : Nat) :
    Except UriTemplateError (UriTemplateOperator × Nat × List Char) :=
  match source with
  | [] => .error (.emptyExpression offset)
  | '+' :: rest => .ok (.reserved, 1, rest)
  | '#' :: rest => .ok (.fragment, 1, rest)
  | '.' :: rest => .ok (.label, 1, rest)
  | '/' :: rest => .ok (.path, 1, rest)
  | ';' :: rest => .ok (.pathParameter, 1, rest)
  | '?' :: rest => .ok (.query, 1, rest)
  | '&' :: rest => .ok (.queryContinuation, 1, rest)
  | first :: rest =>
    if first == '=' || first == ',' || first == '!' || first == '@' || first == '|' then
      .error (.unsupportedOperator first offset)
    else .ok (.simple, 0, first :: rest)

def parseExpression (source : List Char) (offset : Nat) :
    Except UriTemplateError UriTemplateExpression := do
  let (operator, variableStart, variablesSource) ← parseOperator source offset
  if variablesSource.isEmpty then throw (.emptyExpression (offset + variableStart))
  let vars ← parseVariables [] (offset + variableStart) (variablesSource.splitOn ',')
  return ⟨operator, vars⟩

def pushPart (parts : List UriTemplatePart) (part : UriTemplatePart) :
    Except UriTemplateError (List UriTemplatePart) :=
  if parts.length = maxUriTemplateParts then .error (.tooManyParts maxUriTemplateParts)
  else .ok (parts ++ [part])

def pushLiteral (parts : List UriTemplatePart) (literal : List Char) (offset : Nat) :
    Except UriTemplateError (List UriTemplatePart) :=
  if literal.isEmpty then .ok parts
  else
    match invalidLiteralOffset 0 literal with
    | some relative => .error (.invalidLiteral (offset + relative))
    | none => pushPart parts (.literal (String.ofList literal))

/-- Where the parser stands: in a literal that began at an offset, or after an
open brace, remembering the first brace nested inside it. -/
inductive ParseMode where
  | literal (start : Nat) (text : List Char)
  | expression (opened : Nat) (text : List Char) (nested : Option Nat)
deriving DecidableEq, Repr

/-- The parser's main loop. An expression without a closing brace is reported
before a brace nested in it, and the literal before an expression is checked
before the expression is looked at. -/
def parseParts (parts : List UriTemplatePart) (expressions : Nat) :
    ParseMode → Nat → List Char → Except UriTemplateError (List UriTemplatePart)
  | .literal start text, _, [] => pushLiteral parts text start
  | .expression opened _ _, _, [] => .error (.unclosedExpression opened)
  | .literal start text, index, character :: rest =>
    if character = '\x7b' then do
      let parts ← pushLiteral parts text start
      parseParts parts expressions (.expression index [] none) (index + 1) rest
    else if character = '\x7d' then .error (.unexpectedCloseBrace index)
    else parseParts parts expressions (.literal start (text ++ [character]))
      (index + character.utf8Size) rest
  | .expression opened text nested, index, character :: rest =>
    if character = '\x7d' then
      match nested with
      | some offset => .error (.nestedExpression offset)
      | none =>
        if expressions = maxUriTemplateExpressions then
          .error (.tooManyExpressions maxUriTemplateExpressions)
        else do
          let expression ← parseExpression text (opened + 1)
          let parts ← pushPart parts (.expression expression)
          parseParts parts (expressions + 1) (.literal (index + 1) []) (index + 1) rest
    else
      let nested := if character = '\x7b' then nested.or (some index) else nested
      parseParts parts expressions (.expression opened (text ++ [character]) nested)
        (index + character.utf8Size) rest

/-- Parses a complete RFC 6570 Level 4 template. -/
def UriTemplate.parse (source : String) : Except UriTemplateError UriTemplate := do
  if source.utf8ByteSize > maxUriTemplateBytes then
    throw (.sourceTooLong source.utf8ByteSize maxUriTemplateBytes)
  let parts ← parseParts [] 0 (.literal 0 []) 0 source.toList
  return ⟨source, parts⟩

end FastMcp.UriTemplates
