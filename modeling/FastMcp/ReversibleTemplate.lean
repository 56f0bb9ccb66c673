import FastMcp.UriTemplateExpansion

/-! # Reverse matching of templates

A template is compiled for reverse matching when each of its captures seems to
end at a recognisable place: at the following literal, at the opening byte of
the following expression, or at the end of the text. The matcher walks through
the compiled parts once, from left to right and without backtracking, and
replays what it captured.
-/

namespace FastMcp.UriTemplates

open ByteText PercentCoding

/-- A wire boundary that separates one capture from the next part. -/
inductive ReversibleBoundary where
  | literal (text : Bytes)
  | expressionPrefix (text : Bytes)
deriving DecidableEq, Repr

def ReversibleBoundary.asStr : ReversibleBoundary → Bytes
  | .literal text | .expressionPrefix text => text

def ReversibleBoundary.permitsAbsentFollowingExpression : ReversibleBoundary → Bool
  | .literal _ => false
  | .expressionPrefix _ => true

/-- A variable with its name as it stands in a query. -/
structure ReversibleTemplateVariable where
  name : String
  encodedName : Bytes
deriving DecidableEq, Repr

/-- An expression with the text that ends its match, if there is one. -/
structure ReversibleTemplateExpression where
  operator : UriTemplateOperator
  vars : List ReversibleTemplateVariable
  nextBoundary : Option ReversibleBoundary
deriving DecidableEq, Repr

inductive ReversibleTemplatePart where
  | literal (text : Bytes)
  | expression (expression : ReversibleTemplateExpression)
deriving DecidableEq, Repr

/-- A compiled template for local dispatch. -/
structure ReversibleResourceTemplate where
  template : UriTemplate
  parts : List ReversibleTemplatePart
deriving DecidableEq, Repr

def validateReversibleExpression (operator : UriTemplateOperator)
    (nextBoundary : Option ReversibleBoundary) : Except UriTemplateError Unit :=
  match operator with
  | .reserved | .fragment =>
    if nextBoundary.isSome then .error (.nonReversibleTemplate .unboundedReservedCapture)
    else .ok ()
  | .simple | .label | .path | .pathParameter | .query | .queryContinuation =>
    match nextBoundary with
    | none => .ok ()
    | some boundary =>
      if boundary.asStr.head?.any isReserved then .ok ()
      else .error (.nonReversibleTemplate .ambiguousBoundary)

/-- The opening byte of an expression that follows another expression. -/
def reversibleAdjacentExpressionBoundary (operator next : UriTemplateOperator) :
    Except UriTemplateError ReversibleBoundary :=
  match next with
  | .simple | .reserved => .error (.nonReversibleTemplate .adjacentCaptures)
  | .fragment => .ok (.expressionPrefix (bytes "#"))
  | .label => .ok (.expressionPrefix (bytes "."))
  | .path =>
    if operator = .path then .error (.nonReversibleTemplate .ambiguousBoundary)
    else .ok (.expressionPrefix (bytes "/"))
  | .pathParameter => .ok (.expressionPrefix (bytes ";"))
  | .query => .ok (.expressionPrefix (bytes "?"))
  | .queryContinuation => .ok (.expressionPrefix (bytes "&"))

/-- Compiles the variables of one expression. The names bound so far are passed
along, since no variable may be bound twice in a template. -/
def compileVariables : List String → List UriTemplateVariable →
    Except UriTemplateError (List ReversibleTemplateVariable × List String)
  | names, [] => .ok ([], names)
  | names, spec :: rest =>
    match spec.modifier with
    | some (.prefixLength _) => .error (.nonReversibleTemplate (.lossyPrefix spec.name))
    | _ =>
      if spec.name ∈ names then .error (.nonReversibleTemplate (.duplicateVariable spec.name))
      else
        (appendVariableName {} [] spec.name).bind fun encodedName =>
          (compileVariables (spec.name :: names) rest).map fun compiled =>
            (⟨spec.name, encodedName⟩ :: compiled.1, compiled.2)

/-- The boundary that the parts after an expression give it. -/
def compileBoundary (operator : UriTemplateOperator) :
    List UriTemplatePart → Except UriTemplateError (Option ReversibleBoundary)
  | [] => .ok none
  | .literal literal :: _ =>
    (appendEncodedLiteral {} [] literal).map fun encoded => some (.literal encoded)
  | .expression next :: _ =>
    (reversibleAdjacentExpressionBoundary operator next.operator).map some

def compileExpression (names : List String) (expression : UriTemplateExpression)
    (rest : List UriTemplatePart) :
    Except UriTemplateError (ReversibleTemplateExpression × List String) :=
  if expression.vars.isEmpty ∨
      (expression.vars.length ≠ 1 ∧ expression.operator.properties.named = false) then
    .error (.nonReversibleTemplate .multipleVariables)
  else
    (compileVariables names expression.vars).bind fun compiled =>
      (compileBoundary expression.operator rest).bind fun nextBoundary =>
        (validateReversibleExpression expression.operator nextBoundary).map fun _ =>
          (⟨expression.operator, compiled.1, nextBoundary⟩, compiled.2)

def compileParts : List String → List UriTemplatePart →
    Except UriTemplateError (List ReversibleTemplatePart)
  | _, [] => .ok []
  | names, .literal literal :: rest =>
    (appendEncodedLiteral {} [] literal).bind fun encoded =>
      (compileParts names rest).map fun parts => .literal encoded :: parts
  | names, .expression expression :: rest =>
    (compileExpression names expression rest).bind fun compiled =>
      (compileParts compiled.2 rest).map fun parts => .expression compiled.1 :: parts

/-- Compiles a template for deterministic reverse matching. -/
def UriTemplate.compileReversible (template : UriTemplate) :
    Except UriTemplateError ReversibleResourceTemplate :=
  (compileParts [] template.parts).map fun parts => ⟨template, parts⟩

/-- Checks that a value has the shape its expression can capture again. -/
def checkMatchValue (operator : UriTemplateOperator) (name : String) :
    Option TemplateValue → Except UriTemplateError Unit
  | none => .ok ()
  | some (.scalar value) =>
    if value.isEmpty ∧ (operator = .simple ∨ operator = .reserved) then
      .error (.ambiguousEmptyScalar name)
    else if (operator = .reserved ∨ operator = .fragment) ∧ containsTriplet (bytes value) then
      .error (.preescapedReservedMatchValue name)
    else .ok ()
  | some _ => .error (.nonScalarMatchValue name)

def checkMatchValues (values : TemplateValues) : ReversibleTemplatePart → Except UriTemplateError Unit
  | .literal _ => .ok ()
  | .expression expression =>
    expression.vars.forM fun entry =>
      checkMatchValue expression.operator entry.name values[entry.name]?

namespace ReversibleResourceTemplate

/-- Expands the scalar values declared by the compiled matcher. -/
def expand (matcher : ReversibleResourceTemplate) (values : TemplateValues) :
    Except UriTemplateError String :=
  (matcher.parts.forM (checkMatchValues values)).bind fun _ => matcher.template.expand values

end ReversibleResourceTemplate

/-- Splits a text at a boundary and returns the text before it with its length. -/
def reverseCaptureToBoundary (remainder : Bytes) (nextBoundary : Option ReversibleBoundary) :
    Option (Bytes × Nat) :=
  match nextBoundary with
  | none => some (remainder, remainder.length)
  | some boundary =>
    match findSlice boundary.asStr remainder with
    | some offset => some (remainder.take offset, offset)
    | none =>
      if boundary.permitsAbsentFollowingExpression then some (remainder, remainder.length)
      else none

def decodePercentTripletsOnce (capture : Bytes) : Option String :=
  (decode capture).bind fromUtf8

/-- An optional capture and the number of bytes it takes from the text. -/
abbrev Capture := Option String × Nat

def reverseMatchUnprefixed (remainder : Bytes) (nextBoundary : Option ReversibleBoundary) :
    Option Capture :=
  (reverseCaptureToBoundary remainder nextBoundary).bind fun captured =>
    if captured.1.isEmpty then some (none, 0)
    else (decodePercentTripletsOnce captured.1).map fun value => (some value, captured.2)

/-- Continues with what was found. Otherwise the variable is undefined and takes
nothing from the text. -/
def foundOrUndefined {Found : Type} (found : Option Found) (next : Found → Option Capture) :
    Option Capture :=
  match found with
  | none => some (none, 0)
  | some item => next item

def reverseMatchPrefixed (remainder marker : Bytes) (nextBoundary : Option ReversibleBoundary) :
    Option Capture :=
  foundOrUndefined (stripPrefix marker remainder) fun afterPrefix =>
    foundOrUndefined (reverseCaptureToBoundary afterPrefix nextBoundary) fun captured =>
      (decodePercentTripletsOnce captured.1).map fun value =>
        (some value, marker.length + captured.2)

/-- The text after the equals sign of a named variable and the length of that
sign. A name may end without one where the text ends, and, unless the sign is
required, also before a semicolon. -/
def namedValueText (requiresEquals : Bool) (afterName : Bytes) : Option (Bytes × Nat) :=
  match stripPrefix (bytes "=") afterName with
  | some afterEquals => some (afterEquals, 1)
  | none =>
    if afterName.isEmpty || (!requiresEquals && (bytes ";").isPrefixOf afterName) then
      some (afterName, 0)
    else none

def reverseMatchNamed (remainder marker : Bytes) (entry : ReversibleTemplateVariable)
    (requiresEquals : Bool) (nextBoundary : Option ReversibleBoundary) : Option Capture :=
  foundOrUndefined (stripPrefix (marker ++ entry.encodedName) remainder) fun afterName =>
    foundOrUndefined (namedValueText requiresEquals afterName) fun valueText =>
      foundOrUndefined (reverseCaptureToBoundary valueText.1 nextBoundary) fun captured =>
        (decodePercentTripletsOnce captured.1).map fun value =>
          (some value, (marker ++ entry.encodedName).length + valueText.2 + captured.2)

def reversibleNamedCaptureLen (remainder separator : Bytes)
    (nextBoundary : Option ReversibleBoundary) : Nat :=
  let bySeparator := ((findSlice separator remainder).map (min remainder.length)).getD
    remainder.length
  ((nextBoundary.bind fun boundary => findSlice boundary.asStr remainder).map
    (min bySeparator)).getD bySeparator

/-- How the text after a variable name inside a list of variables is read. -/
inductive NamedValue where
  /-- The value starts here, after an equals sign of the given length. -/
  | starts (afterEquals : Bytes) (equalsLength : Nat)
  /-- The name only looked like the variable's. -/
  | otherName
  /-- A required equals sign is missing. -/
  | malformed
deriving DecidableEq, Repr

def namedListValue (requiresEquals : Bool) (separator afterName : Bytes) : NamedValue :=
  match stripPrefix (bytes "=") afterName with
  | some afterEquals => .starts afterEquals 1
  | none =>
    if requiresEquals then .malformed
    else if afterName.isEmpty || separator.isPrefixOf afterName then .starts afterName 0
    else .otherName

/-- Matches the variables of a named expression in order, each after the marker
that belongs to it. The result counts the bytes taken. -/
def reverseMatchVariables (properties : OperatorProperties) (requiresEquals : Bool)
    (nextBoundary : Option ReversibleBoundary) :
    Bool → Bytes → List ReversibleTemplateVariable → Option (List (String × String) × Nat)
  | _, _, [] => some ([], 0)
  | wroteValue, remainder, entry :: rest =>
    let marker := if wroteValue then properties.separator else properties.first
    let skip := reverseMatchVariables properties requiresEquals nextBoundary wroteValue remainder rest
    match stripPrefix (marker ++ entry.encodedName) remainder with
    | none => skip
    | some afterName =>
      match namedListValue requiresEquals properties.separator afterName with
      | .malformed => none
      | .otherName => skip
      | .starts afterEquals equalsLength =>
        let captureLength :=
          reversibleNamedCaptureLen afterEquals properties.separator nextBoundary
        (decodePercentTripletsOnce (afterEquals.take captureLength)).bind fun value =>
          let taken := marker.length + entry.encodedName.length + equalsLength + captureLength
          (reverseMatchVariables properties requiresEquals nextBoundary true
            (remainder.drop taken) rest).map fun matched =>
              ((entry.name, value) :: matched.1, taken + matched.2)

def UriTemplateOperator.requiresEquals : UriTemplateOperator → Bool
  | .query | .queryContinuation => true
  | _ => false

def reverseMatchVariable (operator : UriTemplateOperator) (entry : ReversibleTemplateVariable)
    (nextBoundary : Option ReversibleBoundary) (remainder : Bytes) : Option Capture :=
  match operator with
  | .simple => reverseMatchUnprefixed remainder nextBoundary
  | .reserved => reverseMatchUnprefixed remainder none
  | .fragment => reverseMatchPrefixed remainder (bytes "#") nextBoundary
  | .label => reverseMatchPrefixed remainder (bytes ".") nextBoundary
  | .path => reverseMatchPrefixed remainder (bytes "/") nextBoundary
  | .pathParameter => reverseMatchNamed remainder (bytes ";") entry false nextBoundary
  | .query => reverseMatchNamed remainder (bytes "?") entry true nextBoundary
  | .queryContinuation => reverseMatchNamed remainder (bytes "&") entry true nextBoundary

/-- Matches one expression at the front of a text. The result counts the bytes
taken. -/
def reverseMatchExpression (expression : ReversibleTemplateExpression) (remainder : Bytes) :
    Option (List (String × String) × Nat) :=
  match expression.vars with
  | [] => none
  | [entry] =>
    (reverseMatchVariable expression.operator entry expression.nextBoundary remainder).map
      fun captured => ((captured.1.map fun value => (entry.name, value)).toList, captured.2)
  | vars =>
    reverseMatchVariables expression.operator.properties expression.operator.requiresEquals
      expression.nextBoundary false remainder vars

def insertCaptures (values : TemplateValues) (captures : List (String × String)) : TemplateValues :=
  captures.foldl (fun values capture => values.insert capture.1 (.scalar capture.2)) values

/-- Matches the compiled parts against the rest of a text and collects what
they capture. -/
def reverseMatchParts : TemplateValues → List ReversibleTemplatePart → Bytes → Option TemplateValues
  | values, [], remainder => if remainder.isEmpty then some values else none
  | values, .literal text :: parts, remainder =>
    (stripPrefix text remainder).bind fun remainder => reverseMatchParts values parts remainder
  | values, .expression expression :: parts, remainder =>
    (reverseMatchExpression expression remainder).bind fun matched =>
      reverseMatchParts (insertCaptures values matched.1) parts (remainder.drop matched.2)

/-- Reverse-matches an exact URI and replays the captured values. -/
def ReversibleResourceTemplate.matchUri (matcher : ReversibleResourceTemplate) (uri : String) :
    Except UriTemplateError (Option TemplateValues) :=
  if uri.utf8ByteSize > maxUriTemplateMatchInputBytes then
    .error (.matchInputTooLong uri.utf8ByteSize maxUriTemplateMatchInputBytes)
  else
    match reverseMatchParts ∅ matcher.parts (bytes uri) with
    | none => .ok none
    | some values =>
      (matcher.expand values).map fun replayed => if replayed = uri then some values else none

end FastMcp.UriTemplates
