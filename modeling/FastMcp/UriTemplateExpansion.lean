import FastMcp.UriTemplate

/-! # Expansion of templates

Expansion writes the parts of a template from left to right into an output
whose length is bounded before every write.
-/

namespace FastMcp.UriTemplates

open ByteText PercentCoding

/-- Limits on one expansion. -/
structure UriTemplateExpansionLimits where
  outputBytes : Nat := maxUriTemplateExpansionOutputBytes
  compositeItems : Nat := maxUriTemplateCompositeItems
  valueBytes : Nat := maxUriTemplateValueBytes
deriving DecidableEq, Repr

def isUnreserved (byte : UInt8) : Bool :=
  (0x30 ≤ byte && byte ≤ 0x39) || (0x41 ≤ byte && byte ≤ 0x5a) ||
    (0x61 ≤ byte && byte ≤ 0x7a) || (bytes "-._~").contains byte

def isReserved (byte : UInt8) : Bool :=
  (bytes ":/?#[]@!$&'()*+,;=").contains byte

/-- The bytes that an expansion writes as they are. -/
def keepsByte (allowReserved : Bool) (byte : UInt8) : Bool :=
  isUnreserved byte || (allowReserved && isReserved byte)

section Writers

variable (limits : UriTemplateExpansionLimits)

def appendOutput (output fragment : Bytes) : Except UriTemplateError Bytes :=
  let actual := output.length + fragment.length
  if actual > limits.outputBytes then .error (.expansionTooLarge actual limits.outputBytes)
  else .ok (output ++ fragment)

def appendByte (output : Bytes) (byte : UInt8) : Except UriTemplateError Bytes :=
  appendOutput limits output [byte]

def appendPercentTriplet (output : Bytes) (byte : UInt8) : Except UriTemplateError Bytes :=
  appendOutput limits output (triplet byte)

/-- Writes one byte, as it is or as a triplet. -/
def appendEncodedByte (allowReserved : Bool) (output : Bytes) (byte : UInt8) :
    Except UriTemplateError Bytes :=
  if keepsByte allowReserved byte then appendByte limits output byte
  else appendPercentTriplet limits output byte

def appendPercentEncoded (allowReserved preserve : Bool) :
    Bytes → Bytes → Except UriTemplateError Bytes
  | output, [] => .ok output
  | output, byte :: rest =>
    match rest with
    | high :: low :: tail =>
      if preserve && startsWithTriplet [byte, high, low] then
        (appendOutput limits output [byte, high, low]).bind fun output =>
          appendPercentEncoded allowReserved preserve output tail
      else
        (appendEncodedByte limits allowReserved output byte).bind fun output =>
          appendPercentEncoded allowReserved preserve output (high :: low :: tail)
    | shorter =>
      (appendEncodedByte limits allowReserved output byte).bind fun output =>
        appendPercentEncoded allowReserved preserve output shorter

def appendEncodedLiteral (output : Bytes) (literal : String) : Except UriTemplateError Bytes :=
  appendPercentEncoded limits true true output (bytes literal)

def appendVariableName (output : Bytes) (name : String) : Except UriTemplateError Bytes :=
  appendPercentEncoded limits false true output (bytes name)

def appendEncodedValue (allowReserved : Bool) (output : Bytes) (value : String) :
    Except UriTemplateError Bytes :=
  appendPercentEncoded limits allowReserved allowReserved output (bytes value)

def checkValueBound (value : String) : Except UriTemplateError Unit :=
  if value.utf8ByteSize > limits.valueBytes then
    .error (.valueTooLong value.utf8ByteSize limits.valueBytes)
  else .ok ()

/-- The output of one expression and whether it has written a value yet. -/
structure ExpressionWriter where
  output : Bytes
  wroteValue : Bool
deriving DecidableEq, Repr

namespace ExpressionWriter

variable (properties : OperatorProperties)

def beginValue (writer : ExpressionWriter) : Except UriTemplateError ExpressionWriter :=
  let delimiter := if writer.wroteValue then properties.separator else properties.first
  (appendOutput limits writer.output delimiter).map fun output => ⟨output, true⟩

def appendText (writer : ExpressionWriter) (text : Bytes) :
    Except UriTemplateError ExpressionWriter :=
  (appendOutput limits writer.output text).map fun output => { writer with output := output }

def appendValue (writer : ExpressionWriter) (value : String) :
    Except UriTemplateError ExpressionWriter :=
  (appendEncodedValue limits properties.allowReserved writer.output value).map fun output =>
    { writer with output := output }

/-- Writes the name of a variable and the text between name and value. -/
def appendName (writer : ExpressionWriter) (name : String) (joint : Bytes) :
    Except UriTemplateError ExpressionWriter :=
  (appendVariableName limits writer.output name).bind fun output =>
    (appendOutput limits output joint).map fun output => { writer with output := output }

def writeValue (writer : ExpressionWriter) (name value : String) (logicallyEmpty : Bool) :
    Except UriTemplateError ExpressionWriter :=
  (writer.beginValue limits properties).bind fun writer =>
    if properties.named then
      (writer.appendName limits name
        (if logicallyEmpty then properties.ifEmpty else bytes "=")).bind fun writer =>
          writer.appendValue limits properties value
    else writer.appendValue limits properties value

def writeAssociativePair (writer : ExpressionWriter) (key value : String) :
    Except UriTemplateError ExpressionWriter := do
  let writer ← writer.beginValue limits properties
  let writer ← writer.appendValue limits properties key
  if properties.named then
    let joint := if value.isEmpty then properties.ifEmpty else bytes "="
    let writer ← writer.appendText limits joint
    writer.appendValue limits properties value
  else
    let writer ←
      if !value.isEmpty || properties.isFormStyle then writer.appendText limits (bytes "=")
      else .ok writer
    writer.appendValue limits properties value

/-- Writes a list of values separated by commas. -/
def writeJoined (writer : ExpressionWriter) : Bool → List String →
    Except UriTemplateError ExpressionWriter
  | _, [] => .ok writer
  | first, value :: rest => do
    let writer ← if first then .ok writer else writer.appendText limits (bytes ",")
    let writer ← writer.appendValue limits properties value
    writeJoined writer false rest

/-- Writes a composite value as one value of its variable. -/
def writeComposite (writer : ExpressionWriter) (name : String) (values : List String) :
    Except UriTemplateError ExpressionWriter := do
  let writer ← writer.beginValue limits properties
  let writer ←
    if properties.named then writer.appendName limits name (bytes "=") else .ok writer
  writer.writeJoined limits properties true values

end ExpressionWriter

/-- The width of a percent-encoded UTF-8 character at the front of a text. -/
def pctEncodedCharacterWidth (source : Bytes) : Nat :=
  let octet (text : Bytes) : Option UInt8 := match text with
    | sign :: high :: low :: _ =>
      if sign = percent then do
        let high ← hexValue high
        let low ← hexValue low
        return high <<< 4 ||| low
      else none
    | _ => none
  let width : Nat := match octet source with
    | none => 1
    | some first =>
      if 0xC2 ≤ first && first ≤ 0xDF then 2
      else if 0xE0 ≤ first && first ≤ 0xEF then 3
      else if 0xF0 ≤ first && first ≤ 0xF4 then 4
      else 1
  if !(2 ≤ width && width ≤ 4) || source.length < width * 3 then 3
  else
    match (List.range width).mapM fun index => octet (source.drop (index * 3)) with
    | none => 3
    | some decoded =>
      if (fromUtf8 decoded).any fun text => text.length = 1 then width * 3 else 3

/-- The first characters of a value, a percent-encoded character counting as
one. -/
def takeCharacters : Nat → List Char → List Char
  | 0, _ => []
  | _ + 1, [] => []
  | remaining + 1, character :: rest =>
    let encoded := (character :: rest).flatMap String.utf8EncodeChar
    if startsWithTriplet encoded then
      let width := pctEncodedCharacterWidth encoded
      (character :: rest).take width ++ takeCharacters remaining ((character :: rest).drop width)
    else character :: takeCharacters remaining rest

def scalarPrefix (value : String) (spec : UriTemplateVariable) : Except UriTemplateError String :=
  (checkValueBound limits value).map fun _ =>
    match spec.modifier with
    | some (.prefixLength length) => String.ofList (takeCharacters length value.toList)
    | _ => value

def rejectPrefixOnComposite (spec : UriTemplateVariable) : Except UriTemplateError Unit :=
  match spec.modifier with
  | some (.prefixLength _) => .error (.prefixAppliedToComposite spec.name)
  | _ => .ok ()

/-- Counts composite members against their limit. -/
def inspectComposite (compositeItems count : Nat) : Except UriTemplateError Nat :=
  let actual := compositeItems + count
  if actual > limits.compositeItems then
    .error (.tooManyCompositeItems actual limits.compositeItems)
  else .ok actual

/-- Checks the keys and values of an associative value from left to right. -/
def checkAssociative : List String → List (String × Option String) → Except UriTemplateError Unit
  | _, [] => .ok ()
  | seen, (key, value) :: rest => do
    if key ∈ seen then throw (.duplicateAssociativeKey key)
    checkValueBound limits key
    match value with
    | some value => checkValueBound limits value
    | none => pure ()
    checkAssociative (key :: seen) rest

/-- Writes one variable and returns the writer with the number of composite
members inspected so far. -/
def expandVariable (properties : OperatorProperties) (writer : ExpressionWriter)
    (spec : UriTemplateVariable) (value : TemplateValue) (compositeItems : Nat) :
    Except UriTemplateError (ExpressionWriter × Nat) := do
  match value with
  | .scalar value =>
    let value ← scalarPrefix limits value spec
    let writer ← writer.writeValue limits properties spec.name value value.isEmpty
    return (writer, compositeItems)
  | .list values =>
    if values.isEmpty then return (writer, compositeItems)
    let compositeItems ← inspectComposite limits compositeItems values.length
    let defined := values.filterMap id
    defined.forM (checkValueBound limits)
    if defined.isEmpty then return (writer, compositeItems)
    rejectPrefixOnComposite spec
    let writer ←
      if spec.modifier = some .explode then
        defined.foldlM (fun writer value =>
          writer.writeValue limits properties spec.name value value.isEmpty) writer
      else writer.writeComposite limits properties spec.name defined
    return (writer, compositeItems)
  | .associative values =>
    if values.isEmpty then return (writer, compositeItems)
    let compositeItems ← inspectComposite limits compositeItems values.length
    checkAssociative limits [] values
    let defined := values.filterMap fun pair => pair.2.map fun value => (pair.1, value)
    if defined.isEmpty then return (writer, compositeItems)
    rejectPrefixOnComposite spec
    let writer ←
      if spec.modifier = some .explode then
        defined.foldlM (fun writer pair =>
          writer.writeAssociativePair limits properties pair.1 pair.2) writer
      else
        writer.writeComposite limits properties spec.name
          (defined.flatMap fun pair => [pair.1, pair.2])
    return (writer, compositeItems)

/-- Writes the defined variables of an expression from left to right. -/
def expandVariables (properties : OperatorProperties) (values : TemplateValues) :
    ExpressionWriter → Nat → List UriTemplateVariable →
      Except UriTemplateError (ExpressionWriter × Nat)
  | writer, compositeItems, [] => .ok (writer, compositeItems)
  | writer, compositeItems, spec :: rest =>
    match values[spec.name]? with
    | none => expandVariables properties values writer compositeItems rest
    | some value =>
      (expandVariable limits properties writer spec value compositeItems).bind fun written =>
        expandVariables properties values written.1 written.2 rest

def expandExpression (values : TemplateValues) (output : Bytes) (compositeItems : Nat)
    (expression : UriTemplateExpression) : Except UriTemplateError (Bytes × Nat) :=
  (expandVariables limits expression.operator.properties values ⟨output, false⟩ compositeItems
    expression.vars).map fun written => (written.1.output, written.2)

/-- Writes the parts of a template from left to right. -/
def expandParts (values : TemplateValues) : Bytes → Nat → List UriTemplatePart →
    Except UriTemplateError Bytes
  | output, _, [] => .ok output
  | output, compositeItems, .literal literal :: rest =>
    (appendEncodedLiteral limits output literal).bind fun output =>
      expandParts values output compositeItems rest
  | output, compositeItems, .expression expression :: rest =>
    (expandExpression limits values output compositeItems expression).bind fun written =>
      expandParts values written.1 written.2 rest

/-- Expands a template under the given limits. -/
def UriTemplate.expandWithLimits (template : UriTemplate) (values : TemplateValues) :
    Except UriTemplateError String :=
  (expandParts limits values [] 0 template.parts).map asciiText

end Writers

/-- Expands a template under the default limits. -/
def UriTemplate.expand (template : UriTemplate) (values : TemplateValues) :
    Except UriTemplateError String :=
  template.expandWithLimits {} values

end FastMcp.UriTemplates
