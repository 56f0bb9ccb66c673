import FastMcp.Outcomes
import FastMcp.UriTemplateExpansion

/-! # What an expansion writes

Expansion is described here without a writer and without limits: the values of
an expression are a list of pieces, which are written one after the other with
their delimiters. An expansion succeeds exactly when its values are acceptable
and the text fits, and then returns this text.
-/

namespace FastMcp.UriTemplates

open ByteText PercentCoding Outcomes

/-- How an operator encodes a scalar. -/
def encodeScalar (operator : UriTemplateOperator) (value : String) : Bytes :=
  encode (keepsByte operator.properties.allowReserved) operator.properties.allowReserved
    (bytes value)

/-- The text between the name of a variable and its value. -/
def nameJoint (operator : UriTemplateOperator) (value : String) : Bytes :=
  if value.isEmpty then operator.properties.ifEmpty else bytes "="

/-- The delimiter before the first value of an expression or before a later one. -/
def delimiter (operator : UriTemplateOperator) (wroteValue : Bool) : Bytes :=
  if wroteValue then operator.properties.separator else operator.properties.first

/-- How the name of a variable is written. -/
def encodeName (name : String) : Bytes :=
  encode (keepsByte false) true (bytes name)

/-- The name of a variable and the text after it, for operators that write names. -/
def labelled (operator : UriTemplateOperator) (name : String) (joint : Bytes) : Bytes :=
  if operator.properties.named then encodeName name ++ joint else []

/-- A scalar, or one member of an exploded list. -/
def scalarPiece (operator : UriTemplateOperator) (name value : String) : Bytes :=
  labelled operator name (nameJoint operator value) ++ encodeScalar operator value

/-- One pair of an exploded associative value. -/
def pairPiece (operator : UriTemplateOperator) (pair : String × String) : Bytes :=
  encodeScalar operator pair.1 ++
    (if operator.properties.named then nameJoint operator pair.2
      else if pair.2.isEmpty then [] else bytes "=") ++
    encodeScalar operator pair.2

/-- A composite value that is written as one value. -/
def compositePiece (operator : UriTemplateOperator) (name : String) (members : List String) :
    Bytes :=
  labelled operator name (bytes "=") ++
    (bytes ",").intercalate (members.map (encodeScalar operator))

/-- The part of a scalar that a variable takes. -/
def takenText (spec : UriTemplateVariable) (value : String) : String :=
  match spec.modifier with
  | some (.prefixLength length) => String.ofList (takeCharacters length value.toList)
  | _ => value

def definedMembers (values : List (Option String)) : List String :=
  values.filterMap id

def definedPairs (values : List (String × Option String)) : List (String × String) :=
  values.filterMap fun pair => pair.2.map fun value => (pair.1, value)

/-- The texts that one variable writes, delimiters apart. -/
def pieces (operator : UriTemplateOperator) (spec : UriTemplateVariable) :
    TemplateValue → List Bytes
  | .scalar value => [scalarPiece operator spec.name (takenText spec value)]
  | .list values =>
    let defined := definedMembers values
    if defined.isEmpty then []
    else if spec.modifier = some .explode then defined.map (scalarPiece operator spec.name)
    else [compositePiece operator spec.name defined]
  | .associative values =>
    let defined := definedPairs values
    if defined.isEmpty then []
    else if spec.modifier = some .explode then defined.map (pairPiece operator)
    else [compositePiece operator spec.name (defined.flatMap fun pair => [pair.1, pair.2])]

/-- Pieces with their delimiters. -/
def joinPieces (operator : UriTemplateOperator) : Bool → List Bytes → Bytes
  | _, [] => []
  | wroteValue, piece :: rest =>
    delimiter operator wroteValue ++ piece ++ joinPieces operator true rest

theorem joinPieces_append (operator : UriTemplateOperator) (wroteValue : Bool)
    (first second : List Bytes) :
    joinPieces operator wroteValue (first ++ second) =
      joinPieces operator wroteValue first ++
        joinPieces operator (wroteValue || !first.isEmpty) second := by
  induction first generalizing wroteValue with
  | nil => simp [joinPieces]
  | cons piece first ih => simp [joinPieces, ih]

section Writers

variable {limits : UriTemplateExpansionLimits}

theorem appendOutput_yields (output fragment : Bytes) :
    Yields List.length limits.outputBytes (appendOutput limits output fragment)
      (output ++ fragment) := by
  intro result
  by_cases tooLong : output.length + fragment.length > limits.outputBytes
  · simp only [appendOutput, if_pos tooLong, reduceCtorEq, false_iff, not_and]
    rintro rfl
    rw [List.length_append]
    omega
  · simp only [appendOutput, if_neg tooLong, Except.ok.injEq]
    constructor
    · rintro rfl
      exact ⟨rfl, by rw [List.length_append]; omega⟩
    · exact fun written => written.1.symm

theorem appendEncodedByte_yields (allowReserved : Bool) (output : Bytes) (byte : UInt8) :
    Yields List.length limits.outputBytes (appendEncodedByte limits allowReserved output byte)
      (output ++ encodeByte (keepsByte allowReserved) byte) := by
  unfold appendEncodedByte encodeByte appendByte appendPercentTriplet
  split <;> exact appendOutput_yields output _

theorem appendPercentEncoded_yields (allowReserved preserve : Bool) (output source : Bytes)
    (fits : output.length ≤ limits.outputBytes) :
    Yields List.length limits.outputBytes
      (appendPercentEncoded limits allowReserved preserve output source)
      (output ++ encode (keepsByte allowReserved) preserve source) := by
  fun_induction appendPercentEncoded limits allowReserved preserve output source with
  | case1 output =>
    rw [encode, List.append_nil]
    exact Yields.ok fits
  | case2 output byte high low tail copied ih =>
    rw [encode, if_pos copied]
    rw [show byte :: high :: low :: encode (keepsByte allowReserved) preserve tail =
      [byte, high, low] ++ encode (keepsByte allowReserved) preserve tail from rfl,
      ← List.append_assoc]
    exact (appendOutput_yields output [byte, high, low]).bind
      (fun middleFits => ih _ middleFits) (by simp)
  | case3 output byte high low tail notCopied ih =>
    rw [encode, if_neg notCopied, ← List.append_assoc]
    exact (appendEncodedByte_yields allowReserved output byte).bind
      (fun middleFits => ih _ middleFits) (by simp)
  | case4 output byte shorter short ih =>
    have single : encode (keepsByte allowReserved) preserve (byte :: shorter) =
        encodeByte (keepsByte allowReserved) byte ++
          encode (keepsByte allowReserved) preserve shorter := by
      rcases shorter with _ | ⟨high, _ | ⟨low, tail⟩⟩
      · rfl
      · rfl
      · exact absurd rfl (short high low tail)
    rw [single, ← List.append_assoc]
    exact (appendEncodedByte_yields allowReserved output byte).bind
      (fun middleFits => ih _ middleFits) (by simp)

/-- The number of bytes a writer has written. -/
def ExpressionWriter.size (writer : ExpressionWriter) : Nat :=
  writer.output.length

theorem beginValue_yields (operator : UriTemplateOperator) (writer : ExpressionWriter) :
    Yields ExpressionWriter.size limits.outputBytes
      (writer.beginValue limits operator.properties)
      ⟨writer.output ++ delimiter operator writer.wroteValue, true⟩ :=
  (appendOutput_yields writer.output (delimiter operator writer.wroteValue)).map
    (fun output => ExpressionWriter.mk output true) fun _ => rfl

variable {writer : ExpressionWriter}

theorem appendName_yields (name : String) (joint : Bytes)
    (fits : writer.size ≤ limits.outputBytes) :
    Yields ExpressionWriter.size limits.outputBytes (writer.appendName limits name joint)
      ⟨writer.output ++ encodeName name ++ joint, writer.wroteValue⟩ := by
  have named := appendPercentEncoded_yields false true writer.output (bytes name) fits
  refine named.bind (fun _ => ?_) (by simp [ExpressionWriter.size, encodeName])
  exact (appendOutput_yields _ joint).map
    (fun output => ExpressionWriter.mk output writer.wroteValue) fun _ => rfl

theorem appendValue_yields (operator : UriTemplateOperator) (value : String)
    (fits : writer.size ≤ limits.outputBytes) :
    Yields ExpressionWriter.size limits.outputBytes
      (writer.appendValue limits operator.properties value)
      ⟨writer.output ++ encodeScalar operator value, writer.wroteValue⟩ :=
  (appendPercentEncoded_yields _ _ writer.output (bytes value) fits).map
    (fun output => ExpressionWriter.mk output writer.wroteValue) fun _ => rfl

theorem appendText_yields (text : Bytes) :
    Yields ExpressionWriter.size limits.outputBytes (writer.appendText limits text)
      ⟨writer.output ++ text, writer.wroteValue⟩ :=
  (appendOutput_yields writer.output text).map
    (fun output => ExpressionWriter.mk output writer.wroteValue) fun _ => rfl

theorem writeValue_yields (operator : UriTemplateOperator) (writer : ExpressionWriter)
    (name value : String) :
    Yields ExpressionWriter.size limits.outputBytes
      (writer.writeValue limits operator.properties name value value.isEmpty)
      ⟨writer.output ++ delimiter operator writer.wroteValue ++ scalarPiece operator name value,
        true⟩ := by
  refine (beginValue_yields operator writer).bind (fun fits => ?_) (by
    simp [ExpressionWriter.size])
  cases named : operator.properties.named with
  | false =>
    simp only [Bool.false_eq_true, if_false, scalarPiece, labelled, named, List.nil_append]
    exact appendValue_yields operator value fits
  | true =>
    simp only [if_true, scalarPiece, labelled, named, ← List.append_assoc]
    exact (appendName_yields name (nameJoint operator value) fits).bind
      (fun nameFits => appendValue_yields operator value nameFits)
      (by simp [ExpressionWriter.size])

theorem isFormStyle_named (operator : UriTemplateOperator)
    (unnamed : operator.properties.named = false) : operator.properties.isFormStyle = false := by
  revert unnamed
  cases operator <;> decide

theorem writeAssociativePair_yields (operator : UriTemplateOperator) (writer : ExpressionWriter)
    (pair : String × String) :
    Yields ExpressionWriter.size limits.outputBytes
      (writer.writeAssociativePair limits operator.properties pair.1 pair.2)
      ⟨writer.output ++ delimiter operator writer.wroteValue ++ pairPiece operator pair,
        true⟩ := by
  refine (beginValue_yields operator writer).bind (fun fits => ?_) (by
    simp [ExpressionWriter.size])
  refine (appendValue_yields operator pair.1 fits).bind (fun keyFits => ?_) (by
    simp [ExpressionWriter.size, pairPiece])
  cases named : operator.properties.named with
  | false =>
    simp only [Bool.false_eq_true, if_false, pairPiece, named, ← List.append_assoc,
      isFormStyle_named operator named, Bool.or_false, Bool.not_eq_true']
    cases empty : pair.2.isEmpty with
    | true =>
      simp only [if_true, if_false, List.append_nil, Bool.true_eq_false]
      exact appendValue_yields operator pair.2 keyFits
    | false =>
      simp only [if_true, if_false, Bool.false_eq_true]
      exact (appendText_yields (bytes "=")).bind
        (fun jointFits => appendValue_yields operator pair.2 jointFits)
        (by simp [ExpressionWriter.size])
  | true =>
    simp only [if_true, pairPiece, named, ← List.append_assoc]
    exact (appendText_yields (nameJoint operator pair.2)).bind
      (fun jointFits => appendValue_yields operator pair.2 jointFits)
      (by simp [ExpressionWriter.size])

theorem writeJoined_later_yields (operator : UriTemplateOperator) (members : List String)
    (writer : ExpressionWriter) (fits : writer.size ≤ limits.outputBytes) :
    Yields ExpressionWriter.size limits.outputBytes
      (writer.writeJoined limits operator.properties false members)
      ⟨writer.output ++ members.flatMap fun value => bytes "," ++ encodeScalar operator value,
        writer.wroteValue⟩ := by
  induction members generalizing writer with
  | nil =>
    rw [ExpressionWriter.writeJoined, List.flatMap_nil, List.append_nil]
    exact Yields.ok fits
  | cons value members ih =>
    rw [ExpressionWriter.writeJoined, List.flatMap_cons]
    simp only [← List.append_assoc, Bool.false_eq_true, if_false]
    refine (appendText_yields (bytes ",")).bind (fun commaFits => ?_) (by
      simp [ExpressionWriter.size])
    refine (appendValue_yields operator value commaFits).bind (fun valueFits => ?_) (by
      simp [ExpressionWriter.size])
    exact ih _ valueFits

theorem intercalate_cons_flatMap (separator first : Bytes) (rest : List Bytes) :
    separator.intercalate (first :: rest) =
      first ++ rest.flatMap fun piece => separator ++ piece := by
  induction rest generalizing first with
  | nil => simp
  | cons second rest ih => simp [List.intercalate_cons_cons, ih]

theorem writeComposite_yields (operator : UriTemplateOperator) (name : String) (first : String)
    (members : List String) (writer : ExpressionWriter) :
    Yields ExpressionWriter.size limits.outputBytes
      (writer.writeComposite limits operator.properties name (first :: members))
      ⟨writer.output ++ delimiter operator writer.wroteValue ++
        compositePiece operator name (first :: members), true⟩ := by
  have joined (writer : ExpressionWriter) (fits : writer.size ≤ limits.outputBytes) :
      Yields ExpressionWriter.size limits.outputBytes
        (writer.writeJoined limits operator.properties true (first :: members))
        ⟨writer.output ++ (bytes ",").intercalate ((first :: members).map (encodeScalar operator)),
          writer.wroteValue⟩ := by
    rw [ExpressionWriter.writeJoined, List.map_cons, intercalate_cons_flatMap, List.flatMap_map,
      ← List.append_assoc]
    exact (appendValue_yields operator first fits).bind
      (fun firstFits => writeJoined_later_yields operator members _ firstFits)
      (by simp [ExpressionWriter.size])
  refine (beginValue_yields operator writer).bind (fun fits => ?_) (by
    simp [ExpressionWriter.size])
  cases named : operator.properties.named with
  | false =>
    simp only [Bool.false_eq_true, if_false, compositePiece, labelled, named, List.nil_append]
    exact joined _ fits
  | true =>
    simp only [if_true, compositePiece, labelled, named, ← List.append_assoc]
    exact (appendName_yields name (bytes "=") fits).bind (fun nameFits => joined _ nameFits)
      (by simp [ExpressionWriter.size])

/-- Writing one piece after the other. -/
theorem foldlM_yields {Item : Type} {operator : UriTemplateOperator} {piece : Item → Bytes}
    {write : ExpressionWriter → Item → Except UriTemplateError ExpressionWriter}
    (one : ∀ writer item, Yields ExpressionWriter.size limits.outputBytes (write writer item)
      ⟨writer.output ++ delimiter operator writer.wroteValue ++ piece item, true⟩)
    (items : List Item) (writer : ExpressionWriter) (fits : writer.size ≤ limits.outputBytes) :
    Yields ExpressionWriter.size limits.outputBytes (items.foldlM write writer)
      ⟨writer.output ++ joinPieces operator writer.wroteValue (items.map piece),
        writer.wroteValue || !(items.map piece).isEmpty⟩ := by
  induction items generalizing writer with
  | nil =>
    rw [List.foldlM_nil, List.map_nil, joinPieces, List.append_nil]
    simp only [List.isEmpty_nil, Bool.not_true, Bool.or_false]
    exact Yields.ok fits
  | cons item items ih =>
    rw [List.foldlM_cons, List.map_cons, joinPieces, ← List.append_assoc, ← List.append_assoc]
    refine (one writer item).bind (fun oneFits => ?_) (by simp [ExpressionWriter.size])
    simpa using ih _ oneFits

/-! ## Acceptable values -/

variable (limits) in
/-- Values within the size limit. -/
def SmallValue (value : String) : Prop :=
  value.utf8ByteSize ≤ limits.valueBytes

/-- Variables that take their values whole. -/
def TakesWhole (spec : UriTemplateVariable) : Prop :=
  ∀ length, spec.modifier ≠ some (.prefixLength length)

variable (limits) in
/-- The values that a variable can be bound to. -/
def AcceptedValue (spec : UriTemplateVariable) : TemplateValue → Prop
  | .scalar value => SmallValue limits value
  | .list values =>
    (∀ value ∈ definedMembers values, SmallValue limits value) ∧
      (definedMembers values ≠ [] → TakesWhole spec)
  | .associative values =>
    ((values.map Prod.fst).Nodup ∧
      ∀ pair ∈ values, SmallValue limits pair.1 ∧ ∀ value ∈ pair.2, SmallValue limits value) ∧
      (definedPairs values ≠ [] → TakesWhole spec)

/-- The number of members of a composite value, undefined ones included. -/
def memberCount : TemplateValue → Nat
  | .scalar _ => 0
  | .list values => values.length
  | .associative values => values.length

theorem checkValueBound_eq_ok {value : String} {result : Unit} :
    checkValueBound limits value = .ok result ↔ SmallValue limits value := by
  rw [checkValueBound, guard_eq_ok, SmallValue]
  simp

theorem rejectPrefixOnComposite_eq_ok {spec : UriTemplateVariable} {result : Unit} :
    rejectPrefixOnComposite spec = .ok result ↔ TakesWhole spec := by
  unfold rejectPrefixOnComposite TakesWhole
  split
  · rename_i length lossy
    simp [lossy]
  · rename_i whole
    exact iff_of_true rfl whole

theorem inspectComposite_eq_ok {compositeItems count result : Nat} :
    inspectComposite limits compositeItems count = .ok result ↔
      compositeItems + count ≤ limits.compositeItems ∧ compositeItems + count = result := by
  simp only [inspectComposite, guard_eq_ok, Except.ok.injEq, gt_iff_lt, not_lt]

theorem checkAssociative_eq_ok {seen : List String} {values : List (String × Option String)} :
    checkAssociative limits seen values = .ok () ↔
      (∀ key ∈ values.map Prod.fst, key ∉ seen) ∧ (values.map Prod.fst).Nodup ∧
        ∀ pair ∈ values, SmallValue limits pair.1 ∧ ∀ value ∈ pair.2, SmallValue limits value := by
  induction values generalizing seen with
  | nil => simp [checkAssociative]
  | cons pair values ih =>
    obtain ⟨key, value⟩ := pair
    have first : (checkAssociative limits seen ((key, value) :: values) = .ok ()) ↔
        key ∉ seen ∧ SmallValue limits key ∧ (∀ text ∈ value, SmallValue limits text) ∧
          checkAssociative limits (key :: seen) values = .ok () := by
      cases value <;>
        simp [checkAssociative, throw_andThen, guard_eq_ok, andThen_eq_ok, checkValueBound_eq_ok]
    rw [first, ih]
    simp only [List.map_cons, List.forall_mem_cons, List.nodup_cons]
    simp only [List.mem_cons, not_or]
    constructor
    · rintro ⟨fresh, keySmall, valueSmall, others, distinct, small⟩
      exact ⟨⟨fresh, fun other listed => (others other listed).2⟩,
        ⟨fun listed => (others key listed).1 rfl, distinct⟩, ⟨keySmall, valueSmall⟩, small⟩
    · rintro ⟨⟨fresh, others⟩, ⟨notLater, distinct⟩, ⟨keySmall, valueSmall⟩, small⟩
      exact ⟨fresh, keySmall, valueSmall,
        fun other listed => ⟨fun same => notLater (same ▸ listed), others other listed⟩, distinct,
        small⟩

/-! ## Expansion -/

/-- The writer after the given pieces. -/
def ExpressionWriter.after (writer : ExpressionWriter) (operator : UriTemplateOperator)
    (written : List Bytes) : ExpressionWriter :=
  ⟨writer.output ++ joinPieces operator writer.wroteValue written,
    writer.wroteValue || !written.isEmpty⟩

theorem ExpressionWriter.after_nil (writer : ExpressionWriter) (operator : UriTemplateOperator) :
    writer.after operator [] = writer := by
  simp [ExpressionWriter.after, joinPieces]

theorem ExpressionWriter.after_append (writer : ExpressionWriter) (operator : UriTemplateOperator)
    (first second : List Bytes) :
    writer.after operator (first ++ second) = (writer.after operator first).after operator second := by
  simp only [ExpressionWriter.after, joinPieces_append, List.append_assoc, Bool.or_assoc]
  cases first <;> simp

theorem ExpressionWriter.size_after (writer : ExpressionWriter) (operator : UriTemplateOperator)
    (written : List Bytes) : writer.size ≤ (writer.after operator written).size := by
  simp [ExpressionWriter.size, ExpressionWriter.after]

variable {operator : UriTemplateOperator} {spec : UriTemplateVariable} {compositeItems : Nat}
  {result : ExpressionWriter × Nat}

theorem ite_andThen {First Second : Type} {condition : Prop} [Decidable condition]
    (first second : Except UriTemplateError First)
    (next : First → Except UriTemplateError Second) :
    (if condition then first else second) >>= next =
      if condition then first >>= next else second >>= next := by
  split <;> rfl

/-- What a list and an associative value have in common: the members are counted
and checked before any of them is written. -/
theorem composite_eq_ok (spec : UriTemplateVariable) (result : ExpressionWriter × Nat)
    {check : Except UriTemplateError Unit} {accepted : Prop} {count : Nat} {empty : Bool}
    {Member : Type} {members : List Member}
    {write : Except UriTemplateError ExpressionWriter} {written : List Bytes}
    (checked : check = .ok () ↔ accepted)
    (writes : members ≠ [] → Yields ExpressionWriter.size limits.outputBytes write
      (writer.after operator written))
    (noneWritten : members = [] → written = [])
    (whenEmpty : empty = true → members = [] ∧ count = 0 ∧ accepted)
    (fits : writer.size ≤ limits.outputBytes) (few : compositeItems ≤ limits.compositeItems) :
    (if empty = true then .ok (writer, compositeItems)
      else inspectComposite limits compositeItems count >>= fun inspected =>
        check >>= fun _ =>
          if members.isEmpty = true then .ok (writer, inspected)
          else rejectPrefixOnComposite spec >>= fun _ =>
            write >>= fun writer => .ok (writer, inspected)) = .ok result ↔
      (accepted ∧ (members ≠ [] → TakesWhole spec)) ∧
        compositeItems + count ≤ limits.compositeItems ∧
        result = (writer.after operator written, compositeItems + count) ∧
        result.1.size ≤ limits.outputBytes := by
  cases empty with
  | true =>
    obtain ⟨rfl, rfl, isAccepted⟩ := whenEmpty rfl
    rw [noneWritten rfl, ExpressionWriter.after_nil]
    simp only [if_true, Except.ok.injEq, isAccepted, ne_eq, not_true, false_implies, and_true,
      Nat.add_zero, few, true_and]
    constructor
    · rintro rfl
      exact ⟨rfl, fits⟩
    · rintro ⟨rfl, -⟩
      rfl
  | false =>
    simp only [Bool.false_eq_true, if_false, andThen_eq_ok, inspectComposite_eq_ok]
    cases members with
    | nil =>
      rw [noneWritten rfl, ExpressionWriter.after_nil]
      simp only [List.isEmpty_nil, if_true, Except.ok.injEq, ne_eq, not_true, false_implies,
        and_true]
      constructor
      · rintro ⟨_, ⟨room, rfl⟩, ⟨⟩, isChecked, rfl⟩
        exact ⟨checked.mp isChecked, room, rfl, fits⟩
      · rintro ⟨isAccepted, room, rfl, -⟩
        exact ⟨_, ⟨room, rfl⟩, (), checked.mpr isAccepted, rfl⟩
    | cons member members =>
      have written := writes (List.cons_ne_nil member members)
      simp only [List.isEmpty_cons, Bool.false_eq_true, if_false, andThen_eq_ok,
        rejectPrefixOnComposite_eq_ok, Except.ok.injEq, ne_eq, reduceCtorEq, not_false_eq_true,
        forall_const]
      constructor
      · rintro ⟨_, ⟨room, rfl⟩, ⟨⟩, isChecked, ⟨⟩, whole, last, wrote, rfl⟩
        obtain ⟨rfl, lastFits⟩ := (written last).mp wrote
        exact ⟨⟨checked.mp isChecked, whole⟩, room, rfl, lastFits⟩
      · rintro ⟨⟨isAccepted, whole⟩, room, rfl, lastFits⟩
        exact ⟨_, ⟨room, rfl⟩, (), checked.mpr isAccepted, (), whole, _,
          (written _).mpr ⟨rfl, lastFits⟩, rfl⟩

theorem after_singleton (writer : ExpressionWriter) (operator : UriTemplateOperator)
    (piece : Bytes) :
    writer.after operator [piece] =
      ⟨writer.output ++ delimiter operator writer.wroteValue ++ piece, true⟩ := by
  simp [ExpressionWriter.after, joinPieces]

/-- A variable is expanded exactly when its value is acceptable and its members
and its text fit. -/
theorem expandVariable_eq_ok (value : TemplateValue) (fits : writer.size ≤ limits.outputBytes)
    (few : compositeItems ≤ limits.compositeItems) :
    expandVariable limits operator.properties writer spec value compositeItems = .ok result ↔
      AcceptedValue limits spec value ∧
        compositeItems + memberCount value ≤ limits.compositeItems ∧
        result = (writer.after operator (pieces operator spec value),
          compositeItems + memberCount value) ∧
        result.1.size ≤ limits.outputBytes := by
  cases value with
  | scalar value =>
    have written : Yields ExpressionWriter.size limits.outputBytes _ _ :=
      writeValue_yields operator writer spec.name (takenText spec value)
    simp only [expandVariable, andThen_eq_ok, scalarPrefix, map_eq_ok, checkValueBound_eq_ok,
      pure, Except.pure, Except.ok.injEq, pieces, after_singleton, memberCount, AcceptedValue,
      Nat.add_zero, few, true_and]
    constructor
    · rintro ⟨_, ⟨⟨⟩, small, rfl⟩, last, wrote, rfl⟩
      obtain ⟨rfl, lastFits⟩ := (written last).mp wrote
      exact ⟨small, rfl, lastFits⟩
    · rintro ⟨small, rfl, lastFits⟩
      exact ⟨_, ⟨(), small, rfl⟩, _, (written _).mpr ⟨rfl, lastFits⟩, rfl⟩
  | list values =>
    have checked : (definedMembers values).forM (checkValueBound limits) = .ok () ↔
        ∀ value ∈ definedMembers values, SmallValue limits value := by
      simp only [forM_eq_ok, checkValueBound_eq_ok]
    have whenEmpty : values.isEmpty = true → definedMembers values = [] ∧
        values.length = 0 ∧ ∀ value ∈ definedMembers values, SmallValue limits value := by
      intro empty
      rw [List.isEmpty_iff.mp empty]
      simp [definedMembers]
    have noneWritten : definedMembers values = [] → pieces operator spec (.list values) = [] :=
      fun noMembers => if_pos (List.isEmpty_iff.mpr noMembers)
    have writes : definedMembers values ≠ [] →
        Yields ExpressionWriter.size limits.outputBytes
          (if spec.modifier = some .explode then
            (definedMembers values).foldlM (fun writer value =>
              writer.writeValue limits operator.properties spec.name value value.isEmpty) writer
          else writer.writeComposite limits operator.properties spec.name (definedMembers values))
          (writer.after operator (pieces operator spec (.list values))) := by
      intro nonempty
      simp only [pieces, List.isEmpty_iff, nonempty, if_false]
      split
      · exact foldlM_yields (fun writer value => writeValue_yields operator writer spec.name value)
          _ writer fits
      · rw [after_singleton]
        obtain ⟨first, members, isDefined⟩ := List.exists_cons_of_ne_nil nonempty
        rw [isDefined]
        exact writeComposite_yields operator spec.name first members writer
    have accepted := composite_eq_ok spec result checked writes noneWritten whenEmpty fits few
    simp only [ite_andThen] at accepted
    exact accepted
  | associative values =>
    have checked : checkAssociative limits [] values = .ok () ↔ (values.map Prod.fst).Nodup ∧
        ∀ pair ∈ values, SmallValue limits pair.1 ∧
          ∀ value ∈ pair.2, SmallValue limits value := by
      rw [checkAssociative_eq_ok]
      simp
    have whenEmpty : values.isEmpty = true → definedPairs values = [] ∧
        values.length = 0 ∧ (values.map Prod.fst).Nodup ∧
        ∀ pair ∈ values, SmallValue limits pair.1 ∧
          ∀ value ∈ pair.2, SmallValue limits value := by
      intro empty
      rw [List.isEmpty_iff.mp empty]
      simp [definedPairs]
    have noneWritten : definedPairs values = [] → pieces operator spec (.associative values) = [] :=
      fun noPairs => if_pos (List.isEmpty_iff.mpr noPairs)
    have writes : definedPairs values ≠ [] →
        Yields ExpressionWriter.size limits.outputBytes
          (if spec.modifier = some .explode then
            (definedPairs values).foldlM (fun writer pair =>
              writer.writeAssociativePair limits operator.properties pair.1 pair.2) writer
          else writer.writeComposite limits operator.properties spec.name
            ((definedPairs values).flatMap fun pair => [pair.1, pair.2]))
          (writer.after operator (pieces operator spec (.associative values))) := by
      intro nonempty
      simp only [pieces, List.isEmpty_iff, nonempty, if_false]
      split
      · exact foldlM_yields (fun writer pair => writeAssociativePair_yields operator writer pair)
          _ writer fits
      · rw [after_singleton]
        obtain ⟨first, members, isDefined⟩ := List.exists_cons_of_ne_nil nonempty
        rw [isDefined, List.flatMap_cons]
        exact writeComposite_yields operator spec.name first.1 _ writer
    have accepted := composite_eq_ok spec result checked writes noneWritten whenEmpty fits few
    simp only [ite_andThen] at accepted
    exact accepted

variable {values : TemplateValues}

variable (limits) in
def AcceptedVariables (values : TemplateValues) (vars : List UriTemplateVariable) : Prop :=
  ∀ spec ∈ vars, ∀ value ∈ values[spec.name]?, AcceptedValue limits spec value

/-- The texts that the defined variables of an expression write. -/
def variablePieces (operator : UriTemplateOperator) (values : TemplateValues)
    (vars : List UriTemplateVariable) : List Bytes :=
  vars.flatMap fun spec => (values[spec.name]?).elim [] (pieces operator spec)

def variableMembers (values : TemplateValues) (vars : List UriTemplateVariable) : Nat :=
  (vars.map fun spec => (values[spec.name]?).elim 0 memberCount).sum

theorem expandVariables_eq_ok (vars : List UriTemplateVariable)
    (fits : writer.size ≤ limits.outputBytes) (few : compositeItems ≤ limits.compositeItems) :
    expandVariables limits operator.properties values writer compositeItems vars = .ok result ↔
      AcceptedVariables limits values vars ∧
        compositeItems + variableMembers values vars ≤ limits.compositeItems ∧
        result = (writer.after operator (variablePieces operator values vars),
          compositeItems + variableMembers values vars) ∧
        result.1.size ≤ limits.outputBytes := by
  induction vars generalizing writer compositeItems with
  | nil =>
    simp only [expandVariables, Except.ok.injEq, AcceptedVariables, variableMembers,
      variablePieces, List.flatMap_nil, List.map_nil, List.sum_nil, Nat.add_zero, few, true_and,
      ExpressionWriter.after_nil, List.not_mem_nil, false_implies, implies_true]
    constructor
    · rintro rfl
      exact ⟨rfl, fits⟩
    · rintro ⟨rfl, -⟩
      rfl
  | cons spec vars ih =>
    rw [expandVariables, AcceptedVariables, List.forall_mem_cons, variableMembers, variablePieces,
      List.map_cons, List.sum_cons, List.flatMap_cons]
    cases values[spec.name]? with
    | none => simpa [AcceptedVariables, variableMembers, variablePieces] using ih fits few
    | some value =>
      simp only [bind_eq_ok, expandVariable_eq_ok value fits few, Option.elim_some,
        Option.mem_some_iff, forall_eq', ExpressionWriter.after_append]
      constructor
      · rintro ⟨middle, ⟨accepted, room, rfl, middleFits⟩, continued⟩
        obtain ⟨rest, restRoom, rfl, lastFits⟩ := (ih middleFits room).mp continued
        rw [Nat.add_assoc] at restRoom
        exact ⟨⟨accepted, rest⟩, restRoom, by rw [Nat.add_assoc]; rfl, lastFits⟩
      · rintro ⟨⟨accepted, rest⟩, restRoom, rfl, lastFits⟩
        have middleFits := Nat.le_trans
          (ExpressionWriter.size_after (writer.after operator (pieces operator spec value))
            operator (variablePieces operator values vars)) lastFits
        have room : compositeItems + memberCount value ≤ limits.compositeItems := by omega
        refine ⟨_, ⟨accepted, room, rfl, middleFits⟩, (ih middleFits room).mpr
          ⟨rest, ?_, ?_, lastFits⟩⟩
        · rwa [Nat.add_assoc]
        · rw [Nat.add_assoc]
          rfl

/-- What a part writes. -/
def expandedPart (values : TemplateValues) : UriTemplatePart → Bytes
  | .literal text => encode (keepsByte true) true (bytes text)
  | .expression expression =>
    joinPieces expression.operator false
      (variablePieces expression.operator values expression.vars)

def partMembers (values : TemplateValues) : UriTemplatePart → Nat
  | .literal _ => 0
  | .expression expression => variableMembers values expression.vars

variable (limits) in
/-- The values of a template are acceptable and have few enough members. -/
structure AcceptedValues (values : TemplateValues) (parts : List UriTemplatePart)
    (compositeItems : Nat) : Prop where
  acceptable : ∀ expression, .expression expression ∈ parts →
    AcceptedVariables limits values expression.vars
  few : compositeItems + (parts.map (partMembers values)).sum ≤ limits.compositeItems

/-- What a template writes. -/
def expandedText (values : TemplateValues) (parts : List UriTemplatePart) : Bytes :=
  parts.flatMap (expandedPart values)

/-- Parts are expanded exactly when their values are acceptable and their text fits. -/
theorem expandParts_eq_ok {output text : Bytes} (parts : List UriTemplatePart)
    (fits : output.length ≤ limits.outputBytes) (few : compositeItems ≤ limits.compositeItems) :
    expandParts limits values output compositeItems parts = .ok text ↔
      AcceptedValues limits values parts compositeItems ∧
        text = output ++ expandedText values parts ∧ text.length ≤ limits.outputBytes := by
  induction parts generalizing output compositeItems with
  | nil =>
    rw [expandParts, expandedText, List.flatMap_nil, List.append_nil, Except.ok.injEq]
    constructor
    · rintro rfl
      exact ⟨⟨by simp, by simpa using few⟩, rfl, fits⟩
    · rintro ⟨-, rfl, -⟩
      rfl
  | cons part parts ih =>
    have grows := List.sublist_append_left (output ++ expandedPart values part)
      (expandedText values parts)
    rw [expandedText, List.flatMap_cons, ← expandedText, ← List.append_assoc]
    cases part with
    | literal literal =>
      have written : Yields List.length limits.outputBytes (appendEncodedLiteral limits output literal)
          (output ++ expandedPart values (.literal literal)) :=
        appendPercentEncoded_yields true true output (bytes literal) fits
      have sameValues : AcceptedValues limits values (.literal literal :: parts) compositeItems ↔
          AcceptedValues limits values parts compositeItems := by
        constructor
        · rintro ⟨acceptable, few⟩
          exact ⟨fun expression listed => acceptable expression (List.mem_cons_of_mem _ listed),
            by simpa [partMembers] using few⟩
        · rintro ⟨acceptable, few⟩
          exact ⟨fun expression listed => acceptable expression (by simpa using listed),
            by simpa [partMembers] using few⟩
      rw [expandParts, bind_eq_ok, sameValues]
      constructor
      · rintro ⟨middle, wrote, continued⟩
        obtain ⟨rfl, middleFits⟩ := (written middle).mp wrote
        exact (ih middleFits few).mp continued
      · rintro ⟨accepted, rfl, lastFits⟩
        have middleFits := Nat.le_trans grows.length_le lastFits
        exact ⟨_, (written _).mpr ⟨rfl, middleFits⟩, (ih middleFits few).mpr
          ⟨accepted, rfl, lastFits⟩⟩
    | expression expression =>
      have written (result : Bytes × Nat) :
          expandExpression limits values output compositeItems expression = .ok result ↔
            AcceptedVariables limits values expression.vars ∧
              compositeItems + partMembers values (.expression expression) ≤ limits.compositeItems ∧
              result = (output ++ expandedPart values (.expression expression),
                compositeItems + partMembers values (.expression expression)) ∧
              result.1.length ≤ limits.outputBytes := by
        have loop (result : ExpressionWriter × Nat) :
            expandVariables limits expression.operator.properties values ⟨output, false⟩
              compositeItems expression.vars = .ok result ↔ _ :=
          expandVariables_eq_ok expression.vars fits few
        rw [expandExpression, map_eq_ok]
        simp only [loop]
        constructor
        · rintro ⟨_, ⟨accepted, room, rfl, lastFits⟩, rfl⟩
          exact ⟨accepted, room, rfl, lastFits⟩
        · rintro ⟨accepted, room, rfl, lastFits⟩
          exact ⟨_, ⟨accepted, room, rfl, lastFits⟩, rfl⟩
      rw [expandParts, bind_eq_ok]
      simp only [written]
      constructor
      · rintro ⟨_, ⟨accepted, room, rfl, middleFits⟩, continued⟩
        obtain ⟨⟨acceptable, restRoom⟩, rfl, lastFits⟩ := (ih middleFits room).mp continued
        refine ⟨⟨?_, by simpa [Nat.add_assoc] using restRoom⟩, rfl, lastFits⟩
        intro other listed
        rcases List.mem_cons.mp listed with same | later
        · cases same
          exact accepted
        · exact acceptable other later
      · rintro ⟨⟨acceptable, restRoom⟩, rfl, lastFits⟩
        rw [List.map_cons, List.sum_cons] at restRoom
        have middleFits := Nat.le_trans grows.length_le lastFits
        have room : compositeItems + partMembers values (.expression expression) ≤
            limits.compositeItems := by omega
        refine ⟨_, ⟨acceptable expression List.mem_cons_self, room, rfl, middleFits⟩,
          (ih middleFits room).mpr ⟨⟨?_, by rwa [Nat.add_assoc]⟩, rfl, lastFits⟩⟩
        exact fun other listed => acceptable other (List.mem_cons_of_mem _ listed)

end Writers

end FastMcp.UriTemplates
