import FastMcp.UriTemplateParsing
import FastMcp.UriTemplateSafety

/-! # Expansion against RFC 6570

The expansion of section 3.2.1 of the RFC is stated on its own, with the table
of its operators. Expansion as implemented agrees with it. In particular a pair
of an exploded associative value is written without its equals sign if the value
is empty, except where the operator is for form-style parameters.
-/

namespace FastMcp.UriTemplates

open ByteText PercentCoding Outcomes UriGrammar

/-! ## The expansion of the RFC -/

namespace Rfc6570

/-- The table of expression expansion: `first`, `sep`, `named`, `ifemp` and
whether `allow` contains the reserved bytes. -/
def behaviour : UriTemplateOperator → OperatorProperties
  | .simple => ⟨bytes "", bytes ",", false, bytes "", false⟩
  | .reserved => ⟨bytes "", bytes ",", false, bytes "", true⟩
  | .label => ⟨bytes ".", bytes ".", false, bytes "", false⟩
  | .path => ⟨bytes "/", bytes "/", false, bytes "", false⟩
  | .pathParameter => ⟨bytes ";", bytes ";", true, bytes "", false⟩
  | .query => ⟨bytes "?", bytes "&", true, bytes "=", false⟩
  | .queryContinuation => ⟨bytes "&", bytes "&", true, bytes "=", false⟩
  | .fragment => ⟨bytes "#", bytes ",", false, bytes "", true⟩

/-- Literals keep unreserved bytes, reserved bytes and triplets. -/
def encodeLiteral (text : String) : Bytes := encode isUriPlain true (bytes text)

/-- Values keep what the operator allows: unreserved bytes or all that literals keep. -/
def encodeValue (operator : UriTemplateOperator) (text : String) : Bytes :=
  if (behaviour operator).allowReserved then encodeLiteral text
  else encode UriGrammar.isUnreserved false (bytes text)

/-- The byte that the triplet at the front of a text stands for. -/
def octet : Bytes → Option UInt8
  | sign :: high :: low :: _ =>
    if sign = percent then do
      let high ← hexValue high
      let low ← hexValue low
      return high <<< 4 ||| low
    else none
  | _ => none

/-- The bytes that the given number of triplets at the front of a text stand for. -/
def octets : Nat → Bytes → Option Bytes
  | 0, _ => some []
  | count + 1, text => do
    let first ← octet text
    let rest ← octets count (text.drop 3)
    return first :: rest

/-- Whether a text begins with triplets that encode a single character. -/
def encodesCharacter (count : Nat) (text : Bytes) : Bool :=
  (octets count text).any fun content => (fromUtf8 content).any fun decoded => decoded.length = 1

/-- The extent of the first character of a value. Triplets that represent a
character together are not split, and neither is any other triplet. -/
def characterExtent (text : List Char) : Nat :=
  let encoded := text.flatMap String.utf8EncodeChar
  match [2, 3, 4].find? fun count => encodesCharacter count encoded with
  | some count => count * 3
  | none => if startsWithTriplet encoded then 3 else 1

/-- The first characters of a value. -/
def firstCharacters : Nat → List Char → List Char
  | 0, _ => []
  | _ + 1, [] => []
  | count + 1, character :: rest =>
    let extent := characterExtent (character :: rest)
    (character :: rest).take extent ++ firstCharacters count ((character :: rest).drop extent)

/-- The operators for form-style parameters. -/
def formStyle (operator : UriTemplateOperator) : Bool :=
  operator = .query || operator = .queryContinuation

/-- A name, its joint with a value, and nothing for operators without names. -/
def named (operator : UriTemplateOperator) (name : String) (joint : Bytes) : Bytes :=
  if (behaviour operator).named then encodeLiteral name ++ joint else []

/-- What stands between a name and a value. -/
def joint (operator : UriTemplateOperator) (value : String) : Bytes :=
  if value.isEmpty then (behaviour operator).ifEmpty else bytes "="

def scalar (operator : UriTemplateOperator) (name value : String) : Bytes :=
  named operator name (joint operator value) ++ encodeValue operator value

/-- An exploded pair is written as `name=value`, or simply as `name` if the value is empty and
the operator is not for form-style parameters. The name is encoded like a value. -/
def pair (operator : UriTemplateOperator) (member : String × String) : Bytes :=
  encodeValue operator member.1 ++
    (if member.2.isEmpty && !formStyle operator then [] else bytes "=") ++
    encodeValue operator member.2

def composite (operator : UriTemplateOperator) (name : String) (members : List String) : Bytes :=
  named operator name (bytes "=") ++
    (bytes ",").intercalate (members.map (encodeValue operator))

/-- The values that one variable contributes to its expression. A composite
without defined members is undefined. -/
def contributions (operator : UriTemplateOperator) (spec : UriTemplateVariable) :
    TemplateValue → List Bytes
  | .scalar value =>
    match spec.modifier with
    | some (.prefixLength length) =>
      [scalar operator spec.name (String.ofList (firstCharacters length value.toList))]
    | _ => [scalar operator spec.name value]
  | .list values =>
    match definedMembers values, spec.modifier with
    | [], _ => []
    | defined, some .explode => defined.map (scalar operator spec.name)
    | defined, _ => [composite operator spec.name defined]
  | .associative values =>
    match definedPairs values, spec.modifier with
    | [], _ => []
    | defined, some .explode => defined.map (pair operator)
    | defined, _ =>
      [composite operator spec.name (defined.flatMap fun member => [member.1, member.2])]

/-- The first contribution follows `first`, every other one follows `sep`. -/
def separated (operator : UriTemplateOperator) : List Bytes → Bytes
  | [] => []
  | written :: rest =>
    (behaviour operator).first ++ written ++
      rest.flatMap fun later => (behaviour operator).separator ++ later

def expandPart (values : TemplateValues) : UriTemplatePart → Bytes
  | .literal text => encodeLiteral text
  | .expression expression =>
    separated expression.operator (expression.vars.flatMap fun spec =>
      (values[spec.name]?).elim [] (contributions expression.operator spec))

/-- The expansion of a template. -/
def expansion (values : TemplateValues) (parts : List UriTemplatePart) : Bytes :=
  parts.flatMap (expandPart values)

end Rfc6570

/-! ## Characters -/

section Characters

open Rfc6570

/-- The number of bytes that the first byte of a character announces. -/
def sequenceWidth (first : UInt8) : Nat :=
  if 0xC2 ≤ first && first ≤ 0xDF then 2
  else if 0xE0 ≤ first && first ≤ 0xEF then 3
  else if 0xF0 ≤ first && first ≤ 0xF4 then 4
  else 1

theorem octets_eq_mapM (count : Nat) (text : Bytes) :
    octets count text = (List.range count).mapM fun index => octet (text.drop (index * 3)) := by
  induction count generalizing text with
  | zero => rfl
  | succ count ih =>
    have shifted : (List.range count).mapM (fun index => octet (text.drop ((index + 1) * 3))) =
        (List.range count).mapM fun index => octet ((text.drop 3).drop (index * 3)) := by
      congr 1
      funext index
      rw [List.drop_drop, Nat.succ_mul, Nat.add_comm]
    rw [octets, ih, List.range_succ_eq_map, List.mapM_cons, List.mapM_map, Nat.zero_mul,
      List.drop_zero, ← shifted]
    rfl

/-- Every octet is written with three bytes. -/
theorem length_of_octets {count : Nat} {text content : Bytes}
    (read : octets count text = some content) :
    content.length = count ∧ count * 3 ≤ text.length := by
  induction count generalizing text content with
  | zero =>
    cases read
    exact ⟨rfl, Nat.zero_le _⟩
  | succ count ih =>
    simp only [octets, Option.bind_eq_bind, Option.bind_eq_some_iff, Option.pure_def,
      Option.some.injEq] at read
    obtain ⟨first, firstRead, rest, restRead, rfl⟩ := read
    obtain ⟨restLength, enough⟩ := ih restRead
    rw [List.length_drop] at enough
    have three : 3 ≤ text.length := by
      rcases text with _ | ⟨sign, _ | ⟨high, _ | ⟨low, text⟩⟩⟩
      · contradiction
      · contradiction
      · contradiction
      · simp
    exact ⟨congrArg Nat.succ restLength, by omega⟩

/-- The first byte of a character of several bytes announces their number. -/
theorem utf8EncodeChar_lead {character : Char} {first : UInt8} {rest : Bytes}
    (encoded : String.utf8EncodeChar character = first :: rest) (several : rest ≠ []) :
    sequenceWidth first = rest.length + 1 := by
  have limit : character.val.toNat < 0x110000 := by
    rcases character.valid with low | ⟨-, high⟩
    · exact Nat.lt_trans low (by decide)
    · exact high
  have announced {lead : Nat} (small : lead < 256) : sequenceWidth (UInt8.ofNat lead) =
      if 0xC2 ≤ lead ∧ lead ≤ 0xDF then 2 else if 0xE0 ≤ lead ∧ lead ≤ 0xEF then 3
      else if 0xF0 ≤ lead ∧ lead ≤ 0xF4 then 4 else 1 := by
    have code : (UInt8.ofNat lead).toNat = lead := UInt8.toNat_ofNat_of_lt small
    simp only [sequenceWidth, UInt8.le_iff_toNat_le, code, UInt8.reduceToNat, Bool.and_eq_true,
      decide_eq_true_eq]
  unfold String.utf8EncodeChar at encoded
  simp only at encoded
  split at encoded
  · obtain ⟨-, rfl⟩ := List.cons.inj encoded
    exact absurd rfl several
  split at encoded
  · obtain ⟨rfl, rfl⟩ := List.cons.inj encoded
    rw [announced (by omega), if_pos (by omega)]
    rfl
  split at encoded
  · obtain ⟨rfl, rfl⟩ := List.cons.inj encoded
    rw [announced (by omega), if_neg (by omega), if_pos (by omega)]
    rfl
  · obtain ⟨rfl, rfl⟩ := List.cons.inj encoded
    rw [announced (by omega), if_neg (by omega), if_neg (by omega), if_pos (by omega)]
    rfl

theorem encodesCharacter_lead {count : Nat} {text : Bytes}
    (encodes : encodesCharacter (count + 2) text = true) :
    ∃ first, octet text = some first ∧ sequenceWidth first = count + 2 := by
  obtain ⟨content, read, valid⟩ := (Option.any_eq_true _ _).mp encodes
  obtain ⟨decoded, decodes, single⟩ := (Option.any_eq_true _ _).mp valid
  have length := (length_of_octets read).1
  simp only [octets, Option.bind_eq_bind, Option.bind_eq_some_iff, Option.pure_def,
    Option.some.injEq] at read
  obtain ⟨first, firstRead, rest, -, rfl⟩ := read
  refine ⟨first, firstRead, ?_⟩
  obtain ⟨character, isSingle⟩ := List.length_eq_one_iff.mp (of_decide_eq_true single)
  have encoded : String.utf8EncodeChar character = first :: rest := by
    rw [← bytes_of_fromUtf8 decodes, bytes_eq_flatMap, isSingle]
    simp
  rw [List.length_cons] at length
  rw [utf8EncodeChar_lead encoded (by rintro rfl; simp at length)]
  exact length

theorem sequenceWidth_mem (first : UInt8) : sequenceWidth first = 1 ∨
    sequenceWidth first ∈ [2, 3, 4] := by
  unfold sequenceWidth
  split
  · simp
  split
  · simp
  split <;> simp

theorem pctEncodedCharacterWidth_unfolded (text : Bytes) :
    pctEncodedCharacterWidth text =
      let width := match octet text with
        | none => 1
        | some first => sequenceWidth first
      if !(2 ≤ width && width ≤ 4) || text.length < width * 3 then 3
      else
        match (List.range width).mapM fun index => octet (text.drop (index * 3)) with
        | none => 3
        | some decoded =>
          if (fromUtf8 decoded).any fun text => text.length = 1 then width * 3 else 3 := by
  unfold pctEncodedCharacterWidth sequenceWidth octet
  rfl

theorem pctEncodedCharacterWidth_eq (text : Bytes) :
    pctEncodedCharacterWidth text =
      ((octet text).elim 3 fun first =>
        if sequenceWidth first ≠ 1 ∧ encodesCharacter (sequenceWidth first) text = true then
          sequenceWidth first * 3
        else 3) := by
  rw [pctEncodedCharacterWidth_unfolded]
  cases firstRead : octet text with
  | none => simp
  | some first =>
    simp only [← octets_eq_mapM, Option.elim_some]
    rcases sequenceWidth_mem first with single | several
    · simp [single]
    · have range : 2 ≤ sequenceWidth first ∧ sequenceWidth first ≤ 4 := by
        simp only [List.mem_cons, List.not_mem_nil, or_false] at several
        omega
      have notOne : sequenceWidth first ≠ 1 := by omega
      simp only [range, notOne, decide_true, Bool.and_true, Bool.not_true, Bool.false_or,
        ne_eq, not_false_eq_true, true_and, decide_eq_true_eq, encodesCharacter]
      cases read : octets (sequenceWidth first) text with
      | none => simp
      | some content =>
        have enough := (length_of_octets read).2
        simp [Nat.not_lt.mpr enough]

theorem characterExtent_triplet {text : List Char}
    (starts : startsWithTriplet (text.flatMap String.utf8EncodeChar) = true) :
    characterExtent text = pctEncodedCharacterWidth (text.flatMap String.utf8EncodeChar) := by
  rw [pctEncodedCharacterWidth_eq, characterExtent]
  generalize text.flatMap String.utf8EncodeChar = encoded at starts ⊢
  cases found : [2, 3, 4].find? fun count => encodesCharacter count encoded with
  | some count =>
    have encodes := List.find?_some found
    have listed := List.mem_of_find?_eq_some found
    obtain ⟨more, rfl⟩ : ∃ more, count = more + 2 := by
      simp only [List.mem_cons, List.not_mem_nil, or_false] at listed
      exact ⟨count - 2, by omega⟩
    obtain ⟨first, firstRead, width⟩ := encodesCharacter_lead encodes
    rw [firstRead, Option.elim_some, width]
    exact (if_pos ⟨by omega, encodes⟩).symm
  | none =>
    have fails := List.find?_eq_none.mp found
    simp only [starts, if_true]
    cases octet encoded with
    | none => rfl
    | some first =>
      rw [Option.elim_some, if_neg]
      rintro ⟨several, encodes⟩
      exact fails _ ((sequenceWidth_mem first).resolve_left several) encodes

theorem characterExtent_plain {text : List Char}
    (plain : startsWithTriplet (text.flatMap String.utf8EncodeChar) = false) :
    characterExtent text = 1 := by
  rw [characterExtent]
  generalize text.flatMap String.utf8EncodeChar = encoded at plain ⊢
  have noOctet : octet encoded = none := by
    rcases encoded with _ | ⟨sign, _ | ⟨high, _ | ⟨low, rest⟩⟩⟩
    · rfl
    · rfl
    · rfl
    · rw [octet]
      split
      · rename_i isPercent
        simp only [startsWithTriplet, isPercent, beq_self_eq_true, Bool.true_and,
          Bool.and_eq_false_iff, isHexDigit, Option.isSome_eq_false_iff, Option.isNone_iff_eq_none]
          at plain
        rcases plain with noHigh | noLow
        · simp [noHigh]
        · simp [noLow]
      · rfl
  have fails : [2, 3, 4].find? (fun count => encodesCharacter count encoded) = none := by
    simp [encodesCharacter, octets, noOctet]
  simp only [fails, plain, Bool.false_eq_true, if_false]

/-- The prefixes that the implementation takes are those of the RFC. -/
theorem takeCharacters_eq (count : Nat) (text : List Char) :
    takeCharacters count text = firstCharacters count text := by
  induction count generalizing text with
  | zero => rfl
  | succ count ih =>
    cases text with
    | nil => rfl
    | cons character rest =>
      rw [takeCharacters, firstCharacters]
      simp only
      cases starts : startsWithTriplet ((character :: rest).flatMap String.utf8EncodeChar) with
      | true => rw [if_pos rfl, characterExtent_triplet starts, ih]
      | false =>
        rw [if_neg Bool.false_ne_true, characterExtent_plain starts, ih]
        rfl

end Characters

/-! ## Names and pieces -/

variable {operator : UriTemplateOperator}

open Rfc6570

theorem behaviour_eq (operator : UriTemplateOperator) :
    behaviour operator = operator.properties := by
  cases operator <;> decide

theorem encodeValue_eq (operator : UriTemplateOperator) (text : String) :
    encodeValue operator text = encodeScalar operator text := by
  rw [encodeValue, encodeScalar, encodeLiteral, behaviour_eq, ← keepsByte_true, ← keepsByte_false]
  cases operator.properties.allowReserved <;> rfl

theorem joint_eq (operator : UriTemplateOperator) (value : String) :
    joint operator value = nameJoint operator value := by
  rw [joint, nameJoint, behaviour_eq]

theorem utf8EncodeChar_of_ascii {character : Char} (ascii : character.toNat < 128) :
    String.utf8EncodeChar character = [UInt8.ofNat character.toNat] := by
  have all : ∀ code < 128, String.utf8EncodeChar (Char.ofNat code) =
      [UInt8.ofNat (Char.ofNat code).toNat] := by decide
  simpa using all character.toNat ascii

theorem bytes_ofList_cons {character : Char} (rest : List Char) (ascii : character.toNat < 128) :
    bytes (String.ofList (character :: rest)) =
      UInt8.ofNat character.toNat :: bytes (String.ofList rest) := by
  rw [bytes_ofList, List.flatMap_cons, utf8EncodeChar_of_ascii ascii, bytes_ofList]
  rfl

theorem hexDigit_ascii {digit : Char} (isDigit : Within hexDigitRanges digit) :
    digit.toNat < 128 ∧ isHexDigit (UInt8.ofNat digit.toNat) = true := by
  rw [← isAsciiHexDigit_iff] at isDigit
  simpa [isAsciiHexDigit] using isDigit

/-- A run of a name is kept by every encoder. -/
theorem encoded_of_spelled {segment : List Char}
    (spelled : Spelled (Within varcharRanges) segment) :
    Encoded (keepsByte false) (bytes (String.ofList segment)) := by
  induction spelled with
  | nil => exact .nil
  | @plain character rest isPlain _ ih =>
    have ascii : character.toNat < 128 := by
      simp [Within, varcharRanges] at isPlain
      omega
    have all : ∀ code < 128, Within varcharRanges (Char.ofNat code) →
        keepsByte false (UInt8.ofNat (Char.ofNat code).toNat) = true := by decide
    rw [bytes_ofList_cons _ ascii]
    refine .plain ?_ ih
    have kept := all character.toNat ascii
    rw [Char.ofNat_toNat] at kept
    exact kept isPlain
  | @triplet high low rest isHigh isLow _ ih =>
    obtain ⟨highAscii, highDigit⟩ := hexDigit_ascii isHigh
    obtain ⟨lowAscii, lowDigit⟩ := hexDigit_ascii isLow
    rw [bytes_ofList_cons _ (by decide), bytes_ofList_cons _ highAscii,
      bytes_ofList_cons _ lowAscii]
    exact .triplet highDigit lowDigit ih

theorem encoded_of_variableName {name : List Char} (isName : VariableName name) :
    Encoded (keepsByte false) (bytes (String.ofList name)) := by
  obtain ⟨segments, -, spelled, rfl⟩ := isName
  induction segments with
  | nil => exact .nil
  | cons first rest ih =>
    obtain ⟨firstSpelled, restSpelled⟩ := List.forall_mem_cons.mp spelled
    have firstEncoded := encoded_of_spelled firstSpelled.2
    cases rest with
    | nil => simpa using firstEncoded
    | cons second rest =>
      rw [List.intercalate_cons_cons, String.ofList_append, String.ofList_append, bytes_append,
        bytes_append]
      exact (firstEncoded.append (.plain (by decide) .nil)).append (ih restSpelled)

/-- Names of variables are written as they are, by the implementation and by
the RFC. -/
theorem encodeLiteral_name {name : String} (isName : VariableName name.toList) :
    encodeLiteral name = encodeName name := by
  have encoded := encoded_of_variableName isName
  rw [String.ofList_toList] at encoded
  rw [encodeLiteral, ← keepsByte_true, encodeName,
    encode_of_encoded (keepsByte_percent false) encoded,
    encode_of_encoded (keepsByte_percent true) (encoded.mono fun _ => keepsByte_reserved)]

theorem named_eq {name : String} (isName : VariableName name.toList) (between : Bytes) :
    named operator name between = labelled operator name between := by
  rw [named, labelled, behaviour_eq, encodeLiteral_name isName]

theorem scalar_eq {name : String} (isName : VariableName name.toList) (value : String) :
    scalar operator name value = scalarPiece operator name value := by
  rw [scalar, scalarPiece, named_eq isName, joint_eq, encodeValue_eq]

theorem composite_eq {name : String} (isName : VariableName name.toList) (members : List String) :
    composite operator name members = compositePiece operator name members := by
  have same : encodeValue operator = encodeScalar operator := funext (encodeValue_eq operator)
  rw [composite, compositePiece, named_eq isName, same]

theorem pair_eq (member : String × String) : pair operator member = pairPiece operator member := by
  have between : (if member.2.isEmpty && !formStyle operator then [] else bytes "=") =
      if operator.properties.named then nameJoint operator member.2
      else if member.2.isEmpty then [] else bytes "=" := by
    rw [nameJoint]
    cases member.2.isEmpty <;> cases operator <;> decide
  rw [pair, pairPiece, encodeValue_eq, encodeValue_eq, between]

theorem contributions_eq {spec : UriTemplateVariable} (isName : VariableName spec.name.toList)
    (value : TemplateValue) : contributions operator spec value = pieces operator spec value := by
  cases value with
  | scalar value =>
    simp only [contributions, pieces, takenText, scalar_eq isName, takeCharacters_eq]
    cases spec.modifier with
    | none => rfl
    | some modifier => cases modifier <;> rfl
  | list values =>
    rw [contributions, pieces]
    cases definedMembers values with
    | nil => rfl
    | cons first rest =>
      by_cases explode : spec.modifier = some .explode
      · simp [explode, scalar_eq isName]
      · simp [explode, composite_eq isName]
  | associative values =>
    rw [contributions, pieces]
    cases definedPairs values with
    | nil => rfl
    | cons first rest =>
      by_cases explode : spec.modifier = some .explode
      · simp [explode, pair_eq]
      · simp [explode, composite_eq isName]

/-! ## Templates -/

theorem separated_eq (operator : UriTemplateOperator) (written : List Bytes) :
    separated operator written = joinPieces operator false written := by
  have later (rest : List Bytes) : (rest.flatMap fun piece => (behaviour operator).separator ++
      piece) = joinPieces operator true rest := by
    induction rest with
    | nil => rfl
    | cons piece rest ih =>
      rw [List.flatMap_cons, ih, joinPieces, delimiter, behaviour_eq]
      rfl
  cases written with
  | nil => rfl
  | cons piece rest =>
    rw [separated, later, joinPieces, delimiter, behaviour_eq]
    rfl

/-- The text of a grammatical template is that of the RFC. -/
theorem expansion_eq (values : TemplateValues) {parts : List UriTemplatePart}
    (grammatical : ∀ part ∈ parts, GrammaticalPart part) :
    expansion values parts = expandedText values parts := by
  refine List.flatMap_congr fun part listed => ?_
  cases part with
  | literal text =>
    rw [expandPart, encodeLiteral, ← keepsByte_true]
    rfl
  | expression expression =>
    rw [expandPart, expandedPart, separated_eq, variablePieces]
    congr 1
    refine List.flatMap_congr fun spec member => ?_
    cases values[spec.name]? with
    | none => rfl
    | some value => exact contributions_eq ((grammatical _ listed).specs spec member).name value

/-- For acceptable values whose expansion fits, a template is expanded as the RFC asks. -/
theorem expand_eq_expansion {source : String} {template : UriTemplate}
    {values : TemplateValues} (parsed : UriTemplate.parse source = .ok template)
    (accepted : AcceptedValues {} values template.parts 0)
    (fits : (expansion values template.parts).length ≤ maxUriTemplateExpansionOutputBytes) :
    ∃ out, template.expand values = .ok out ∧ bytes out = expansion values template.parts := by
  have ascii := Encoded.ascii (expandedText_safe values template.parts)
  rw [expansion_eq values (parse_eq_ok.mp parsed).2.2.1.grammatical] at fits ⊢
  refine ⟨asciiText (expandedText values template.parts), ?_, bytes_asciiText ascii⟩
  refine expandWithLimits_eq_ok.mpr ⟨accepted, bytes_asciiText ascii, ?_⟩
  rwa [utf8ByteSize_eq, bytes_asciiText ascii]

/-- The values that bind one variable to an associative array. -/
def pairValues (name : String) (pairs : List (String × Option String)) : TemplateValues :=
  (∅ : TemplateValues).insert name (.associative pairs)

/-- Form-style pairs keep their equals sign, and a slash in a key is encoded. -/
theorem expand_eq_expansion_query :
    ∃ out, (⟨"\x7b?m*\x7d", [.expression ⟨.query, [⟨"m", some .explode⟩]⟩]⟩ : UriTemplate).expand
      (pairValues "m" [("a/b", some ""), ("c", none)]) = .ok out ∧ bytes out = bytes "?a%2Fb=" := by
  have bound : (pairValues "m" [("a/b", some ""), ("c", none)])["m"]? =
      some (.associative [("a/b", some ""), ("c", none)]) := by
    simp [pairValues]
  have parsed : UriTemplate.parse "\x7b?m*\x7d" =
      .ok ⟨"\x7b?m*\x7d", [.expression ⟨.query, [⟨"m", some .explode⟩]⟩]⟩ := by decide
  have expanded : (⟨"\x7b?m*\x7d", [.expression ⟨.query, [⟨"m", some .explode⟩]⟩]⟩ :
      UriTemplate).expand (pairValues "m" [("a/b", some ""), ("c", none)]) = .ok "?a%2Fb=" := by
    simp only [UriTemplate.expand, UriTemplate.expandWithLimits, expandParts, expandExpression,
      expandVariables, bound]
    decide
  have expected : expansion (pairValues "m" [("a/b", some ""), ("c", none)])
      [.expression ⟨.query, [⟨"m", some .explode⟩]⟩] = bytes "?a%2Fb=" := by
    simp only [expansion, expandPart, List.flatMap_cons, List.flatMap_nil, bound]
    decide
  rw [← expected]
  exact expand_eq_expansion parsed (expandWithLimits_eq_ok.mp expanded).1
    (by rw [expected]; decide)

/-- Without names, an exploded pair with an empty value is written as its name alone. -/
theorem exploded_empty_value :
    (behaviour .simple).named = false ∧
      UriTemplate.parse "\x7bm*\x7d" =
        .ok ⟨"\x7bm*\x7d", [.expression ⟨.simple, [⟨"m", some .explode⟩]⟩]⟩ ∧
      (⟨"\x7bm*\x7d", [.expression ⟨.simple, [⟨"m", some .explode⟩]⟩]⟩ : UriTemplate).expand
        (pairValues "m" [("a", some "")]) = .ok "a" ∧
      expansion (pairValues "m" [("a", some "")])
        [.expression ⟨.simple, [⟨"m", some .explode⟩]⟩] = bytes "a" := by
  have bound : (pairValues "m" [("a", some "")])["m"]? =
      some (.associative [("a", some "")]) := by
    simp [pairValues]
  refine ⟨rfl, by decide, ?_, ?_⟩
  · simp only [UriTemplate.expand, UriTemplate.expandWithLimits, expandParts, expandExpression,
      expandVariables, bound]
    decide
  · simp only [expansion, expandPart, List.flatMap_cons, List.flatMap_nil, bound]
    decide

end FastMcp.UriTemplates
