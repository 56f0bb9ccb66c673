import FastMcp.UriGrammar
import FastMcp.UriTemplateOutput

/-! # The output of an expansion is safe

Literals, names, keys and values are written by one encoder under different
flags. Whatever it writes consists of complete triplets and of bytes that a URI
may contain, and so do the delimiters, so that no triplet is made or broken
where two fragments meet.
-/

namespace FastMcp.UriTemplates

open ByteText PercentCoding Outcomes UriGrammar

/-- Values keep the unreserved bytes. -/
theorem keepsByte_false : keepsByte false = UriGrammar.isUnreserved := by
  funext byte
  rw [keepsByte, isUnreserved, UriGrammar.isUnreserved, isAlpha, isDigit, Bool.false_and,
    Bool.or_false, Bool.or_assoc (_ && _), Bool.or_comm (_ && _) (_ || _)]

/-- Literals and reserved values keep all bytes of a URI. -/
theorem keepsByte_true : keepsByte true = isUriPlain := by
  have reserved : bytes ":/?#[]@!$&'()*+,;=" = bytes ":/?#[]@" ++ bytes "!$&'()*+,;=" := by decide
  funext byte
  rw [isUriPlain, ← keepsByte_false, keepsByte, keepsByte, isReserved, isGenDelim, isSubDelim,
    reserved, List.contains_eq_any_beq, List.any_append, ← List.contains_eq_any_beq,
    ← List.contains_eq_any_beq, Bool.true_and, Bool.false_and, Bool.or_false, Bool.or_assoc]

theorem keepsByte_percent (allowReserved : Bool) : keepsByte allowReserved percent = false := by
  cases allowReserved <;> decide

theorem keepsByte_ascii (allowReserved : Bool) (byte : UInt8)
    (kept : keepsByte allowReserved byte = true) : byte < 128 := by
  have marks : (bytes "-._~").all (· < 128) = true := by decide
  have reserved : (bytes ":/?#[]@!$&'()*+,;=").all (· < 128) = true := by decide
  simp only [List.all_eq_true, decide_eq_true_eq] at marks reserved
  simp only [keepsByte, isUnreserved, isReserved, Bool.or_eq_true, Bool.and_eq_true,
    decide_eq_true_eq, List.contains_iff_mem] at kept
  rcases kept with (((digit | upper) | lower) | isMark) | ⟨-, isReserved⟩
  · exact UInt8.lt_of_le_of_lt digit.2 (by decide)
  · exact UInt8.lt_of_le_of_lt upper.2 (by decide)
  · exact UInt8.lt_of_le_of_lt lower.2 (by decide)
  · exact marks byte isMark
  · exact reserved byte isReserved

theorem keepsByte_reserved {allowReserved : Bool} {byte : UInt8}
    (kept : keepsByte allowReserved byte = true) : keepsByte true byte = true := by
  unfold keepsByte at kept ⊢
  cases unreserved : isUnreserved byte with
  | true => rfl
  | false =>
    rw [unreserved, Bool.false_or, Bool.and_eq_true] at kept
    exact kept.2

/-- Whatever is encoded consists of unreserved and reserved bytes and of triplets. -/
theorem encode_safe (allowReserved preserve : Bool) (source : Bytes) :
    Encoded (keepsByte true) (encode (keepsByte allowReserved) preserve source) :=
  (encode_encoded (keepsByte allowReserved) preserve source).mono fun _ => keepsByte_reserved

theorem delimiter_safe (operator : UriTemplateOperator) (wroteValue : Bool) :
    Encoded (keepsByte true) (delimiter operator wroteValue) := by
  apply Encoded.of_plain
  rw [← List.all_eq_true]
  revert wroteValue
  cases operator <;> decide

theorem nameJoint_safe (operator : UriTemplateOperator) (value : String) :
    Encoded (keepsByte true) (nameJoint operator value) := by
  have either : ∀ empty : Bool, (if empty then operator.properties.ifEmpty
      else bytes "=").all (keepsByte true) = true := by
    cases operator <;> decide
  exact Encoded.of_plain (List.all_eq_true.mp (either value.isEmpty))

theorem labelled_safe (operator : UriTemplateOperator) (name : String) {joint : Bytes}
    (safe : Encoded (keepsByte true) joint) :
    Encoded (keepsByte true) (labelled operator name joint) := by
  unfold labelled
  split
  · exact (encode_safe false true (bytes name)).append safe
  · exact .nil

theorem equals_safe : Encoded (keepsByte true) (bytes "=") :=
  Encoded.of_plain (List.all_eq_true.mp (by decide))

theorem scalarPiece_safe (operator : UriTemplateOperator) (name value : String) :
    Encoded (keepsByte true) (scalarPiece operator name value) :=
  (labelled_safe operator name (nameJoint_safe operator value)).append (encode_safe _ _ _)

theorem pairPiece_safe (operator : UriTemplateOperator) (pair : String × String) :
    Encoded (keepsByte true) (pairPiece operator pair) := by
  refine ((encode_safe _ _ _).append ?_).append (encode_safe _ _ _)
  split
  · exact nameJoint_safe operator pair.2
  · split
    · exact .nil
    · exact equals_safe

theorem intercalate_safe {separator : Bytes} {written : List Bytes}
    (separatorSafe : Encoded (keepsByte true) separator)
    (safe : ∀ piece ∈ written, Encoded (keepsByte true) piece) :
    Encoded (keepsByte true) (separator.intercalate written) := by
  induction written with
  | nil => exact .nil
  | cons first rest ih =>
    obtain ⟨firstSafe, restSafe⟩ := List.forall_mem_cons.mp safe
    cases rest with
    | nil => simpa using firstSafe
    | cons second rest =>
      rw [List.intercalate_cons_cons]
      exact (firstSafe.append separatorSafe).append (ih restSafe)

theorem compositePiece_safe (operator : UriTemplateOperator) (name : String)
    (members : List String) : Encoded (keepsByte true) (compositePiece operator name members) := by
  refine (labelled_safe operator name equals_safe).append (intercalate_safe ?_ ?_)
  · exact Encoded.of_plain (List.all_eq_true.mp (by decide))
  · intro piece listed
    obtain ⟨value, -, rfl⟩ := List.mem_map.mp listed
    exact encode_safe _ _ _

theorem pieces_safe (operator : UriTemplateOperator) (spec : UriTemplateVariable)
    (value : TemplateValue) : ∀ piece ∈ pieces operator spec value,
      Encoded (keepsByte true) piece := by
  intro piece listed
  cases value with
  | scalar value =>
    rw [List.mem_singleton.mp listed]
    exact scalarPiece_safe _ _ _
  | list values =>
    simp only [pieces] at listed
    split at listed
    · contradiction
    split at listed
    · obtain ⟨value, -, rfl⟩ := List.mem_map.mp listed
      exact scalarPiece_safe _ _ _
    · rw [List.mem_singleton.mp listed]
      exact compositePiece_safe _ _ _
  | associative values =>
    simp only [pieces] at listed
    split at listed
    · contradiction
    split at listed
    · obtain ⟨pair, -, rfl⟩ := List.mem_map.mp listed
      exact pairPiece_safe _ _
    · rw [List.mem_singleton.mp listed]
      exact compositePiece_safe _ _ _

theorem joinPieces_safe (operator : UriTemplateOperator) {written : List Bytes}
    (safe : ∀ piece ∈ written, Encoded (keepsByte true) piece) (wroteValue : Bool) :
    Encoded (keepsByte true) (joinPieces operator wroteValue written) := by
  induction written generalizing wroteValue with
  | nil => exact .nil
  | cons piece written ih =>
    obtain ⟨pieceSafe, restSafe⟩ := List.forall_mem_cons.mp safe
    exact ((delimiter_safe operator wroteValue).append pieceSafe).append (ih restSafe true)

theorem expandedText_safe (values : TemplateValues) (parts : List UriTemplatePart) :
    Encoded (keepsByte true) (expandedText values parts) := by
  induction parts with
  | nil => exact .nil
  | cons part parts ih =>
    refine Encoded.append ?_ ih
    cases part with
    | literal text => exact encode_safe _ _ _
    | expression expression =>
      refine joinPieces_safe expression.operator (fun piece listed => ?_) false
      obtain ⟨spec, -, inside⟩ := List.mem_flatMap.mp listed
      cases bound : values[spec.name]? with
      | none => simp [bound] at inside
      | some value =>
        rw [bound] at inside
        exact pieces_safe expression.operator spec value piece inside

theorem Encoded.ascii {text : Bytes} (encoded : Encoded (keepsByte true) text) :
    ∀ byte ∈ text, byte < 128 := by
  rw [← encode_of_encoded (keepsByte_percent true) encoded]
  exact encode_ascii (keepsByte_ascii true) true text

/-- An expansion returns the text described above, if the values are acceptable
and the text fits. -/
theorem expandWithLimits_eq_ok {limits : UriTemplateExpansionLimits} {template : UriTemplate}
    {values : TemplateValues} {out : String} :
    template.expandWithLimits limits values = .ok out ↔
      AcceptedValues limits values template.parts 0 ∧
        bytes out = expandedText values template.parts ∧
        out.utf8ByteSize ≤ limits.outputBytes := by
  have ascii := Encoded.ascii (expandedText_safe values template.parts)
  have loop (text : Bytes) : expandParts limits values [] 0 template.parts = .ok text ↔ _ :=
    expandParts_eq_ok template.parts (Nat.zero_le _) (Nat.zero_le _)
  rw [UriTemplate.expandWithLimits, map_eq_ok, utf8ByteSize_eq]
  simp only [loop, List.nil_append]
  constructor
  · rintro ⟨_, ⟨accepted, rfl, fits⟩, rfl⟩
    rw [bytes_asciiText ascii]
    exact ⟨accepted, rfl, fits⟩
  · rintro ⟨accepted, written, fits⟩
    rw [written] at fits
    refine ⟨_, ⟨accepted, rfl, fits⟩, bytes_injective ?_⟩
    rw [bytes_asciiText ascii, written]

/-- What an expansion returns fits into the limit and consists of unreserved
bytes, reserved bytes and complete triplets, outside of which no percent sign
occurs. -/
theorem expandWithLimits_safe (limits : UriTemplateExpansionLimits) (template : UriTemplate)
    (values : TemplateValues) (out : String)
    (expanded : template.expandWithLimits limits values = .ok out) :
    out.utf8ByteSize ≤ limits.outputBytes ∧ Encoded isUriPlain (bytes out) ∧
      isUriPlain percent = false := by
  obtain ⟨-, written, fits⟩ := expandWithLimits_eq_ok.mp expanded
  rw [← keepsByte_true, written]
  exact ⟨fits, expandedText_safe values template.parts, keepsByte_percent true⟩

theorem expandWithLimits_safe_query :
    Encoded isUriPlain (bytes "a?x=b%20c%25") ∧
      (⟨"", [.literal "a", .expression ⟨.query, [⟨"x", none⟩]⟩]⟩ : UriTemplate).expandWithLimits
        ⟨12, 1, 4⟩ ((∅ : TemplateValues).insert "x" (.scalar "b c%")) = .ok "a?x=b%20c%25" := by
  have expanded : (⟨"", [.literal "a", .expression ⟨.query, [⟨"x", none⟩]⟩]⟩ :
      UriTemplate).expandWithLimits ⟨12, 1, 4⟩
        ((∅ : TemplateValues).insert "x" (.scalar "b c%")) = .ok "a?x=b%20c%25" := by
    simp only [UriTemplate.expandWithLimits, expandParts, expandExpression, expandVariables,
      Std.ExtTreeMap.getElem?_insert_self]
    rfl
  exact ⟨(expandWithLimits_safe _ _ _ _ expanded).2.1, expanded⟩

end FastMcp.UriTemplates
