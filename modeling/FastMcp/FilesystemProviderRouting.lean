import FastMcp.FilesystemProvider
import FastMcp.ReversibleTemplate
import FastMcp.UriTemplateParsing
import FastMcp.UriTemplateSafety

/-! # Routing of filesystem resource URIs

The provider is registered under a template that ends in a reserved expansion
of the path. A URI that the provider wrote goes through the matcher of that
template before it reaches the provider again. The two encode paths by
different tables, and the matcher refuses values that already contain percent
triplets, so it accepts a URI exactly when the path avoids both differences.
-/

namespace FastMcp.UriTemplates

open ByteText PercentCoding Outcomes

/-- A character that stands for itself in a literal. -/
def isPlainLiteral (character : Char) : Bool :=
  character.toNat < 128 && character != '%' && isValidLiteralByte character

/-- A plain literal before a reserved path is parsed as it stands. -/
theorem parse_reservedPath {base : String} (nonempty : base ≠ "")
    (short : base.utf8ByteSize + 7 ≤ maxUriTemplateBytes)
    (plain : ∀ character ∈ base.toList, isPlainLiteral character = true) :
    UriTemplate.parse (base ++ "\x7b+path\x7d") = .ok ⟨base ++ "\x7b+path\x7d",
      [.literal base, .expression ⟨.reserved, [⟨"path", none⟩]⟩]⟩ := by
  have literal : ∀ character ∈ base.toList, LiteralCharacter character := by
    intro character member
    have kept := plain character member
    simp only [isPlainLiteral, Bool.and_eq_true, decide_eq_true_eq] at kept
    exact (literalCharacter_ascii kept.1.1).mp kept.2
  have isName : VariableName "path".toList := (isValidVariableName_iff _).mp (by decide)
  refine parse_eq_ok.mpr ⟨?_, rfl, ⟨⟨?_, by simp [isExpression]⟩, by simp, by simp [isExpression]⟩, ?_⟩
  · rw [String.utf8ByteSize_append]
    exact short
  · simp only [List.forall_mem_cons, List.not_mem_nil, false_implies, implies_true, and_true]
    refine ⟨⟨nonempty, spelled_of_plain literal⟩, ⟨by simp, by simp, ?_⟩⟩
    simp only [List.forall_mem_singleton]
    exact ⟨isName, by decide, trivial⟩
  · rw [String.toList_append]
    rfl

/-- The compiled matcher of a plain base and a reserved path. -/
def reservedPathMatcher (base : String) : ReversibleResourceTemplate where
  template := ⟨base ++ "\x7b+path\x7d", [.literal base, .expression ⟨.reserved, [⟨"path", none⟩]⟩]⟩
  parts := [.literal (bytes base), .expression ⟨.reserved, [⟨"path", bytes "path"⟩], none⟩]

theorem compileReversible_reservedPath {base : String}
    (short : base.utf8ByteSize ≤ maxUriTemplateExpansionOutputBytes)
    (kept : ∀ byte ∈ bytes base, keepsByte true byte = true) :
    (reservedPathMatcher base).template.compileReversible = .ok (reservedPathMatcher base) := by
  have encoded : appendEncodedLiteral {} [] base = .ok (bytes base) := by
    refine (appendPercentEncoded_yields true true [] (bytes base) (Nat.zero_le _) _).mpr ⟨?_, ?_⟩
    · rw [encode_kept (keepsByte_percent true) true _ kept, List.nil_append]
    · rw [← utf8ByteSize_eq]
      exact short
  rw [UriTemplate.compileReversible, reservedPathMatcher, compileParts, encoded]
  rfl

section ReservedPath

variable {base path uri : String} {written : Bytes}

/-- The bindings of the path alone. -/
def pathValues (path : String) : TemplateValues :=
  (∅ : TemplateValues).insert "path" (.scalar path)

theorem getElem?_pathValues (path : String) :
    (pathValues path)["path"]? = some (.scalar path) := by
  simp [pathValues]

/-- The matcher captures the path that the text behind the base decodes to. -/
theorem reverseMatchParts_reservedPath (nonempty : path ≠ "")
    (decoded : decode written = some (bytes path)) :
    reverseMatchParts ∅ (reservedPathMatcher base).parts (bytes base ++ written) =
      some (pathValues path) := by
  have writtenNonempty : written ≠ [] := by
    rintro rfl
    rw [decode, Option.some.injEq] at decoded
    exact nonempty (bytes_injective decoded.symm)
  have captured : reverseMatchExpression ⟨.reserved, [⟨"path", bytes "path"⟩], none⟩ written =
      some ([("path", path)], written.length) := by
    simp [reverseMatchExpression, reverseMatchVariable, reverseMatchUnprefixed,
      reverseCaptureToBoundary, writtenNonempty, decodePercentTripletsOnce, decoded]
  simp [reservedPathMatcher, reverseMatchParts, stripPrefix_append, captured, insertCaptures,
    pathValues]

/-- The matcher's checks of a nonempty path. -/
theorem checks_reservedPath (nonempty : path ≠ "") :
    (reservedPathMatcher base).parts.forM (checkMatchValues (pathValues path)) =
      if containsTriplet (bytes path) then .error (.preescapedReservedMatchValue "path")
      else .ok () := by
  have notEmpty : path.isEmpty = false := by simpa using nonempty
  have checked : checkMatchValue .reserved "path" (pathValues path)["path"]? =
      if containsTriplet (bytes path) then .error (.preescapedReservedMatchValue "path")
      else .ok () := by
    simp [getElem?_pathValues, checkMatchValue, notEmpty]
  change ((checkMatchValue .reserved "path" (pathValues path)["path"]?).bind fun _ => .ok ()).bind
    (fun _ => .ok ()) = _
  rw [checked]
  split <;> rfl

theorem expand_triplet (escaped : containsTriplet (bytes path) = true) (nonempty : path ≠ "") :
    (reservedPathMatcher base).expand (pathValues path) =
      .error (.preescapedReservedMatchValue "path") := by
  rw [ReversibleResourceTemplate.expand, checks_reservedPath nonempty, if_pos escaped]
  rfl

theorem reservedPath_ascii (kept : ∀ byte ∈ bytes base, keepsByte true byte = true)
    (path : String) : ∀ byte ∈ bytes base ++ encodeScalar .reserved path, byte < 128 :=
  List.forall_mem_append.mpr ⟨fun byte member => keepsByte_ascii true byte (kept byte member),
    encode_ascii (keepsByte_ascii true) true (bytes path)⟩

theorem expand_reservedPath (plain : containsTriplet (bytes path) = false) (nonempty : path ≠ "")
    (kept : ∀ byte ∈ bytes base, keepsByte true byte = true)
    (small : path.utf8ByteSize ≤ maxUriTemplateValueBytes)
    (fits : (bytes base ++ encodeScalar .reserved path).length ≤
      maxUriTemplateExpansionOutputBytes) :
    (reservedPathMatcher base).expand (pathValues path) =
      .ok (asciiText (bytes base ++ encodeScalar .reserved path)) := by
  have checked : (reservedPathMatcher base).parts.forM (checkMatchValues (pathValues path)) =
      .ok () := by
    rw [checks_reservedPath nonempty, plain]
    rfl
  have ascii := reservedPath_ascii kept path
  have literal := encode_kept (keepsByte_percent true) true _ kept
  have accepted : AcceptedValues {} (pathValues path) (reservedPathMatcher base).template.parts
      0 := by
    refine ⟨?_, by simp [reservedPathMatcher, partMembers, variableMembers, getElem?_pathValues,
      memberCount]⟩
    intro expression listed spec member value bound
    simp only [reservedPathMatcher, List.mem_cons, reduceCtorEq, List.not_mem_nil, or_false,
      false_or, UriTemplatePart.expression.injEq] at listed
    subst listed
    rw [List.mem_singleton.mp member, getElem?_pathValues] at bound
    cases bound
    exact small
  rw [ReversibleResourceTemplate.expand, checked]
  refine expandWithLimits_eq_ok.mpr ⟨accepted, ?_, ?_⟩
  · rw [bytes_asciiText ascii]
    simp [reservedPathMatcher, expandedText, expandedPart, literal, variablePieces,
      getElem?_pathValues, pieces, joinPieces, delimiter, scalarPiece, labelled, takenText,
      UriTemplateOperator.properties]
  · rwa [utf8ByteSize_eq, bytes_asciiText ascii]

/-- The matcher returns the path exactly when the path has no triplet of its own
and its reserved expansion is the text behind the base. -/
theorem matchUri_reservedPath (nonempty : path ≠ "")
    (kept : ∀ byte ∈ bytes base, keepsByte true byte = true)
    (small : path.utf8ByteSize ≤ maxUriTemplateValueBytes)
    (fits : (bytes base ++ encodeScalar .reserved path).length ≤
      maxUriTemplateExpansionOutputBytes)
    (uriBytes : bytes uri = bytes base ++ written)
    (uriFits : uri.utf8ByteSize ≤ maxUriTemplateMatchInputBytes)
    (decoded : decode written = some (bytes path)) :
    (reservedPathMatcher base).matchUri uri = .ok (some (pathValues path)) ↔
      containsTriplet (bytes path) = false ∧ encodeScalar .reserved path = written := by
  rw [ReversibleResourceTemplate.matchUri, if_neg (Nat.not_lt.mpr uriFits), uriBytes,
    reverseMatchParts_reservedPath nonempty decoded]
  cases escaped : containsTriplet (bytes path) with
  | true => simp [expand_triplet escaped nonempty, Except.map]
  | false =>
    have ascii := reservedPath_ascii kept path
    have replayed : asciiText (bytes base ++ encodeScalar .reserved path) = uri ↔
        encodeScalar .reserved path = written := by
      rw [← bytes_injective.eq_iff, bytes_asciiText ascii, uriBytes, List.append_cancel_left_eq]
    simp [expand_reservedPath escaped nonempty kept small fits, Except.map, replayed]

end ReservedPath

end FastMcp.UriTemplates

namespace FastMcp.Filesystem.FilesystemProvider

open ByteText PercentCoding Outcomes UriTemplates

variable {provider : FilesystemProvider} {path uri : String}

theorem validatePath_ok {names : List (List Char)} (validated : validatePath path = .ok names) :
    path.utf8ByteSize ≤ maxRelativePathBytes ∧ path ≠ "" ∧ 0x3f ∉ bytes path ∧
      0x23 ∉ bytes path := by
  unfold validatePath at validated
  split at validated
  · contradiction
  rename_i checked
  split at validated
  · contradiction
  simp only [Bool.or_eq_true, decide_eq_true_eq, not_or, Nat.not_lt, List.any_eq_true,
    beq_iff_eq, not_exists, not_and] at checked
  refine ⟨checked.1, ?_, fun member => ?_, fun member => ?_⟩
  · rintro rfl
    cases validated
  · exact (checked.2 '?' (mem_toList_of_mem_bytes (by decide) member)).1.2 rfl
  · exact (checked.2 '#' (mem_toList_of_mem_bytes (by decide) member)).2 rfl

/-- The two tables of literal bytes differ in four bytes. -/
theorem encodeByte_agree (byte : UInt8) (noQuery : byte ≠ 0x3f) (noFragment : byte ≠ 0x23)
    (noOpen : byte ≠ 0x5b) (noClose : byte ≠ 0x5d) :
    encodeByte (keepsByte true) byte = encodeByte resourcePathByteMayRemainLiteral byte := by
  have tables : bytes "-._~:/@!$&'()*+,;=" = bytes "-._~" ++
      (bytes ":/?#[]@!$&'()*+,;=").filter (· ∉ [0x3f, 0x23, 0x5b, 0x5d]) := by decide
  have same : keepsByte true byte = resourcePathByteMayRemainLiteral byte := by
    rw [keepsByte, isUnreserved, isReserved, resourcePathByteMayRemainLiteral, tables,
      Bool.eq_iff_iff]
    simp [isAsciiAlphanumericByte, noQuery, noFragment, noOpen, noClose, or_assoc]
  rw [encodeByte, encodeByte, same]

theorem encodedBytes_noBracket (path : String) :
    ∀ byte ∈ encodedBytes path, byte ≠ 0x5b ∧ byte ≠ 0x5d := by
  intro written member
  obtain ⟨byte, -, member⟩ := List.mem_flatMap.mp member
  unfold encodeByte at member
  split at member
  next literal =>
    obtain rfl := List.mem_singleton.mp member
    constructor
    · rintro rfl
      exact absurd literal (by decide)
    · rintro rfl
      exact absurd literal (by decide)
  next =>
    exact forall_triplet (fun written => written ≠ 0x5b ∧ written ≠ 0x5d) (by decide) (by decide)
      byte written member

/-- Without triplets, reserved expansion writes a path as the provider does
exactly when it has no brackets. -/
theorem encodeScalar_eq_encodedBytes (plain : containsTriplet (bytes path) = false)
    (noQuery : 0x3f ∉ bytes path) (noFragment : 0x23 ∉ bytes path) :
    encodeScalar .reserved path = encodedBytes path ↔ 0x5b ∉ bytes path ∧ 0x5d ∉ bytes path := by
  have expansion : encodeScalar .reserved path =
      (bytes path).flatMap (encodeByte (keepsByte true)) := encode_eq_flatMap fun _ => plain
  constructor
  · intro same
    have brackets : ∀ byte, encodeByte (keepsByte true) byte = [byte] →
        byte ∈ bytes path → byte ∈ encodedBytes path := by
      intro byte literal member
      rw [← same, expansion]
      exact List.mem_flatMap.mpr ⟨byte, member, literal ▸ List.mem_singleton_self byte⟩
    exact ⟨fun member => (encodedBytes_noBracket path _ (brackets _ (by decide) member)).1 rfl,
      fun member => (encodedBytes_noBracket path _ (brackets _ (by decide) member)).2 rfl⟩
  · rintro ⟨noOpen, noClose⟩
    rw [expansion]
    refine List.flatMap_congr fun byte member => ?_
    refine encodeByte_agree byte ?_ ?_ ?_ ?_ <;> (rintro rfl; contradiction)

/-- A base of the provider is a plain literal that expansion does not change. -/
theorem isPrefixByte_plain (byte : UInt8) (isListed : isPrefixByte byte = true) :
    (keepsByte true byte && isPlainLiteral (Char.ofNat byte.toNat)) = true := by
  have marks : (bytes "._-").all (fun byte =>
      keepsByte true byte && isPlainLiteral (Char.ofNat byte.toNat)) = true := by
    decide
  rw [isPrefixByte, Bool.or_eq_true, List.contains_iff_mem] at isListed
  rcases isListed with inRange | isMark
  · have code := toNat_ofNat_byte byte
    generalize Char.ofNat byte.toNat = character at code ⊢
    have atLeast (mark : Char) : mark ≤ character ↔ mark.toNat ≤ byte.toNat := by
      rw [← code]
      exact Iff.rfl
    have atMost (mark : Char) : character ≤ mark ↔ byte.toNat ≤ mark.toNat := by
      rw [← code]
      exact Iff.rfl
    have notPercent : character ≠ '%' := by
      rintro rfl
      have isPercent : byte = 0x25 := UInt8.toNat_inj.mp code.symm
      rw [isPercent] at inRange
      contradiction
    simp only [isAsciiAlphanumericByte, Bool.or_eq_true, Bool.and_eq_true, decide_eq_true_eq]
      at inRange
    have kept : keepsByte true byte = true := by
      simp [keepsByte, isUnreserved, inRange]
    simp only [UInt8.le_iff_toNat_le, UInt8.reduceToNat] at inRange
    simp only [kept, isPlainLiteral, isValidLiteralByte, code, notPercent, atLeast, atMost,
      Char.reduceToNat, Bool.or_eq_true, Bool.and_eq_true, decide_eq_true_eq, bne_iff_ne, ne_eq,
      not_false_eq_true, and_true, true_and]
    omega
  · exact List.all_eq_true.mp marks byte isMark

theorem uriBase_plain (valid : provider.validateConfiguration = .ok ()) :
    (∀ byte ∈ bytes provider.uriBase, keepsByte true byte = true) ∧
      ∀ character ∈ provider.uriBase.toList, isPlainLiteral character = true := by
  have plain := uriBase_forall valid (by decide) isPrefixByte_plain
  simp only [Bool.and_eq_true] at plain
  refine ⟨fun byte member => (plain byte member).1, ?_⟩
  have ascii : ∀ byte ∈ bytes provider.uriBase, byte < 128 :=
    fun byte member => keepsByte_ascii true byte (plain byte member).1
  rw [← asciiText_bytes ascii, toList_asciiText]
  intro character member
  obtain ⟨byte, byteMember, rfl⟩ := List.mem_map.mp member
  exact (plain byte byteMember).2

theorem uriBase_ne_empty (provider : FilesystemProvider) : provider.uriBase ≠ "" := by
  unfold uriBase
  split <;> simp

/-- The provider's template compiles, and the router returns the path of a URI
that the provider wrote exactly when the path has no brackets and no triplets. -/
theorem matchUri_fileUri_iff (valid : provider.validateConfiguration = .ok ())
    (named : provider.fileUri path = .ok uri) :
    ∃ template matcher, UriTemplate.parse provider.uriTemplate = .ok template ∧
      template.compileReversible = .ok matcher ∧
      (matcher.matchUri uri = .ok (some (pathValues path)) ↔
        0x5b ∉ bytes path ∧ 0x5d ∉ bytes path ∧ containsTriplet (bytes path) = false) := by
  obtain ⟨⟨names, validated⟩, pathSize, uriBytes⟩ := fileUri_ok named
  obtain ⟨-, nonempty, noQuery, noFragment⟩ := validatePath_ok validated
  obtain ⟨kept, plain⟩ := uriBase_plain valid
  have baseSize := uriBase_size valid
  have writtenSize := encodedBytes_length path
  have expansionSize : (encodeScalar .reserved path).length ≤ 3 * path.utf8ByteSize := by
    rw [utf8ByteSize_eq]
    exact encode_length _ _ _
  have uriSize : uri.utf8ByteSize = provider.uriBase.utf8ByteSize + (encodedBytes path).length := by
    rw [utf8ByteSize_eq, uriBytes, List.length_append, ← utf8ByteSize_eq]
  have uriFits : uri.utf8ByteSize ≤ maxUriTemplateMatchInputBytes := by
    unfold maxUriTemplateMatchInputBytes maxUriTemplateExpansionOutputBytes
    unfold maxUriPrefixBytes at baseSize
    unfold maxRelativePathBytes at pathSize
    omega
  have fits : (bytes provider.uriBase ++ encodeScalar .reserved path).length ≤
      maxUriTemplateExpansionOutputBytes := by
    rw [List.length_append, ← utf8ByteSize_eq]
    unfold maxUriTemplateExpansionOutputBytes
    unfold maxUriPrefixBytes at baseSize
    unfold maxRelativePathBytes at pathSize
    omega
  have small : path.utf8ByteSize ≤ maxUriTemplateValueBytes :=
    Nat.le_trans pathSize (by decide)
  refine ⟨_, reservedPathMatcher provider.uriBase,
    parse_reservedPath (uriBase_ne_empty provider) ?_ plain,
    compileReversible_reservedPath ?_ kept, ?_⟩
  · unfold maxUriTemplateBytes
    unfold maxUriPrefixBytes at baseSize
    omega
  · exact Nat.le_trans baseSize (by decide)
  · rw [matchUri_reservedPath nonempty kept small fits uriBytes uriFits (decode_encodedBytes path),
      ← and_assoc]
    constructor
    · rintro ⟨noTriplet, same⟩
      exact ⟨(encodeScalar_eq_encodedBytes noTriplet noQuery noFragment).mp same, noTriplet⟩
    · rintro ⟨noBracket, noTriplet⟩
      exact ⟨noTriplet, (encodeScalar_eq_encodedBytes noTriplet noQuery noFragment).mpr noBracket⟩

/-- A bracket in a path is written as a triplet, while reserved expansion keeps
it, so the replayed URI is another one. -/
theorem matchUri_bracket :
    validateConfiguration {} = .ok () ∧ fileUri {} "[x]" = .ok "file:///%5Bx%5D" ∧
      UriTemplate.parse (uriTemplate {}) = .ok (reservedPathMatcher "file:///").template ∧
      (reservedPathMatcher "file:///").template.compileReversible =
        .ok (reservedPathMatcher "file:///") ∧
      (reservedPathMatcher "file:///").matchUri "file:///%5Bx%5D" = .ok none :=
  ⟨by decide, by decide, by decide +kernel, by decide, by decide⟩

theorem matchUri_blank :
    ∃ template matcher, UriTemplate.parse (uriTemplate {}) = .ok template ∧
      template.compileReversible = .ok matcher ∧
      matcher.matchUri "file:///a%20b" = .ok (some (pathValues "a b")) := by
  obtain ⟨template, matcher, parsed, compiled, routed⟩ :=
    matchUri_fileUri_iff (by decide : validateConfiguration {} = .ok ())
      (by decide : fileUri {} "a b" = .ok "file:///a%20b")
  exact ⟨template, matcher, parsed, compiled, routed.mpr (by decide)⟩

end FastMcp.Filesystem.FilesystemProvider
