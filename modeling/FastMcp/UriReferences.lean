import FastMcp.DotSegments
import Mathlib.Data.List.DropRight

/-! # References to schema resources

The identifier of a schema resource is a URI reference. It is resolved against the
identifier of the enclosing resource by cutting both texts, and the text that is put
together from the pieces is parsed again. The transformation of section 5.2.2 of
RFC 3986 works on components instead. The two agree unless a path without an
authority begins with two separators, which is then read as an authority.
-/

namespace FastMcp.UriReferences

open ByteText PercentCoding TextCutting UriGrammar Uri AbsoluteUri

def maxSchemaAssertionStringBytes : Nat := 4 * 1024

/-! ## Resolution -/

def isValidUriScheme : Bytes → Bool
  | [] => false
  | first :: rest => isAlpha first && rest.all isSchemeByte

def hasUriScheme (reference : Bytes) : Bool :=
  match find colon reference with
  | none => false
  | some index =>
    !((reference.take index).contains slash || (reference.take index).contains questionMark) &&
      isValidUriScheme (reference.take index)

def isReferenceByte (byte : UInt8) : Bool :=
  isWireByte byte &&
    (isUnreserved byte || isSubDelim byte || (bytes ":/?#[]@").contains byte || byte == percent)

/-- Every byte is checked, also those that follow a percent sign. -/
def hasReferenceBytes : Bytes → Bool
  | [] => true
  | byte :: rest =>
    (if byte = percent then decide (2 ≤ rest.length) && (rest.take 2).all isHexDigit
    else isReferenceByte byte) && hasReferenceBytes rest

def isBoundedUriReference (reference : Bytes) : Bool :=
  decide (reference.length ≤ maxSchemaAssertionStringBytes) && hasReferenceBytes reference

/-- The text before the first question mark and the text after it. -/
def splitQuery (text : Bytes) : Bytes × Option Bytes :=
  match splitOnce questionMark text with
  | some (before, query) => (before, some query)
  | none => (text, none)

/-- The place where the authority of a hierarchical part ends. -/
def authorityEnd (hierarchy : Bytes) : Nat :=
  (find slash (hierarchy.drop 2)).elim hierarchy.length fun index => index + 2

def normalizeHierarchy (hierarchy : Bytes) : Bytes :=
  if [slash, slash] <+: hierarchy then
    hierarchy.take (authorityEnd hierarchy) ++
      removeUriDotSegments (hierarchy.drop (authorityEnd hierarchy))
  else removeUriDotSegments hierarchy

def resolvePath (basePath referencePath : Bytes) : Bytes :=
  if referencePath = [] then basePath
  else if referencePath.head? = some slash then removeUriDotSegments referencePath
  else
    let directoryEnd := (rfind slash basePath).elim 0 fun index => index + 1
    let directory := if basePath = [] then [slash] else basePath.take directoryEnd
    removeUriDotSegments (directory ++ referencePath)

def resolveQuery (pathIsEmpty : Bool) : Option Bytes → Option Bytes → Option Bytes
  | some query, _ => some query
  | none, baseQuery => if pathIsEmpty then baseQuery else none

variable (isIpv6Address : Bytes → Bool)

def parse (input : String) : Option AbsoluteUri :=
  (parseWithMaxBytes isIpv6Address input maxSchemaAssertionStringBytes).toOption

/-- The texts that are put together consist of ASCII, since they are cut from a URI and from a
bounded reference. -/
def normalizeAbsoluteUriReference (reference : String) : Option String :=
  ((parse isIpv6Address reference).filter fun uri => uri.fragment.isNone).bind fun uri =>
    (stripPrefix (uri.scheme ++ [colon]) (bytes reference)).bind fun hierarchy =>
      let pieces := splitQuery hierarchy
      let normalized := asciiText (uri.scheme ++ colon ::
        (normalizeHierarchy pieces.1 ++ optionalPart questionMark pieces.2))
      ((parse isIpv6Address normalized).filter fun uri => uri.fragment.isNone).map
        AbsoluteUri.original

def resolveUriReference (base : Option String) (reference : String) : Option String :=
  if !isBoundedUriReference (bytes reference) then none
  else if hasUriScheme (bytes reference) then
    normalizeAbsoluteUriReference isIpv6Address reference
  else
    base.bind fun base =>
      (parse isIpv6Address base).bind fun baseUri =>
        let basePieces := splitQuery (bytes base)
        let pieces := splitQuery (bytes reference)
        if [slash, slash] <+: pieces.1 then
          normalizeAbsoluteUriReference isIpv6Address
            (asciiText (baseUri.scheme ++ colon :: bytes reference))
        else
          ((stripPrefix (baseUri.scheme ++ [colon]) basePieces.1).filter fun hierarchy =>
            [slash, slash] <+: hierarchy).bind fun hierarchy =>
              let origin := baseUri.scheme ++ colon :: hierarchy.take (authorityEnd hierarchy)
              let path := resolvePath (hierarchy.drop (authorityEnd hierarchy)) pieces.1
              let query := resolveQuery pieces.1.isEmpty pieces.2 basePieces.2
              let resolved := asciiText (origin ++ path ++ optionalPart questionMark query)
              (parse isIpv6Address resolved).map AbsoluteUri.original

/-! ## The transformation of references -/

/-- The components of a URI without its fragment. -/
structure Components where
  scheme : Bytes
  authority : Option Bytes
  path : Bytes
  query : Option Bytes
deriving DecidableEq, Repr

/-- The components of a reference without its fragment. -/
structure Reference where
  scheme : Option Bytes
  authority : Option Bytes
  path : Bytes
  query : Option Bytes
deriving DecidableEq, Repr

/-- An authority follows two separators and goes up to the next one. -/
def splitAuthority (hierPart : Bytes) : Option Bytes × Bytes :=
  match stripPrefix [slash, slash] hierPart with
  | some rest =>
    let length := (find slash rest).getD rest.length
    (some (rest.take length), rest.drop length)
  | none => (none, hierPart)

def components (uri : AbsoluteUri) : Components where
  scheme := uri.scheme
  authority := (splitAuthority uri.hierPart).1
  path := (splitAuthority uri.hierPart).2
  query := uri.query

/-- The components after the scheme, if there is one. -/
def Reference.afterScheme (scheme : Option Bytes) (rest : Bytes) : Reference where
  scheme := scheme
  authority := (splitAuthority (splitQuery rest).1).1
  path := (splitAuthority (splitQuery rest).1).2
  query := (splitQuery rest).2

/-- The components of a reference without a fragment. -/
def Reference.read (text : Bytes) : Reference :=
  match splitOnce colon text with
  | some (scheme, rest) =>
    if isValidUriScheme scheme then .afterScheme (some scheme) rest else .afterScheme none text
  | none => .afterScheme none text

/-- A relative path takes the place of the last segment of the base. -/
def merge (base : Components) (path : Bytes) : Bytes :=
  if base.authority.isSome ∧ base.path = [] then slash :: path
  else base.path.rdropWhile (· != slash) ++ path

def target (base : Components) (reference : Reference) : Components :=
  match reference.scheme with
  | some scheme =>
    ⟨scheme, reference.authority, removeUriDotSegments reference.path, reference.query⟩
  | none =>
    match reference.authority with
    | some authority =>
      ⟨base.scheme, some authority, removeUriDotSegments reference.path, reference.query⟩
    | none =>
      if reference.path = [] then
        ⟨base.scheme, base.authority, base.path, reference.query.or base.query⟩
      else if reference.path.head? = some slash then
        ⟨base.scheme, base.authority, removeUriDotSegments reference.path, reference.query⟩
      else
        ⟨base.scheme, base.authority, removeUriDotSegments (merge base reference.path),
          reference.query⟩

/-! ## Cutting texts -/

theorem splitQuery_append {before : Bytes} (absent : questionMark ∉ before)
    (query : Option Bytes) :
    splitQuery (before ++ optionalPart questionMark query) = (before, query) := by
  unfold splitQuery
  cases query with
  | none => rw [optionalPart, List.append_nil, splitOnce_eq_none.mpr absent]
  | some part => rw [optionalPart, splitOnce_eq_some.mpr ⟨rfl, absent⟩]

/-- Every text is put together from its parts before and after the question mark. -/
theorem splitQuery_spec (text : Bytes) :
    text = (splitQuery text).1 ++ optionalPart questionMark (splitQuery text).2 ∧
      questionMark ∉ (splitQuery text).1 := by
  unfold splitQuery
  cases cut : splitOnce questionMark text with
  | none => exact ⟨(List.append_nil text).symm, splitOnce_eq_none.mp cut⟩
  | some pieces => exact splitOnce_eq_some.mp cut

/-- The hierarchical part with the given authority and path. -/
def recompose (authority : Option Bytes) (path : Bytes) : Bytes :=
  (authority.elim [] fun text => slash :: slash :: text) ++ path

/-- An authority has no separator, and the path after it begins with one. -/
def Separate (authority : Option Bytes) (path : Bytes) : Prop :=
  ∀ text ∈ authority, slash ∉ text ∧ Rooted path

theorem splitAuthority_spec (hierPart : Bytes) :
    hierPart = recompose (splitAuthority hierPart).1 (splitAuthority hierPart).2 ∧
      Separate (splitAuthority hierPart).1 (splitAuthority hierPart).2 ∧
      ((splitAuthority hierPart).1 = none ↔ ¬ [slash, slash] <+: hierPart) := by
  unfold splitAuthority
  cases stripped : stripPrefix [slash, slash] hierPart with
  | none => exact ⟨rfl, by simp [Separate], by simp [stripPrefix_eq_none.mp stripped]⟩
  | some rest =>
    obtain rfl := stripPrefix_eq_some.mp stripped
    obtain ⟨authority, path, rfl, noSlash, rooted, isLength⟩ := authority_cut rest
    simp only [isLength, List.take_left, List.drop_left]
    refine ⟨rfl, ?_, by simp⟩
    rintro text ⟨⟩
    exact ⟨noSlash, rooted⟩

/-- A hierarchical part is cut as it was put together, unless its path begins with two
separators and there is no authority before it. -/
theorem splitAuthority_recompose {authority : Option Bytes} {path : Bytes}
    (separate : Separate authority path) :
    splitAuthority (recompose authority path) = (authority, path) ↔
      (authority = none → ¬ [slash, slash] <+: path) := by
  obtain ⟨whole, cutSeparate, isNone⟩ := splitAuthority_spec (recompose authority path)
  cases authority with
  | none =>
    constructor
    · intro same _
      exact isNone.mp (by rw [same])
    · intro single
      have absent := isNone.mpr (single rfl)
      rw [absent] at whole
      exact Prod.ext absent whole.symm
  | some text =>
    obtain ⟨noSlash, rooted⟩ := separate text rfl
    simp only [reduceCtorEq, false_implies, iff_true]
    cases cut : (splitAuthority (recompose (some text) path)).1 with
    | none => exact absurd ⟨text ++ path, rfl⟩ (isNone.mp cut)
    | some other =>
      rw [cut] at whole cutSeparate
      obtain ⟨otherNoSlash, otherRooted⟩ := cutSeparate other rfl
      obtain ⟨rfl, samePath⟩ := path_cut_injective noSlash otherNoSlash rooted otherRooted
        (List.cons.inj (List.cons.inj whole).2).2
      exact Prod.ext cut samePath.symm

/-- The authority ends where the path begins. -/
theorem authorityEnd_cut {hierPart text path : Bytes}
    (whole : hierPart = recompose (some text) path) (noSlash : slash ∉ text)
    (rooted : Rooted path) :
    hierPart.take (authorityEnd hierPart) = slash :: slash :: text ∧
      hierPart.drop (authorityEnd hierPart) = path := by
  have isEnd : authorityEnd hierPart = (slash :: slash :: text).length := by
    rw [whole]
    change (find slash (text ++ path)).elim _ _ = _
    rcases rooted with rfl | isHead
    · rw [List.append_nil, find_eq_none.mpr noSlash]
      simp [recompose]
    · obtain ⟨tail, rfl⟩ := List.head?_eq_some_iff.mp isHead
      rw [find_append noSlash]
      rfl
  rw [isEnd, whole]
  exact ⟨List.take_left, List.drop_left⟩

/-- Normalization removes the dot segments of the path alone. -/
theorem normalizeHierarchy_eq (hierPart : Bytes) :
    normalizeHierarchy hierPart =
      recompose (splitAuthority hierPart).1 (removeUriDotSegments (splitAuthority hierPart).2) := by
  obtain ⟨whole, separate, isNone⟩ := splitAuthority_spec hierPart
  unfold normalizeHierarchy
  cases cut : (splitAuthority hierPart).1 with
  | none =>
    rw [if_neg (isNone.mp cut)]
    rw [cut] at whole
    exact congrArg removeUriDotSegments whole
  | some text =>
    rw [cut] at whole separate isNone
    obtain ⟨noSlash, rooted⟩ := separate text rfl
    obtain ⟨isOrigin, isPath⟩ := authorityEnd_cut whole noSlash rooted
    rw [if_pos (by simpa using isNone), isOrigin, isPath]
    rfl

/-! ## Merging paths -/

/-- The directory of a path ends with its last separator. -/
theorem take_directoryEnd (basePath : Bytes) :
    basePath.take ((rfind slash basePath).elim 0 fun index => index + 1) =
      basePath.rdropWhile (· != slash) := by
  cases found : rfind slash basePath with
  | none =>
    have absent := rfind_eq_none.mp found
    refine (List.rdropWhile_eq_nil_iff.mpr fun byte listed => bne_iff_ne.mpr ?_).symm
    rintro rfl
    exact absent listed
  | some place =>
    obtain ⟨before, after, rfl, absent, rfl⟩ := exists_of_rfind found
    have skipped : ∀ byte ∈ after.reverse, (byte != slash) = true := by
      intro byte listed
      rw [bne_iff_ne]
      rintro rfl
      exact absent (List.mem_reverse.mp listed)
    rw [List.rdropWhile, List.reverse_append, List.reverse_cons, List.append_assoc,
      List.dropWhile_append_of_pos skipped]
    simp [List.take_append]

theorem rooted_merge {base : Components} (hasAuthority : base.authority.isSome = true)
    (rooted : Rooted base.path) (path : Bytes) : Rooted (merge base path) := by
  unfold merge
  split
  next => exact .inr rfl
  next notEmpty =>
    obtain ⟨tail, isPath⟩ : ∃ tail, base.path = slash :: tail := by
      rcases rooted with isEmpty | isHead
      · exact absurd ⟨hasAuthority, isEmpty⟩ notEmpty
      · exact List.head?_eq_some_iff.mp isHead
    have nonempty : base.path.rdropWhile (· != slash) ≠ [] := fun isEmpty => by
      have all := List.rdropWhile_eq_nil_iff.mp isEmpty slash (isPath ▸ List.mem_cons_self)
      exact bne_iff_ne.mp all rfl
    have isHead := (rooted.initial (List.rdropWhile_prefix _ base.path)).resolve_left nonempty
    exact .inr (by rw [List.head?_append, isHead, Option.some_or])

/-- The path of the target, if the reference has neither a scheme nor an authority. -/
theorem resolvePath_eq {base : Components} (hasAuthority : base.authority.isSome = true)
    (path : Bytes) :
    resolvePath base.path path =
      if path = [] then base.path
      else if path.head? = some slash then removeUriDotSegments path
      else removeUriDotSegments (merge base path) := by
  simp only [resolvePath, take_directoryEnd, merge, hasAuthority, true_and]
  split_ifs <;> rfl

theorem rooted_resolvePath {base : Components} (hasAuthority : base.authority.isSome = true)
    (rooted : Rooted base.path) (path : Bytes) : Rooted (resolvePath base.path path) := by
  rw [resolvePath_eq hasAuthority]
  split_ifs with isEmpty isHead
  · exact rooted
  · exact rooted_removeUriDotSegments (.inr isHead)
  · exact rooted_removeUriDotSegments (rooted_merge hasAuthority rooted path)

theorem mem_of_mem_resolvePath {basePath path : Bytes} {byte : UInt8}
    (listed : byte ∈ resolvePath basePath path) :
    byte = slash ∨ byte ∈ basePath ∨ byte ∈ path := by
  unfold resolvePath at listed
  split_ifs at listed with isEmpty isHead noBase
  · exact .inr (.inl listed)
  · exact .inr (.inr (mem_of_mem_removeUriDotSegments listed))
  · have merged := mem_of_mem_removeUriDotSegments listed
    rw [List.singleton_append, List.mem_cons] at merged
    exact merged.imp_right .inr
  · have merged := mem_of_mem_removeUriDotSegments listed
    rw [List.mem_append] at merged
    exact .inr (merged.imp_left List.mem_of_mem_take)

/-! ## Schemes and bounded references -/

theorem isValidUriScheme_iff {text : Bytes} : isValidUriScheme text = true ↔ Scheme text := by
  cases text with
  | nil => simp [isValidUriScheme, Scheme]
  | cons first rest => simp [isValidUriScheme, Scheme]

theorem Scheme.notMem {scheme : Bytes} (isScheme : Scheme scheme) {byte : UInt8}
    (foreign : isSchemeByte byte = false) : byte ∉ scheme := fun listed => by
  have plain := Scheme.plain isScheme byte listed
  rw [foreign] at plain
  contradiction

/-- A reference with a scheme has it before its first colon. -/
theorem hasUriScheme_iff {text : Bytes} :
    hasUriScheme text = true ↔ ∃ scheme rest, text = scheme ++ colon :: rest ∧ Scheme scheme := by
  unfold hasUriScheme
  constructor
  · intro isTrue
    cases found : find colon text with
    | none => simp [found] at isTrue
    | some index =>
      obtain ⟨scheme, rest, rfl, -, rfl⟩ := exists_of_find found
      simp only [found, List.take_left, Bool.and_eq_true] at isTrue
      exact ⟨scheme, rest, rfl, isValidUriScheme_iff.mp isTrue.2⟩
  · rintro ⟨scheme, rest, rfl, isScheme⟩
    have noSlash : slash ∉ scheme := Scheme.notMem isScheme (by decide)
    have noQuery : questionMark ∉ scheme := Scheme.notMem isScheme (by decide)
    rw [find_append (Scheme.notMem isScheme (by decide))]
    simp [noSlash, noQuery, isValidUriScheme_iff.mpr isScheme]

theorem Reference.read_of_scheme {scheme rest : Bytes} (isScheme : Scheme scheme) :
    Reference.read (scheme ++ colon :: rest) = .afterScheme (some scheme) rest := by
  unfold Reference.read
  have noColon : colon ∉ scheme := Scheme.notMem isScheme (by decide)
  simp only [splitOnce_eq_some.mpr ⟨rfl, noColon⟩, isValidUriScheme_iff.mpr isScheme, if_true]

theorem Reference.read_of_relative {text : Bytes} (relative : hasUriScheme text = false) :
    Reference.read text = .afterScheme none text := by
  unfold Reference.read
  cases cut : splitOnce colon text with
  | none => rfl
  | some pieces =>
    obtain ⟨isText, -⟩ := splitOnce_eq_some.mp cut
    have notScheme : ¬ isValidUriScheme pieces.1 = true := fun valid => by
      have has := hasUriScheme_iff.mpr ⟨pieces.1, pieces.2, isText, isValidUriScheme_iff.mp valid⟩
      rw [relative] at has
      contradiction
    exact if_neg notScheme

theorem isWireByte_ascii {byte : UInt8} (wire : isWireByte byte = true) : byte < 128 := by
  rw [isWireByte, Bool.and_eq_true, Bool.and_eq_true, decide_eq_true_eq] at wire
  exact wire.1.1

theorem ascii_of_bounded {reference : Bytes} (bounded : isBoundedUriReference reference = true) :
    ∀ byte ∈ reference, byte < 128 := by
  rw [isBoundedUriReference, Bool.and_eq_true] at bounded
  have checked := bounded.2
  clear bounded
  induction reference with
  | nil => simp
  | cons first rest ih =>
    rw [hasReferenceBytes, Bool.and_eq_true] at checked
    rw [List.forall_mem_cons]
    refine ⟨?_, ih checked.2⟩
    have admitted := checked.1
    split at admitted
    next isPercent =>
      rw [isPercent]
      decide
    next =>
      rw [isReferenceByte, Bool.and_eq_true] at admitted
      exact isWireByte_ascii admitted.1

/-! ## Parsing what was put together -/

section Parsing

variable {isIpv6Address}

theorem parse_eq_some {input : String} {uri : AbsoluteUri} :
    parse isIpv6Address input = some uri ↔
      parseWithMaxBytes isIpv6Address input maxSchemaAssertionStringBytes = .ok uri := by
  unfold parse
  cases parseWithMaxBytes isIpv6Address input maxSchemaAssertionStringBytes <;>
    simp [Except.toOption]

theorem short_of_parse {input : String} {uri : AbsoluteUri}
    (parsed : parse isIpv6Address input = some uri) :
    input.utf8ByteSize ≤ maxSchemaAssertionStringBytes := by
  rw [parse_eq_some, parseWithMaxBytes] at parsed
  rw [utf8ByteSize_eq]
  by_contra long
  simp [maxSchemaAssertionStringBytes, absoluteUriHardMaxBytes] at parsed long
  simp [long] at parsed

/-- A parsed URI is given by any way to cut it at its delimiters. -/
theorem parse_of_cut (characters : Ipv6Characters isIpv6Address) {input : String}
    {uri : AbsoluteUri} {scheme hierPart : Bytes} {query fragment : Option Bytes}
    (parsed : parse isIpv6Address input = some uri)
    (cut : Cut (bytes input) scheme hierPart query fragment) :
    uri = ofCut input scheme hierPart query fragment ∧ Scheme scheme ∧
      ∀ byte ∈ bytes input, byte < 128 := by
  obtain ⟨wire, isScheme, -, -, -, isUri⟩ :=
    (parse_eq_ok_of_cut characters (by decide) (short_of_parse parsed) cut).mp
      (parse_eq_some.mp parsed)
  exact ⟨isUri, isScheme, fun byte listed => isWireByte_ascii (wire byte listed)⟩

/-- A text that was put together from the given components and that can be parsed. -/
structure Written (isIpv6Address : Bytes → Bool) (result : String) (parts : Components) :
    Prop where
  separate : Separate parts.authority parts.path
  cut : Cut (bytes result) parts.scheme (recompose parts.authority parts.path) parts.query none
  parsed : parse isIpv6Address result =
    some (ofCut result parts.scheme (recompose parts.authority parts.path) parts.query none)

/-- The text of some components is what the parser keeps. -/
theorem written_of_parse (characters : Ipv6Characters isIpv6Address) {uri : AbsoluteUri}
    (parts : Components) (separate : Separate parts.authority parts.path)
    (isScheme : Scheme parts.scheme)
    (hierPlain : ∀ byte ∈ recompose parts.authority parts.path,
      byte < 128 ∧ byte ≠ questionMark ∧ byte ≠ hash)
    (queryPlain : ∀ part ∈ parts.query, ∀ byte ∈ part, byte < 128 ∧ byte ≠ hash)
    (parsed : parse isIpv6Address (asciiText (assemble parts.scheme
      (recompose parts.authority parts.path) parts.query none)) = some uri) :
    Written isIpv6Address uri.original parts := by
  have ascii : ∀ byte ∈ assemble parts.scheme (recompose parts.authority parts.path) parts.query
      none, byte < 128 := by
    have schemeAscii : ∀ byte ∈ parts.scheme, byte < 128 := fun byte listed =>
      isWireByte_ascii (isSchemeByte_wire byte (Scheme.plain isScheme byte listed))
    have queryAscii : ∀ byte ∈ optionalPart questionMark parts.query, byte < 128 := by
      cases isQuery : parts.query with
      | none => simp [optionalPart]
      | some part =>
        rw [optionalPart, List.forall_mem_cons]
        exact ⟨by decide, fun byte listed => (queryPlain part isQuery byte listed).1⟩
    simp only [assemble, optionalPart, List.append_nil, List.forall_mem_append,
      List.forall_mem_cons]
    exact ⟨schemeAscii, by decide, fun byte listed => (hierPlain byte listed).1, queryAscii⟩
  have cut : Cut (bytes (asciiText (assemble parts.scheme
      (recompose parts.authority parts.path) parts.query none))) parts.scheme
      (recompose parts.authority parts.path) parts.query none := by
    refine ⟨bytes_asciiText ascii, Scheme.plain isScheme, ?_, ?_, ?_⟩
    · exact fun listed => (hierPlain _ listed).2.1 rfl
    · exact fun listed => (hierPlain _ listed).2.2 rfl
    · exact fun part isQuery listed => (queryPlain part isQuery _ listed).2 rfl
  obtain ⟨rfl, -, -⟩ := parse_of_cut characters parsed cut
  exact ⟨separate, cut, parsed⟩

/-- The components are read back unless the path is taken for an authority. -/
theorem Written.components_iff {result : String} {parts : Components}
    (written : Written isIpv6Address result parts) :
    (∃ uri, parseWithMaxBytes isIpv6Address result maxSchemaAssertionStringBytes = .ok uri ∧
        uri.fragment = none ∧ components uri = parts) ↔
      (parts.authority = none → ¬ [slash, slash] <+: parts.path) := by
  obtain ⟨isScheme, isHierPart, isQuery, isFragment⟩ := views_ofCut written.cut
  rw [← splitAuthority_recompose written.separate]
  constructor
  · rintro ⟨uri, parsed, -, same⟩
    obtain rfl := Option.some.inj (written.parsed.symm.trans (parse_eq_some.mpr parsed))
    rw [components, isHierPart] at same
    exact Prod.ext (congrArg Components.authority same) (congrArg Components.path same)
  · intro same
    refine ⟨_, parse_eq_some.mp written.parsed, isFragment, ?_⟩
    rw [components, isScheme, isHierPart, isQuery, same]

/-! ## Absolute references -/

theorem mem_recompose_removeUriDotSegments {hierPart : Bytes} {byte : UInt8}
    (listed : byte ∈ recompose (splitAuthority hierPart).1
      (removeUriDotSegments (splitAuthority hierPart).2)) : byte ∈ hierPart := by
  rw [(splitAuthority_spec hierPart).1]
  rw [recompose, List.mem_append] at listed ⊢
  exact listed.imp_right mem_of_mem_removeUriDotSegments

/-- Normalization keeps the scheme, the authority and the query. -/
theorem normalizeAbsoluteUriReference_spec (characters : Ipv6Characters isIpv6Address)
    {reference result : String}
    (normalized : normalizeAbsoluteUriReference isIpv6Address reference = some result) :
    ∃ scheme hierPart query, Cut (bytes reference) scheme hierPart query none ∧ Scheme scheme ∧
      Written isIpv6Address result ⟨scheme, (splitAuthority hierPart).1,
        removeUriDotSegments (splitAuthority hierPart).2, query⟩ := by
  obtain ⟨uri, found, normalized⟩ := Option.bind_eq_some_iff.mp normalized
  obtain ⟨parsed, fragmentFree⟩ := Option.filter_eq_some_iff.mp found
  obtain ⟨scheme, hierPart, query, fragment, cut⟩ :=
    exists_cut_of_parse (parse_eq_some.mp parsed)
  obtain ⟨rfl, isScheme, ascii⟩ := parse_of_cut characters parsed cut
  obtain ⟨isSchemeView, -, -, isFragment⟩ := views_ofCut cut
  obtain rfl : fragment = none := by simpa [isFragment] using fragmentFree
  have whole : bytes reference =
      (scheme ++ [colon]) ++ (hierPart ++ optionalPart questionMark query) := by
    rw [cut.whole]
    simp [assemble, optionalPart]
  rw [isSchemeView, whole, stripPrefix_append, Option.bind_some] at normalized
  simp only [splitQuery_append cut.hierNoQuery] at normalized
  obtain ⟨resultUri, found, rfl⟩ := Option.map_eq_some_iff.mp normalized
  obtain ⟨reparsed, -⟩ := Option.filter_eq_some_iff.mp found
  have listedHier {byte : UInt8} (listed : byte ∈ hierPart) : byte ∈ bytes reference := by
    rw [whole]
    exact List.mem_append_right _ (List.mem_append_left _ listed)
  have listedQuery {part : Bytes} {byte : UInt8} (isQuery : query = some part)
      (listed : byte ∈ part) : byte ∈ bytes reference := by
    rw [whole, isQuery]
    exact List.mem_append_right _ (List.mem_append_right _ (List.mem_cons_of_mem _ listed))
  refine ⟨scheme, hierPart, query, cut, isScheme, written_of_parse characters _ ?_ isScheme ?_ ?_ ?_⟩
  · intro text isText
    obtain ⟨noSlash, rooted⟩ := (splitAuthority_spec hierPart).2.1 text isText
    exact ⟨noSlash, rooted_removeUriDotSegments rooted⟩
  · intro byte listed
    have inHier := mem_recompose_removeUriDotSegments listed
    refine ⟨ascii byte (listedHier inHier), ?_, ?_⟩
    · rintro rfl
      exact cut.hierNoQuery inHier
    · rintro rfl
      exact cut.hierNoFragment inHier
  · intro part isQuery byte listed
    refine ⟨ascii byte (listedQuery isQuery listed), ?_⟩
    rintro rfl
    exact cut.queryNoFragment part isQuery listed
  · rw [← normalizeHierarchy_eq, assemble, optionalPart, List.append_nil]
    exact reparsed

theorem resolve_absolute (characters : Ipv6Characters isIpv6Address) {reference result : String}
    (base : Components)
    (normalized : normalizeAbsoluteUriReference isIpv6Address reference = some result) :
    Written isIpv6Address result (target base (Reference.read (bytes reference))) := by
  obtain ⟨scheme, hierPart, query, cut, isScheme, written⟩ :=
    normalizeAbsoluteUriReference_spec characters normalized
  have whole : bytes reference =
      scheme ++ colon :: (hierPart ++ optionalPart questionMark query) := by
    rw [cut.whole, assemble, optionalPart, List.append_nil]
  rw [whole, Reference.read_of_scheme isScheme, Reference.afterScheme,
    splitQuery_append cut.hierNoQuery]
  exact written

/-! ## Relative references -/

/-- The text of a URI with an authority and without a fragment. -/
structure IsBase (isIpv6Address : Bytes → Bool) (text : String) (base : Components) : Prop where
  parsed : ∃ uri, parseWithMaxBytes isIpv6Address text maxSchemaAssertionStringBytes = .ok uri ∧
    uri.fragment = none ∧ components uri = base
  hasAuthority : base.authority.isSome = true

theorem IsBase.written (characters : Ipv6Characters isIpv6Address) {text : String}
    {base : Components} (isBase : IsBase isIpv6Address text base) :
    Written isIpv6Address text base ∧ Scheme base.scheme ∧ ∀ byte ∈ bytes text, byte < 128 := by
  obtain ⟨⟨uri, parsed, noFragment, rfl⟩, -⟩ := isBase
  obtain ⟨scheme, hierPart, query, fragment, cut⟩ := exists_cut_of_parse parsed
  obtain ⟨rfl, isScheme, ascii⟩ := parse_of_cut characters (parse_eq_some.mpr parsed) cut
  obtain ⟨isSchemeView, isHierPart, isQuery, isFragment⟩ := views_ofCut cut
  obtain rfl : fragment = none := isFragment.symm.trans noFragment
  obtain ⟨whole, separate, -⟩ := splitAuthority_spec hierPart
  simp only [components, isSchemeView, isHierPart, isQuery]
  refine ⟨⟨separate, ?_, ?_⟩, isScheme, ascii⟩
  · exact whole ▸ cut
  · rw [← whole]
    exact parse_eq_some.mpr parsed

/-- A reference that begins with an authority takes the scheme of the base only. -/
theorem resolve_network (characters : Ipv6Characters isIpv6Address) {base : Components}
    {reference result : String} (isScheme : Scheme base.scheme)
    (ascii : ∀ byte ∈ bytes reference, byte < 128)
    (relative : hasUriScheme (bytes reference) = false)
    (network : [slash, slash] <+: (splitQuery (bytes reference)).1)
    (normalized : normalizeAbsoluteUriReference isIpv6Address
      (asciiText (base.scheme ++ colon :: bytes reference)) = some result) :
    Written isIpv6Address result (target base (Reference.read (bytes reference))) := by
  obtain ⟨scheme, hierPart, query, cut, schemeAgain, written⟩ :=
    normalizeAbsoluteUriReference_spec characters normalized
  have wholeAscii : ∀ byte ∈ base.scheme ++ colon :: bytes reference, byte < 128 := by
    simp only [List.forall_mem_append, List.forall_mem_cons]
    refine ⟨fun byte listed => ?_, by decide, ascii⟩
    exact isWireByte_ascii (isSchemeByte_wire byte (Scheme.plain isScheme byte listed))
  have whole : base.scheme ++ colon :: bytes reference =
      scheme ++ colon :: (hierPart ++ optionalPart questionMark query) := by
    rw [← bytes_asciiText wholeAscii, cut.whole, assemble, optionalPart, List.append_nil]
  obtain ⟨rfl, isReference⟩ := cut_injective (Scheme.notMem isScheme (by decide))
    (Scheme.notMem schemeAgain (by decide)) whole
  rw [isReference, splitQuery_append cut.hierNoQuery] at network
  rw [Reference.read_of_relative relative, Reference.afterScheme, isReference,
    splitQuery_append cut.hierNoQuery]
  cases isAuthority : (splitAuthority hierPart).1 with
  | none => exact absurd network ((splitAuthority_spec hierPart).2.2.mp isAuthority)
  | some authority =>
    rw [isAuthority] at written
    exact written

/-- The components of the target, if the reference begins with its path. -/
theorem target_of_path {base : Components} (hasAuthority : base.authority.isSome = true)
    {text : Bytes} (relative : hasUriScheme text = false)
    (noAuthority : ¬ [slash, slash] <+: (splitQuery text).1) :
    target base (Reference.read text) =
      ⟨base.scheme, base.authority, resolvePath base.path (splitQuery text).1,
        resolveQuery (splitQuery text).1.isEmpty (splitQuery text).2 base.query⟩ := by
  obtain ⟨whole, -, isNone⟩ := splitAuthority_spec (splitQuery text).1
  have absent := isNone.mpr noAuthority
  rw [absent] at whole
  change _ = (splitAuthority (splitQuery text).1).2 at whole
  rw [Reference.read_of_relative relative, Reference.afterScheme, absent, ← whole,
    resolvePath_eq hasAuthority]
  simp only [target]
  split_ifs with isEmpty isHead <;> cases (splitQuery text).2 <;> simp [resolveQuery, isEmpty]

theorem resolve_path (characters : Ipv6Characters isIpv6Address) {base : Components}
    {text reference : String} {uri : AbsoluteUri} (isBase : IsBase isIpv6Address text base)
    (ascii : ∀ byte ∈ bytes reference, byte < 128) (fragmentFree : hash ∉ bytes reference)
    (parsed : parse isIpv6Address (asciiText (assemble base.scheme (recompose base.authority
      (resolvePath base.path (splitQuery (bytes reference)).1))
      (resolveQuery (splitQuery (bytes reference)).1.isEmpty (splitQuery (bytes reference)).2
        base.query) none)) = some uri) :
    Written isIpv6Address uri.original
      ⟨base.scheme, base.authority, resolvePath base.path (splitQuery (bytes reference)).1,
        resolveQuery (splitQuery (bytes reference)).1.isEmpty (splitQuery (bytes reference)).2
          base.query⟩ := by
  obtain ⟨baseWritten, isScheme, baseAscii⟩ := isBase.written characters
  obtain ⟨whole, noQuery⟩ := splitQuery_spec (bytes reference)
  have cut := baseWritten.cut
  have listedHier {byte : UInt8} (listed : byte ∈ recompose base.authority base.path) :
      byte < 128 ∧ byte ≠ questionMark ∧ byte ≠ hash := by
    refine ⟨baseAscii byte ?_, ?_, ?_⟩
    · rw [cut.whole]
      simp [assemble, listed]
    · rintro rfl
      exact cut.hierNoQuery listed
    · rintro rfl
      exact cut.hierNoFragment listed
  have listedReference {byte : UInt8} (listed : byte ∈ bytes reference) :
      byte < 128 ∧ byte ≠ hash := by
    refine ⟨ascii byte listed, ?_⟩
    rintro rfl
    exact fragmentFree listed
  refine written_of_parse characters _ ?_ isScheme ?_ ?_ parsed
  · intro authority isAuthority
    obtain ⟨noSlash, rooted⟩ := baseWritten.separate authority isAuthority
    exact ⟨noSlash, rooted_resolvePath isBase.hasAuthority rooted _⟩
  · intro byte listed
    rw [recompose, List.mem_append] at listed
    rcases listed with listed | listed
    · exact listedHier (List.mem_append_left _ listed)
    · rcases mem_of_mem_resolvePath listed with rfl | listed | listed
      · decide
      · exact listedHier (List.mem_append_right _ listed)
      · have inReference : byte ∈ bytes reference := by
          rw [whole]
          exact List.mem_append_left _ listed
        obtain ⟨isAscii, notHash⟩ := listedReference inReference
        refine ⟨isAscii, ?_, notHash⟩
        rintro rfl
        exact noQuery listed
  · intro part isQuery byte listed
    cases given : (splitQuery (bytes reference)).2 with
    | some query =>
      obtain rfl : query = part := by simpa [given, resolveQuery] using isQuery
      apply listedReference
      rw [whole, given]
      exact List.mem_append_right _ (List.mem_cons_of_mem _ listed)
    | none =>
      have inherited : base.query = some part := by
        simp only [given, resolveQuery, Option.mem_def] at isQuery
        split at isQuery
        · exact isQuery
        · contradiction
      refine ⟨baseAscii byte ?_, ?_⟩
      · rw [cut.whole]
        simp [assemble, inherited, optionalPart, listed]
      · rintro rfl
        exact cut.queryNoFragment part inherited listed

theorem resolve_relative (characters : Ipv6Characters isIpv6Address) {base : Components}
    {text reference result : String} (isBase : IsBase isIpv6Address text base)
    (fragmentFree : hash ∉ bytes reference)
    (relative : hasUriScheme (bytes reference) = false)
    (resolved : resolveUriReference isIpv6Address (some text) reference = some result) :
    Written isIpv6Address result (target base (Reference.read (bytes reference))) := by
  obtain ⟨baseWritten, isScheme, -⟩ := isBase.written characters
  have cut := baseWritten.cut
  obtain ⟨isSchemeView, -, -, -⟩ := views_ofCut cut
  have basePieces : splitQuery (bytes text) =
      (base.scheme ++ [colon] ++ recompose base.authority base.path, base.query) := by
    have absent : questionMark ∉ base.scheme ++ [colon] ++ recompose base.authority base.path := by
      simp only [List.mem_append, List.mem_singleton, not_or]
      exact ⟨⟨cut.schemeNo (by decide), by decide⟩, cut.hierNoQuery⟩
    rw [← splitQuery_append absent, cut.whole]
    simp [assemble, optionalPart]
  unfold resolveUriReference at resolved
  split at resolved
  next => contradiction
  next bounded =>
  have ascii := ascii_of_bounded (by simpa using bounded)
  rw [if_neg (by simp [relative]), Option.bind_some, baseWritten.parsed, Option.bind_some] at resolved
  simp only [basePieces, isSchemeView] at resolved
  split at resolved
  next network => exact resolve_network characters isScheme ascii relative network resolved
  next noAuthority =>
    obtain ⟨authority, isAuthority⟩ := Option.isSome_iff_exists.mp isBase.hasAuthority
    obtain ⟨noSlash, rooted⟩ := baseWritten.separate authority isAuthority
    obtain ⟨isOrigin, isPath⟩ := authorityEnd_cut rfl noSlash rooted
    rw [target_of_path isBase.hasAuthority relative noAuthority]
    rw [stripPrefix_append, isAuthority, Option.filter_some_pos (by simp [recompose]),
      Option.bind_some, isOrigin, isPath] at resolved
    obtain ⟨uri, parsed, rfl⟩ := Option.map_eq_some_iff.mp resolved
    apply resolve_path characters isBase ascii fragmentFree
    rw [isAuthority]
    simpa [assemble, recompose, optionalPart] using parsed

/-- A resolved reference is read back as its target exactly if the target has an authority or its
path does not begin with two separators. Removing dot segments follows section 5.2.4, leaves none
of them, lengthens nothing and changes nothing when it is done again. -/
theorem resolveUriReference_target (characters : Ipv6Characters isIpv6Address)
    {base : Option String} {reference result : String} {parts : Components}
    (grounded : hasUriScheme (bytes reference) = true ∨
      hash ∉ bytes reference ∧ ∃ text, base = some text ∧ IsBase isIpv6Address text parts)
    (resolved : resolveUriReference isIpv6Address base reference = some result) :
    ((∃ uri, parseWithMaxBytes isIpv6Address result maxSchemaAssertionStringBytes = .ok uri ∧
        uri.fragment = none ∧
        components uri = target parts (Reference.read (bytes reference))) ↔
      ((target parts (Reference.read (bytes reference))).authority = none →
        ¬ [slash, slash] <+: (target parts (Reference.read (bytes reference))).path)) ∧
    ∀ path, Relation.ReflTransGen DotStep (path, []) ([], removeUriDotSegments path) ∧
      removeUriDotSegments (removeUriDotSegments path) = removeUriDotSegments path ∧
      (removeUriDotSegments path).length ≤ path.length ∧ NoDots (removeUriDotSegments path) := by
  have written : Written isIpv6Address result (target parts (Reference.read (bytes reference))) := by
    cases absolute : hasUriScheme (bytes reference) with
    | true =>
      unfold resolveUriReference at resolved
      split at resolved
      next => contradiction
      next =>
        exact resolve_absolute characters parts resolved
    | false =>
      obtain ⟨fragmentFree, text, rfl, isBase⟩ := grounded.resolve_left (by simp [absolute])
      exact resolve_relative characters isBase fragmentFree absolute resolved
  refine ⟨written.components_iff, fun path => ⟨removeUriDotSegments_run path, ?_, ?_, ?_⟩⟩
  · exact removeUriDotSegments_idempotent path
  · exact length_removeUriDotSegments_le path
  · exact noDots_removeUriDotSegments path

theorem resolveUriReference_target_sibling :
    resolveUriReference isLoopback (some "http://h/p/q?z") "../x//y?k" =
        some "http://h/x//y?k" ∧
      ∃ uri, parseWithMaxBytes isLoopback "http://h/x//y?k" maxSchemaAssertionStringBytes =
          .ok uri ∧
        uri.fragment = none ∧
        components uri = ⟨bytes "http", some (bytes "h"), bytes "/x//y", some (bytes "k")⟩ := by
  have isBase : IsBase isLoopback "http://h/p/q?z"
      ⟨bytes "http", some (bytes "h"), bytes "/p/q", some (bytes "z")⟩ :=
    ⟨⟨⟨"http://h/p/q?z", 4, some 12, none⟩, by decide⟩, rfl⟩
  have resolved : resolveUriReference isLoopback (some "http://h/p/q?z") "../x//y?k" =
      some "http://h/x//y?k" := by
    decide
  refine ⟨resolved, ?_⟩
  have isTarget : target ⟨bytes "http", some (bytes "h"), bytes "/p/q", some (bytes "z")⟩
      (Reference.read (bytes "../x//y?k")) =
        ⟨bytes "http", some (bytes "h"), bytes "/x//y", some (bytes "k")⟩ := by
    decide
  rw [← isTarget]
  apply (resolveUriReference_target ipv6Characters_isLoopback
    (.inr ⟨by decide, _, rfl, isBase⟩) resolved).1.mpr
  rw [isTarget]
  exact fun absent => nomatch absent

/-- Two separators that remain at the beginning of a path are read as those of an authority. -/
theorem rootless_path_becomes_authority :
    resolveUriReference isLoopback none "a:/.//b" = some "a://b" ∧
      (∀ base, target base (Reference.read (bytes "a:/.//b")) =
        ⟨bytes "a", none, bytes "//b", none⟩) ∧
      (parse isLoopback "a://b").map components =
        some ⟨bytes "a", some (bytes "b"), [], none⟩ := by
  refine ⟨by decide, fun base => ?_, by decide⟩
  have isReference : Reference.read (bytes "a:/.//b") =
      ⟨some (bytes "a"), none, bytes "/.//b", none⟩ := by
    decide
  have isPath : removeUriDotSegments (bytes "/.//b") = bytes "//b" := by decide
  rw [isReference, target, isPath]

end Parsing

end FastMcp.UriReferences
