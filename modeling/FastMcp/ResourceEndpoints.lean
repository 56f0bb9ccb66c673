import FastMcp.AbsoluteUris
import FastMcp.StrictMaxima

/-! # Binding resources to endpoints

A protected resource is named by a URL and is bound to one of the configured
endpoints: the one with the longest path among those that match the resource.
The URL parser is given; it reports the canonical parts of a URL and whether it
had to repair the input.
-/

namespace FastMcp.Uri

open ByteText PercentCoding TextCutting Outcomes StrictMaxima

def canonicalUrlHardMaxBytes : Nat := absoluteUriHardMaxBytes
def maxConfiguredResourceEndpoints : Nat := 64
def maxConfiguredResourceEndpointIdentityBytes : Nat := 256

/-! ## Canonical URLs -/

/-- The canonical parts of a URL. -/
structure Url where
  serialization : String
  scheme : String
  authority : String
  hostStr : Option String
  -- Present only if it is not the default port of the scheme.
  port : Option Nat
  path : String
  query : Option String
  fragment : Option String
deriving DecidableEq, Repr

/-- Whether the parser repaired anything, and whether this concerned credentials. -/
structure UrlSyntaxFlags where
  any : Bool := false
  credentials : Bool := false
deriving DecidableEq, Repr

/-- A parsed URL with what the parser repaired in it. -/
structure CanonicalHttpUrl where
  url : Url
  syntaxFlags : UrlSyntaxFlags
deriving DecidableEq, Repr

namespace CanonicalHttpUrl

variable (canonical : CanonicalHttpUrl)

def host : String := canonical.url.hostStr.getD ""

def effectivePort : Nat :=
  canonical.url.port.getD (if canonical.url.scheme = "http" then 80 else 443)

def hasUserinfo : Bool := canonical.url.authority.toList.contains '@'

end CanonicalHttpUrl

inductive CanonicalHttpUrlError (ParseError : Type) where
  | limitExceedsHardCeiling (requestedMaxBytes hardMaxBytes : Nat)
  | inputTooLong (inputBytes maxBytes : Nat)
  | invalidPercentEncoding (byteIndex : Nat)
  | parse (error : ParseError)
  | schemeNotHttp
  | missingHost
  | canonicalOutputTooLong (canonicalBytes maxBytes : Nat)
deriving DecidableEq, Repr

variable {ParseError : Type}

/-- Every percent sign stands before two hexadecimal digits. -/
def validateHttpPercentTriplets :
    Nat → Bytes → Except (CanonicalHttpUrlError ParseError) Unit
  | _, [] => .ok ()
  | byteIndex, byte :: rest =>
    if byte = percent ∧ startsWithTriplet (byte :: rest) = false then
      .error (.invalidPercentEncoding byteIndex)
    else validateHttpPercentTriplets (byteIndex + 1) rest

def lowercaseByte (byte : UInt8) : UInt8 :=
  if 0x41 ≤ byte && byte ≤ 0x5a then byte + 0x20 else byte

def hasEmptyHttpAuthority (input : Bytes) : Bool :=
  match splitOnce 0x3a input with
  | none => false
  | some (scheme, afterScheme) =>
    if scheme.map lowercaseByte = bytes "http" ∨ scheme.map lowercaseByte = bytes "https" then
      match stripPrefix (bytes "//") afterScheme with
      | none => false
      | some authority => authority.head?.all (bytes "/?#").contains
    else false

/-- Parses a URL within a bound on its length before and after canonicalization. -/
def parseCanonicalHttpUrl (parseUrl : String → Except ParseError (Url × UrlSyntaxFlags))
    (input : String) (maxBytes : Nat) :
    Except (CanonicalHttpUrlError ParseError) CanonicalHttpUrl :=
  if maxBytes > canonicalUrlHardMaxBytes then
    .error (.limitExceedsHardCeiling maxBytes canonicalUrlHardMaxBytes)
  else if input.utf8ByteSize > maxBytes then .error (.inputTooLong input.utf8ByteSize maxBytes)
  else
    (validateHttpPercentTriplets 0 (bytes input)).bind fun _ =>
      if hasEmptyHttpAuthority (bytes input) then .error .missingHost
      else
        ((parseUrl input).mapError .parse).bind fun (url, syntaxFlags) =>
          if url.scheme ≠ "http" ∧ url.scheme ≠ "https" then .error .schemeNotHttp
          else if url.hostStr.all String.isEmpty then .error .missingHost
          else if url.serialization.utf8ByteSize > maxBytes then
            .error (.canonicalOutputTooLong url.serialization.utf8ByteSize maxBytes)
          else .ok { url, syntaxFlags }

/-! ## Policies -/

inductive ResourceEndpointPathPolicy where
  | nonRootWithoutTrailingSlash
  | nonRootWithTrailingSlash
  | rootEndpoint
deriving DecidableEq, Repr

inductive QueryPolicy where
  | preserve
  | reject
  | resourceSignificant
deriving DecidableEq, Repr

/-- Which paths and queries a resource identifier may have. -/
structure CanonicalResourceIdPolicy where
  endpointPath : ResourceEndpointPathPolicy := .nonRootWithoutTrailingSlash
  query : QueryPolicy := .reject
deriving DecidableEq, Repr

/-- An endpoint with the policy for identifiers that name it. -/
structure ConfiguredResourceEndpoint where
  identity : String
  endpoint : CanonicalHttpUrl
  resourcePolicy : CanonicalResourceIdPolicy
deriving DecidableEq, Repr

inductive CanonicalResourceIdError (ParseError : Type) where
  | httpUrl (error : CanonicalHttpUrlError ParseError)
  | nonCanonicalSyntax
  | userinfoNotAllowed
  | httpsRequired
  | fragmentNotAllowed
  | queryNotAllowed
  | endpointPathPolicyMismatch (required : ResourceEndpointPathPolicy)
  | configuredEndpointSetEmpty
  | configuredEndpointIdentityEmpty
  | configuredEndpointIdentityDuplicate
  | configuredEndpointSetTooLarge (endpointCount maxEndpoints : Nat)
  | configuredEndpointIdentityTooLong (identityBytes maxIdentityBytes : Nat)
  | configuredEndpointUserinfoNotAllowed
  | configuredEndpointNonCanonicalSyntax
  | configuredEndpointPolicyMismatch
  | configuredEndpointOriginMismatch
  | noMatchingConfiguredEndpoint
  | ambiguousConfiguredEndpoint
deriving DecidableEq, Repr

/-- A resource identifier with the endpoint that it was matched to. -/
structure CanonicalResourceId where
  url : CanonicalHttpUrl
  configuredEndpointIdentity : String
deriving DecidableEq, Repr

def endsWithSlash (path : String) : Bool := (bytes path).getLast? = some 0x2f

def endpointPathMatches (path : String) : ResourceEndpointPathPolicy → Bool
  | .nonRootWithoutTrailingSlash => path != "/" && !endsWithSlash path
  | .nonRootWithTrailingSlash => path != "/" && endsWithSlash path
  | .rootEndpoint => path == "/"

def containsPercentEncodedPathSeparator : Bytes → Bool
  | first :: second :: third :: rest =>
    first == percent && (second == 0x32 && (third == 0x66 || third == 0x46) ||
      second == 0x35 && (third == 0x63 || third == 0x43)) ||
        containsPercentEncodedPathSeparator (second :: third :: rest)
  | _ => false

/-- Whether the resource lies at the endpoint or beneath it, on a boundary of segments. -/
def endpointPathIsPrefixOfResource (endpointPath resourcePath : String) : Bool :=
  match stripPrefix (bytes endpointPath) (bytes resourcePath) with
  | none => false
  | some suffix =>
    (suffix.isEmpty || endsWithSlash endpointPath || suffix.head? == some 0x2f) &&
      !containsPercentEncodedPathSeparator suffix

def validateResourceCommon (parsed : CanonicalHttpUrl) :
    Except (CanonicalResourceIdError ParseError) Unit :=
  if parsed.syntaxFlags.credentials || parsed.hasUserinfo then .error .userinfoNotAllowed
  else if parsed.syntaxFlags.any then .error .nonCanonicalSyntax
  else if parsed.url.scheme ≠ "https" then .error .httpsRequired
  else if parsed.url.fragment.isSome then .error .fragmentNotAllowed
  else .ok ()

def validateResourcePolicy (parsed : CanonicalHttpUrl) (policy : CanonicalResourceIdPolicy) :
    Except (CanonicalResourceIdError ParseError) Unit :=
  if policy.query = .reject ∧ parsed.url.query.isSome then .error .queryNotAllowed
  else if endpointPathMatches parsed.url.path policy.endpointPath = false then
    .error (.endpointPathPolicyMismatch policy.endpointPath)
  else .ok ()

def canonicalOriginsMatch (left right : CanonicalHttpUrl) : Bool :=
  left.url.scheme == right.url.scheme && left.host == right.host &&
    left.effectivePort == right.effectivePort

/-! ## Configured endpoints -/

/-- Checks the identities one by one against the earlier ones. -/
def checkIdentities : List String → List ConfiguredResourceEndpoint →
    Except (CanonicalResourceIdError ParseError) Unit
  | _, [] => .ok ()
  | earlier, configured :: rest =>
    if configured.identity.isEmpty then .error .configuredEndpointIdentityEmpty
    else if configured.identity.utf8ByteSize > maxConfiguredResourceEndpointIdentityBytes then
      .error (.configuredEndpointIdentityTooLong configured.identity.utf8ByteSize
        maxConfiguredResourceEndpointIdentityBytes)
    else if earlier.contains configured.identity then .error .configuredEndpointIdentityDuplicate
    else checkIdentities (earlier ++ [configured.identity]) rest

def validateConfiguredEndpointIdentities (configuredEndpoints : List ConfiguredResourceEndpoint) :
    Except (CanonicalResourceIdError ParseError) Unit :=
  checkIdentities [] configuredEndpoints

def configuredEndpointMatchesPolicy (configured : ConfiguredResourceEndpoint) : Bool :=
  configured.endpoint.url.scheme == "https" && configured.endpoint.url.fragment.isNone &&
    (configured.resourcePolicy.query != .reject || configured.endpoint.url.query.isNone) &&
      endpointPathMatches configured.endpoint.url.path configured.resourcePolicy.endpointPath

def validateConfiguredEndpointPolicy (configured : ConfiguredResourceEndpoint) :
    Except (CanonicalResourceIdError ParseError) Unit :=
  if configured.endpoint.hasUserinfo || configured.endpoint.syntaxFlags.credentials then
    .error .configuredEndpointUserinfoNotAllowed
  else if configured.endpoint.syntaxFlags.any then .error .configuredEndpointNonCanonicalSyntax
  else if configuredEndpointMatchesPolicy configured = false then
    .error .configuredEndpointPolicyMismatch
  else .ok ()

def validateConfiguredEndpointPolicies (configuredEndpoints : List ConfiguredResourceEndpoint) :
    Except (CanonicalResourceIdError ParseError) Unit :=
  configuredEndpoints.forM validateConfiguredEndpointPolicy

/-! ## Selection -/

namespace CanonicalResourceId

/-- What is remembered about the policies of the endpoints with the right origin. -/
structure PolicyScan (ParseError : Type) where
  originCompatible : Bool := false
  policyAccepted : Bool := false
  resourceError : Option (CanonicalResourceIdError ParseError) := none

def PolicyScan.step (parsed : CanonicalHttpUrl) (scan : PolicyScan ParseError)
    (configured : ConfiguredResourceEndpoint) : PolicyScan ParseError :=
  if canonicalOriginsMatch parsed configured.endpoint then
    match validateResourcePolicy parsed configured.resourcePolicy with
    | .ok () => { scan with originCompatible := true, policyAccepted := true }
    | .error error =>
      { scan with originCompatible := true, resourceError := scan.resourceError.or (some error) }
  else scan

variable (parseUrl : String → Except ParseError (Url × UrlSyntaxFlags)) (input : String)
  (maxBytes : Nat)

def parseUnboundWithPolicyAndMaxBytes (policy : CanonicalResourceIdPolicy) :
    Except (CanonicalResourceIdError ParseError) CanonicalResourceId :=
  ((parseCanonicalHttpUrl parseUrl input maxBytes).mapError .httpUrl).bind fun parsed =>
    (validateResourceCommon parsed).bind fun _ =>
      (validateResourcePolicy parsed policy).map fun _ => ⟨parsed, ""⟩

/-- The endpoint selected so far and the length of its path. -/
structure Selection (ParseError : Type) extends PolicyScan ParseError where
  contest : Contest CanonicalResourceId := {}

def Selection.step (parsed : CanonicalHttpUrl) (selection : Selection ParseError)
    (configured : ConfiguredResourceEndpoint) : Selection ParseError :=
  if canonicalOriginsMatch parsed configured.endpoint then
    match parseUnboundWithPolicyAndMaxBytes parseUrl input maxBytes configured.resourcePolicy with
    | .error error =>
      { selection with
        originCompatible := true, resourceError := selection.resourceError.or (some error) }
    | .ok resource =>
      if resource.url.url.query ≠ configured.endpoint.url.query ∨
          endpointPathIsPrefixOfResource configured.endpoint.url.path resource.url.url.path =
            false then
        { selection with originCompatible := true, policyAccepted := true }
      else
        { selection with
          originCompatible := true
          policyAccepted := true
          contest := selection.contest.enter configured.endpoint.url.path.utf8ByteSize
            { resource with configuredEndpointIdentity := configured.identity } }
  else selection

/-- What the second pass returns. -/
def Selection.outcome (selection : Selection ParseError) :
    Except (CanonicalResourceIdError ParseError) CanonicalResourceId :=
  match selection.contest.selected with
  | some (_, resource) =>
    if selection.contest.tied.isSome then .error .ambiguousConfiguredEndpoint else .ok resource
  | none =>
    if selection.originCompatible then
      match selection.policyAccepted, selection.resourceError with
      | false, some error => .error error
      | _, _ => .error .noMatchingConfiguredEndpoint
    else .error .configuredEndpointOriginMismatch

/-- Fails if the origin is right but every policy refuses the resource itself. -/
def PolicyScan.check (scan : PolicyScan ParseError) :
    Except (CanonicalResourceIdError ParseError) Unit :=
  match scan.originCompatible, scan.policyAccepted, scan.resourceError with
  | true, false, some error => .error error
  | _, _, _ => .ok ()

def parseForConfiguredEndpointsWithMaxBytes
    (configuredEndpoints : List ConfiguredResourceEndpoint) :
    Except (CanonicalResourceIdError ParseError) CanonicalResourceId :=
  if configuredEndpoints.isEmpty then .error .configuredEndpointSetEmpty
  else if configuredEndpoints.length > maxConfiguredResourceEndpoints then
    .error (.configuredEndpointSetTooLarge configuredEndpoints.length
      maxConfiguredResourceEndpoints)
  else
    (validateConfiguredEndpointIdentities configuredEndpoints).bind fun _ =>
      ((parseCanonicalHttpUrl parseUrl input maxBytes).mapError .httpUrl).bind fun parsed =>
        (validateResourceCommon parsed).bind fun _ =>
          (configuredEndpoints.foldl (PolicyScan.step parsed) {}).check.bind fun _ =>
            (validateConfiguredEndpointPolicies configuredEndpoints).bind fun _ =>
              (configuredEndpoints.foldl
                (Selection.step parseUrl input maxBytes parsed) {}).outcome

end CanonicalResourceId

/-! ## What the checks mean -/

/-- A resource that is not refused for its own sake. -/
structure AdmissibleResource (parsed : CanonicalHttpUrl) : Prop where
  noCredentials : parsed.syntaxFlags.credentials = false
  noUserinfo : parsed.hasUserinfo = false
  noRepair : parsed.syntaxFlags.any = false
  https : parsed.url.scheme = "https"
  noFragment : parsed.url.fragment = none

/-- A URL that a policy allows. -/
structure PolicyAllows (policy : CanonicalResourceIdPolicy) (parsed : CanonicalHttpUrl) : Prop where
  query : policy.query = .reject → parsed.url.query = none
  path : endpointPathMatches parsed.url.path policy.endpointPath = true

/-- An endpoint to which resources may be bound. -/
structure ValidEndpoint (configured : ConfiguredResourceEndpoint) : Prop where
  admissible : AdmissibleResource configured.endpoint
  allowed : PolicyAllows configured.resourcePolicy configured.endpoint

/-- The checks of the list as a whole. -/
structure ValidEndpointList (configuredEndpoints : List ConfiguredResourceEndpoint) : Prop where
  nonempty : configuredEndpoints ≠ []
  short : configuredEndpoints.length ≤ maxConfiguredResourceEndpoints
  named : ∀ configured ∈ configuredEndpoints, configured.identity ≠ "" ∧
    configured.identity.utf8ByteSize ≤ maxConfiguredResourceEndpointIdentityBytes
  distinct : (configuredEndpoints.map ConfiguredResourceEndpoint.identity).Nodup

/-- The path of the resource continues the path of the endpoint at a boundary of segments. -/
def SegmentPrefix (endpointPath resourcePath : String) : Prop :=
  ∃ suffix, bytes resourcePath = bytes endpointPath ++ suffix ∧
    (suffix = [] ∨ (bytes endpointPath).getLast? = some 0x2f ∨ suffix.head? = some 0x2f) ∧
      containsPercentEncodedPathSeparator suffix = false

/-- The endpoint is one for the resource. -/
structure MatchesEndpoint (parsed : CanonicalHttpUrl) (configured : ConfiguredResourceEndpoint) :
    Prop where
  origin : canonicalOriginsMatch parsed configured.endpoint = true
  policy : PolicyAllows configured.resourcePolicy parsed
  query : parsed.url.query = configured.endpoint.url.query
  path : SegmentPrefix configured.endpoint.url.path parsed.url.path

variable {parsed : CanonicalHttpUrl} {configured : ConfiguredResourceEndpoint}

theorem validateResourceCommon_eq_ok :
    validateResourceCommon parsed = (.ok () : Except (CanonicalResourceIdError ParseError) Unit) ↔
      AdmissibleResource parsed := by
  unfold validateResourceCommon
  constructor
  · intro validated
    split at validated
    · contradiction
    split at validated
    · contradiction
    split at validated
    · contradiction
    split at validated
    · contradiction
    rename_i noCredentials noRepair https noFragment
    rw [Bool.not_eq_true, Bool.or_eq_false_iff] at noCredentials
    exact ⟨noCredentials.1, noCredentials.2, by simpa using noRepair, not_not.mp https,
      by simpa using noFragment⟩
  · rintro ⟨noCredentials, noUserinfo, noRepair, https, noFragment⟩
    simp [noCredentials, noUserinfo, noRepair, https, noFragment]

theorem validateResourcePolicy_eq_ok {policy : CanonicalResourceIdPolicy} :
    validateResourcePolicy parsed policy =
      (.ok () : Except (CanonicalResourceIdError ParseError) Unit) ↔
        PolicyAllows policy parsed := by
  unfold validateResourcePolicy
  constructor
  · intro validated
    split at validated
    · contradiction
    split at validated
    · contradiction
    rename_i query path
    exact ⟨fun rejects => by simpa [rejects] using query, by simpa using path⟩
  · rintro ⟨query, path⟩
    rw [if_neg, if_neg (by simp [path])]
    rintro ⟨rejects, present⟩
    simp [query rejects] at present

theorem validateConfiguredEndpointPolicy_eq_ok :
    validateConfiguredEndpointPolicy configured =
      (.ok () : Except (CanonicalResourceIdError ParseError) Unit) ↔ ValidEndpoint configured := by
  unfold validateConfiguredEndpointPolicy configuredEndpointMatchesPolicy
  constructor
  · intro validated
    split at validated
    · contradiction
    split at validated
    · contradiction
    split at validated
    · contradiction
    rename_i noUserinfo noRepair allowed
    rw [Bool.not_eq_true, Bool.or_eq_false_iff] at noUserinfo
    simp only [Bool.not_eq_false, Bool.and_eq_true, beq_iff_eq, Option.isNone_iff_eq_none,
      Bool.or_eq_true, bne_iff_ne] at allowed
    obtain ⟨⟨⟨https, noFragment⟩, query⟩, path⟩ := allowed
    exact ⟨⟨noUserinfo.2, noUserinfo.1, by simpa using noRepair, https, noFragment⟩,
      fun rejects => query.resolve_left (not_not.mpr rejects), path⟩
  · rintro ⟨⟨noCredentials, noUserinfo, noRepair, https, noFragment⟩, query, path⟩
    simp only [noCredentials, noUserinfo, noRepair, https, noFragment, path, Bool.or_false,
      Bool.false_eq_true, if_false]
    cases rejects : configured.resourcePolicy.query with
    | reject => simp [query rejects]
    | preserve => simp
    | resourceSignificant => simp

theorem checkIdentities_eq_ok {earlier : List String}
    {configuredEndpoints : List ConfiguredResourceEndpoint} :
    checkIdentities earlier configuredEndpoints =
      (.ok () : Except (CanonicalResourceIdError ParseError) Unit) ↔
        (∀ configured ∈ configuredEndpoints, configured.identity ≠ "" ∧
          configured.identity.utf8ByteSize ≤ maxConfiguredResourceEndpointIdentityBytes ∧
            configured.identity ∉ earlier) ∧
        (configuredEndpoints.map ConfiguredResourceEndpoint.identity).Nodup := by
  induction configuredEndpoints generalizing earlier with
  | nil => simp [checkIdentities]
  | cons first rest ih =>
    rw [checkIdentities]
    by_cases unnamed : first.identity = ""
    · simp [unnamed]
    by_cases tooLong : first.identity.utf8ByteSize > maxConfiguredResourceEndpointIdentityBytes
    · have refused : ¬ first.identity.utf8ByteSize ≤ maxConfiguredResourceEndpointIdentityBytes :=
        Nat.not_le.mpr tooLong
      simp [unnamed, tooLong, refused]
    by_cases duplicate : first.identity ∈ earlier
    · simp [unnamed, tooLong, duplicate]
    simp only [String.isEmpty_iff, unnamed, if_false, tooLong, List.contains_iff_mem, duplicate,
      ih, List.mem_append, List.mem_singleton, not_or, List.forall_mem_cons, List.map_cons,
      List.nodup_cons, List.mem_map, not_exists, not_and]
    constructor
    · rintro ⟨restNamed, restDistinct⟩
      refine ⟨⟨⟨unnamed, Nat.le_of_not_lt tooLong, not_false⟩, ?_⟩, ?_, restDistinct⟩
      · intro configured listed
        obtain ⟨named, short, fresh, -⟩ := restNamed configured listed
        exact ⟨named, short, fresh⟩
      · intro configured listed same
        exact (restNamed configured listed).2.2.2 same
    · rintro ⟨⟨-, restNamed⟩, fresh, restDistinct⟩
      refine ⟨fun configured listed => ?_, restDistinct⟩
      obtain ⟨named, short, notEarlier⟩ := restNamed configured listed
      exact ⟨named, short, notEarlier, fresh configured listed⟩

theorem ValidEndpointList.perm {configuredEndpoints permuted : List ConfiguredResourceEndpoint}
    (valid : ValidEndpointList configuredEndpoints) (same : configuredEndpoints.Perm permuted) :
    ValidEndpointList permuted := by
  constructor
  · intro empty
    rw [empty] at same
    exact valid.nonempty same.eq_nil
  · rw [← same.length_eq]
    exact valid.short
  · intro configured listed
    exact valid.named configured (same.symm.subset listed)
  · exact (same.map _).nodup_iff.mp valid.distinct

theorem endpointPathIsPrefixOfResource_iff {endpointPath resourcePath : String} :
    endpointPathIsPrefixOfResource endpointPath resourcePath = true ↔
      SegmentPrefix endpointPath resourcePath := by
  unfold endpointPathIsPrefixOfResource SegmentPrefix
  cases stripped : stripPrefix (bytes endpointPath) (bytes resourcePath) with
  | none =>
    simp only [Bool.false_eq_true, false_iff]
    rintro ⟨suffix, continued, -⟩
    rw [continued, stripPrefix_append] at stripped
    contradiction
  | some suffix =>
    have continued := stripPrefix_eq_some.mp stripped
    simp only [endsWithSlash, Bool.and_eq_true, Bool.or_eq_true, List.isEmpty_iff,
      decide_eq_true_eq, beq_iff_eq, Bool.not_eq_true', or_assoc]
    constructor
    · rintro ⟨boundary, plain⟩
      exact ⟨suffix, continued, boundary, plain⟩
    · rintro ⟨other, continuedToo, boundary, plain⟩
      rw [continued] at continuedToo
      rw [List.append_cancel_left continuedToo]
      exact ⟨boundary, plain⟩

namespace CanonicalResourceId

variable {parseUrl : String → Except ParseError (Url × UrlSyntaxFlags)} {input : String}
  {maxBytes : Nat} {configuredEndpoints : List ConfiguredResourceEndpoint}

/-! ## The two passes -/

theorem policyScan_accepted (scan : PolicyScan ParseError)
    (accepted : scan.policyAccepted = true ∨ ∃ configured ∈ configuredEndpoints,
      canonicalOriginsMatch parsed configured.endpoint = true ∧
        PolicyAllows configured.resourcePolicy parsed) :
    (configuredEndpoints.foldl (PolicyScan.step parsed) scan).policyAccepted = true := by
  induction configuredEndpoints generalizing scan with
  | nil => simpa using accepted
  | cons first rest ih =>
    apply ih
    rcases accepted with already | ⟨configured, listed, matched, allowed⟩
    · unfold PolicyScan.step
      split
      · split
        · exact .inl rfl
        · exact .inl already
      · exact .inl already
    · rcases List.mem_cons.mp listed with rfl | later
      · simp [PolicyScan.step, matched, validateResourcePolicy_eq_ok.mpr allowed]
      · exact .inr ⟨configured, later, matched, allowed⟩

open Classical in
/-- The endpoints that match, with the length of their paths and what they bind to. -/
noncomputable def entrants (parsed : CanonicalHttpUrl)
    (configuredEndpoints : List ConfiguredResourceEndpoint) : List (Nat × CanonicalResourceId) :=
  (configuredEndpoints.filter (MatchesEndpoint parsed ·)).map fun configured =>
    (configured.endpoint.url.path.utf8ByteSize, ⟨parsed, configured.identity⟩)

theorem parseUnbound_eq (parsedInput : parseCanonicalHttpUrl parseUrl input maxBytes = .ok parsed)
    (admissible : AdmissibleResource parsed) (policy : CanonicalResourceIdPolicy) :
    parseUnboundWithPolicyAndMaxBytes parseUrl input maxBytes policy =
      (validateResourcePolicy parsed policy).map fun _ => ⟨parsed, ""⟩ := by
  unfold parseUnboundWithPolicyAndMaxBytes
  rw [parsedInput]
  simp only [Except.mapError, Except.bind]
  rw [validateResourceCommon_eq_ok.mpr admissible]

open Classical in
/-- One endpoint enters the contest if it matches. -/
theorem selection_step_contest
    (parsedInput : parseCanonicalHttpUrl parseUrl input maxBytes = .ok parsed)
    (admissible : AdmissibleResource parsed) (selection : Selection ParseError) :
    (Selection.step parseUrl input maxBytes parsed selection configured).contest =
      if MatchesEndpoint parsed configured then
        selection.contest.enter configured.endpoint.url.path.utf8ByteSize
          ⟨parsed, configured.identity⟩
      else selection.contest := by
  unfold Selection.step
  rw [parseUnbound_eq parsedInput admissible]
  by_cases origin : canonicalOriginsMatch parsed configured.endpoint = true
  · rw [if_pos origin]
    cases validated : (validateResourcePolicy parsed configured.resourcePolicy :
        Except (CanonicalResourceIdError ParseError) Unit) with
    | error error =>
      rw [if_neg]
      · rfl
      · intro matched
        rw [validateResourcePolicy_eq_ok.mpr matched.policy] at validated
        contradiction
    | ok accepted =>
      have allowed := validateResourcePolicy_eq_ok.mp validated
      simp only [Except.map]
      split
      · rename_i apart
        rw [if_neg]
        intro matched
        rcases apart with otherQuery | elsewhere
        · exact otherQuery matched.query
        · rw [endpointPathIsPrefixOfResource_iff.mpr matched.path] at elsewhere
          contradiction
      · rename_i together
        rw [not_or, not_not, Bool.not_eq_false] at together
        rw [if_pos ⟨origin, allowed, together.1,
          endpointPathIsPrefixOfResource_iff.mp together.2⟩]
  · rw [if_neg origin, if_neg]
    intro matched
    exact origin matched.origin

theorem foldl_selection_reports
    (parsedInput : parseCanonicalHttpUrl parseUrl input maxBytes = .ok parsed)
    (admissible : AdmissibleResource parsed) {selection : Selection ParseError}
    {entered : List (Nat × CanonicalResourceId)} (reports : selection.contest.Reports entered) :
    (configuredEndpoints.foldl (Selection.step parseUrl input maxBytes parsed)
      selection).contest.Reports (entered ++ entrants parsed configuredEndpoints) := by
  induction configuredEndpoints generalizing selection entered with
  | nil => simpa [entrants] using reports
  | cons first rest ih =>
    rw [List.foldl_cons]
    by_cases matched : MatchesEndpoint parsed first
    · have next : entrants parsed (first :: rest) =
          (first.endpoint.url.path.utf8ByteSize, ⟨parsed, first.identity⟩) ::
            entrants parsed rest := by
        simp [entrants, matched]
      rw [next, List.append_cons]
      apply ih
      rw [selection_step_contest parsedInput admissible, if_pos matched]
      exact reports.enter _ _
    · have next : entrants parsed (first :: rest) = entrants parsed rest := by
        simp [entrants, matched]
      rw [next]
      apply ih
      rw [selection_step_contest parsedInput admissible, if_neg matched]
      exact reports

/-- After the second pass the contest is that of all matching endpoints. -/
theorem selection_reports
    (parsedInput : parseCanonicalHttpUrl parseUrl input maxBytes = .ok parsed)
    (admissible : AdmissibleResource parsed)
    (configuredEndpoints : List ConfiguredResourceEndpoint) :
    (configuredEndpoints.foldl (Selection.step parseUrl input maxBytes parsed) {}).contest.Reports
      (entrants parsed configuredEndpoints) := by
  rw [← List.nil_append (entrants parsed configuredEndpoints)]
  exact foldl_selection_reports parsedInput admissible Contest.reports_nothing

theorem outcome_eq_ok {selection : Selection ParseError} {resource : CanonicalResourceId} :
    selection.outcome = .ok resource ↔
      ∃ rank, selection.contest.selected = some (rank, resource) ∧
        selection.contest.tied = none := by
  unfold Selection.outcome
  cases selected : selection.contest.selected with
  | none =>
    simp only [reduceCtorEq, false_and, exists_false, iff_false]
    split
    · split <;> simp
    · simp
  | some best =>
    cases tied : selection.contest.tied with
    | none => simp [Prod.ext_iff]
    | some rank => simp

/-- The endpoint with the longest path among those that match, with no other of that length. -/
structure MostSpecific (parsed : CanonicalHttpUrl)
    (configuredEndpoints : List ConfiguredResourceEndpoint) (best : ConfiguredResourceEndpoint) :
    Prop where
  listed : best ∈ configuredEndpoints
  matched : MatchesEndpoint parsed best
  longest : ∀ other ∈ configuredEndpoints, other.identity ≠ best.identity →
    MatchesEndpoint parsed other →
      other.endpoint.url.path.utf8ByteSize < best.endpoint.url.path.utf8ByteSize

theorem strictMaximum_entrants {rank : Nat} {resource : CanonicalResourceId}
    (distinct : (configuredEndpoints.map ConfiguredResourceEndpoint.identity).Nodup) :
    StrictMaximum (entrants parsed configuredEndpoints) (rank, resource) ↔
      ∃ best, MostSpecific parsed configuredEndpoints best ∧
        rank = best.endpoint.url.path.utf8ByteSize ∧ resource = ⟨parsed, best.identity⟩ := by
  classical
  have stillDistinct : ((configuredEndpoints.filter (MatchesEndpoint parsed ·)).map
      ConfiguredResourceEndpoint.identity).Nodup :=
    (List.filter_sublist.map _).nodup distinct
  unfold entrants
  rw [strictMaximum_map stillDistinct]
  simp only [List.mem_filter, decide_eq_true_eq, Prod.mk.injEq]
  constructor
  · rintro ⟨best, ⟨listed, matched⟩, isBest, longest⟩
    refine ⟨best, ⟨listed, matched, fun other otherListed different otherMatched => ?_⟩, isBest⟩
    exact longest other ⟨otherListed, otherMatched⟩ different
  · rintro ⟨best, specific, isBest⟩
    refine ⟨best, ⟨specific.listed, specific.matched⟩, isBest, ?_⟩
    rintro other ⟨otherListed, otherMatched⟩ different
    exact specific.longest other otherListed different otherMatched

/-! ## The result -/

/-- Everything that a successful binding needs. -/
def Binds (parseUrl : String → Except ParseError (Url × UrlSyntaxFlags)) (input : String)
    (maxBytes : Nat) (configuredEndpoints : List ConfiguredResourceEndpoint)
    (resource : CanonicalResourceId) : Prop :=
  ValidEndpointList configuredEndpoints ∧
    ∃ parsed, parseCanonicalHttpUrl parseUrl input maxBytes = .ok parsed ∧
      AdmissibleResource parsed ∧ (∀ configured ∈ configuredEndpoints, ValidEndpoint configured) ∧
        ∃ best, MostSpecific parsed configuredEndpoints best ∧ resource = ⟨parsed, best.identity⟩

theorem parseForConfiguredEndpoints_eq_ok {resource : CanonicalResourceId} :
    parseForConfiguredEndpointsWithMaxBytes parseUrl input maxBytes configuredEndpoints =
      .ok resource ↔ Binds parseUrl input maxBytes configuredEndpoints resource := by
  unfold parseForConfiguredEndpointsWithMaxBytes Binds
  constructor
  · intro bound
    split at bound
    · contradiction
    split at bound
    · contradiction
    rename_i nonempty short
    obtain ⟨_, identities, bound⟩ := bind_eq_ok.mp bound
    obtain ⟨parsed, parsedInput, bound⟩ := bind_eq_ok.mp bound
    obtain ⟨_, common, bound⟩ := bind_eq_ok.mp bound
    obtain ⟨_, _, bound⟩ := bind_eq_ok.mp bound
    obtain ⟨_, policies, bound⟩ := bind_eq_ok.mp bound
    rw [mapError_eq_ok] at parsedInput
    have admissible := validateResourceCommon_eq_ok.mp common
    obtain ⟨named, distinct⟩ := checkIdentities_eq_ok.mp identities
    have reports := selection_reports parsedInput admissible configuredEndpoints
    obtain ⟨rank, winner⟩ := outcome_eq_ok.mp bound
    obtain ⟨best, specific, -, isBest⟩ :=
      (strictMaximum_entrants distinct).mp (reports.winner.mp winner)
    refine ⟨⟨by simpa using nonempty, Nat.le_of_not_lt short, ?_, distinct⟩, parsed, parsedInput,
      admissible, ?_, best, specific, isBest⟩
    · intro configured listed
      exact ⟨(named configured listed).1, (named configured listed).2.1⟩
    · intro configured listed
      exact validateConfiguredEndpointPolicy_eq_ok.mp (forM_eq_ok.mp policies configured listed)
  · rintro ⟨valid, parsed, parsedInput, admissible, policies, best, specific, rfl⟩
    have identities : checkIdentities [] configuredEndpoints =
        (.ok () : Except (CanonicalResourceIdError ParseError) Unit) := by
      rw [checkIdentities_eq_ok]
      refine ⟨fun configured listed => ?_, valid.distinct⟩
      obtain ⟨named, short⟩ := valid.named configured listed
      exact ⟨named, short, List.not_mem_nil⟩
    have scanned : (configuredEndpoints.foldl (PolicyScan.step parsed)
        ({} : PolicyScan ParseError)).check = .ok () := by
      have accepted := policyScan_accepted ({} : PolicyScan ParseError) (.inr
        ⟨best, specific.listed, specific.matched.origin, specific.matched.policy⟩)
      unfold PolicyScan.check
      rw [accepted]
      split
      · contradiction
      · rfl
    have validated : validateConfiguredEndpointPolicies configuredEndpoints =
        (.ok () : Except (CanonicalResourceIdError ParseError) Unit) := by
      apply forM_eq_ok.mpr
      intro configured listed
      exact validateConfiguredEndpointPolicy_eq_ok.mpr (policies configured listed)
    have reports := selection_reports parsedInput admissible configuredEndpoints
    have winner := reports.winner.mpr
      ((strictMaximum_entrants valid.distinct).mpr ⟨best, specific, rfl, rfl⟩)
    rw [if_neg (by simpa using valid.nonempty), if_neg (Nat.not_lt.mpr valid.short),
      validateConfiguredEndpointIdentities, identities, parsedInput]
    simp only [Except.bind, Except.mapError, validateResourceCommon_eq_ok.mpr admissible, scanned,
      validated]
    exact outcome_eq_ok.mpr ⟨_, winner⟩

theorem Binds.perm {permuted : List ConfiguredResourceEndpoint} {resource : CanonicalResourceId}
    (bound : Binds parseUrl input maxBytes configuredEndpoints resource)
    (same : configuredEndpoints.Perm permuted) :
    Binds parseUrl input maxBytes permuted resource := by
  obtain ⟨valid, parsed, parsedInput, admissible, policies, best, specific, isBest⟩ := bound
  refine ⟨valid.perm same, parsed, parsedInput, admissible, ?_, best, ?_, isBest⟩
  · intro configured listed
    exact policies configured (same.symm.subset listed)
  · constructor
    · exact same.subset specific.listed
    · exact specific.matched
    · intro other listed
      exact specific.longest other (same.symm.subset listed)

/-- A resource is bound to the unique most specific endpoint, whatever the order of the
endpoints. -/
theorem parseForConfiguredEndpoints_mostSpecific
    (parseUrl : String → Except ParseError (Url × UrlSyntaxFlags)) (input : String)
    (maxBytes : Nat) (configuredEndpoints : List ConfiguredResourceEndpoint) :
    (∀ resource,
      parseForConfiguredEndpointsWithMaxBytes parseUrl input maxBytes configuredEndpoints =
        .ok resource ↔
      ValidEndpointList configuredEndpoints ∧
        ∃ parsed, parseCanonicalHttpUrl parseUrl input maxBytes = .ok parsed ∧
          AdmissibleResource parsed ∧
          (∀ configured ∈ configuredEndpoints, ValidEndpoint configured) ∧
          ∃ best, MostSpecific parsed configuredEndpoints best ∧
            resource = ⟨parsed, best.identity⟩) ∧
    ∀ permuted, configuredEndpoints.Perm permuted → ∀ resource,
      parseForConfiguredEndpointsWithMaxBytes parseUrl input maxBytes configuredEndpoints =
        .ok resource ↔
      parseForConfiguredEndpointsWithMaxBytes parseUrl input maxBytes permuted = .ok resource := by
  use fun resource => parseForConfiguredEndpoints_eq_ok
  intro permuted same resource
  rw [parseForConfiguredEndpoints_eq_ok, parseForConfiguredEndpoints_eq_ok]
  exact ⟨fun bound => bound.perm same, fun bound => bound.perm same.symm⟩

end CanonicalResourceId

end FastMcp.Uri
