import FastMcp.ByteRecords
import FastMcp.ByteText
import FastMcp.IntegerText
import FastMcp.MachineWords
import FastMcp.Outcomes
import Mathlib.Data.Finset.Card

/-! # Clients and configuration of the authorization server

What the authorization server checks before it looks at its state: the bounds
of its configuration, the metadata of a client that registers, redirect
addresses, scopes and opaque credentials. Hashing, base64 and the parsing of
addresses belong to outside libraries.
-/

namespace FastMcp.OAuth

open ByteRecords ByteText IntegerText MachineWords Outcomes

/-! ## Outside libraries -/

inductive Host where
  | domain (name : String)
  | ipv4 (address : BitVec 32)
  | ipv6 (address : BitVec 128)
deriving DecidableEq

/-- What the parser of addresses returns. -/
structure Url where
  text : String
  scheme : String
  cannotBeABase : Bool
  hasAuthority : Bool
  host : Option Host
  username : String
  password : Option String
  query : Option String
  fragment : Option String

/-- The outside libraries. `firstFormName` is the decoded name of the first pair of a
form-encoded text. -/
structure Library where
  sha256 : List UInt8 → Block 32
  base64UrlEncode : List UInt8 → String
  base64UrlDecode : String → Option (List UInt8)
  parseUrl : String → Option Url
  firstFormName : String → Option String

/-! ## Errors -/

inductive OAuthError where
  | invalidRequest (description : String)
  | invalidClient (description : String)
  | invalidGrant (description : String)
  | unsupportedGrantType (description : String)
  | invalidScope (description : String)
  | serverError (description : String)
  | temporarilyUnavailable (description : String)
  | accessDenied (description : String)
  | unsupportedResponseType (description : String)
deriving DecidableEq, Repr

abbrev Fallible := Except OAuthError

def capacityError (resource : String) : OAuthError :=
  .temporarilyUnavailable ("OAuth " ++ resource ++ " capacity has been reached")

def invalidGrantError : OAuthError :=
  .invalidGrant "OAuth grant is invalid"

def clientNotFound : OAuthError :=
  .invalidClient "OAuth client not found"

def clientAuthenticationError : OAuthError :=
  .invalidClient "client authentication failed"

def collisionError : OAuthError :=
  .serverError "generated OAuth credential collided with retained state"

def ensureCapacity (globalCount clientCount globalLimit clientLimit : Nat) (resource : String) :
    Fallible Unit :=
  require (¬ (globalCount ≥ globalLimit ∨ clientCount ≥ clientLimit)) (capacityError resource)

/-! ## Addresses -/

def hasControl (text : String) : Bool :=
  text.toList.any isControl

def containsUnsafeDisplayCharacter (value : String) : Bool :=
  value.toList.any fun character => isControl character ||
    character.toNat == 0x061c || character.toNat == 0x200e || character.toNat == 0x200f ||
    (0x2028 ≤ character.toNat && character.toNat ≤ 0x202e) ||
    (0x2066 ≤ character.toNat && character.toNat ≤ 0x206f)

def endsAuthority (character : Char) : Bool :=
  character == '/' || character == '?' || character == '#'

def rawUrlAuthority (value : List Char) : Option (List Char) :=
  (findSlice "://".toList value).map fun start =>
    (value.drop (start + 3)).takeWhile fun character => !endsAuthority character

def rawUrlAuthorityHasUserinfo (value : List Char) : Bool :=
  (rawUrlAuthority value).any fun authority => authority.contains '@'

def loopbackHosts : List (List Char) :=
  ["127.0.0.1".toList, "[::1]".toList]

/-- The loopback host of an authority, whose port must be written canonically. -/
def loopbackAuthorityAmong (authority : List Char) : List (List Char) → Option (List Char)
  | [] => none
  | host :: hosts =>
    if authority = host then some host
    else
      match (stripPrefix host authority).bind (stripPrefix [':']) with
      | some port =>
        if port = [] ∨ !port.all isAsciiDigit ∨ (port.length > 1 ∧ port.head? = some '0') ∨
            (parseUnsigned 10 65535 port).isNone then none
        else some host
      | none => loopbackAuthorityAmong authority hosts

def parseCanonicalLoopbackAuthority (authority : List Char) : Option (List Char) :=
  loopbackAuthorityAmong authority loopbackHosts

def rawLoopbackRedirectParts (value : List Char) : Option (List Char × List Char) := do
  let afterScheme ← stripPrefix "http://".toList value
  let host ← parseCanonicalLoopbackAuthority (afterScheme.takeWhile fun c => !endsAuthority c)
  some (host, afterScheme.dropWhile fun c => !endsAuthority c)

def isLiteralLoopbackHost (url : Url) : Bool :=
  match url.host with
  | some (.ipv4 address) => address == 0x7f000001
  | some (.ipv6 address) => address == 1
  | some (.domain _) => false
  | none => false

def parsedUrlHasCredentials (url : Url) : Bool :=
  url.username ≠ "" || url.password.isSome

def parseSecureEndpoint (library : Library) (value : String) (maxBytes : Nat) : Option Url :=
  if value = "" ∨ value.utf8ByteSize > maxBytes ∨ hasControl value ∨
      rawUrlAuthorityHasUserinfo value.toList then none
  else
    (library.parseUrl value).bind fun url =>
      if url.cannotBeABase ∨ url.host.isNone ∨ parsedUrlHasCredentials url ∨
          url.fragment.isSome ∨ url.text ≠ value then none
      else if url.scheme = "https" then some url
      else if url.scheme = "http" ∧ isLiteralLoopbackHost url ∧
          ((rawUrlAuthority value.toList).bind parseCanonicalLoopbackAuthority).isSome then some url
      else none

def maxOauthIssuerBytes : Nat := 2048

def validateOauthIssuer (library : Library) (issuer : String) : Fallible Unit :=
  require ((parseSecureEndpoint library issuer maxOauthIssuerBytes).any fun url =>
    url.scheme = "https" && url.query.isNone)
    (.serverError "OAuth issuer URL is invalid or outside retained-value bounds")

def reservedResponseParameters : List String :=
  ["code", "state", "error", "error_description", "error_uri", "iss"]

/-- Whether a query names a parameter of the authorization response. -/
def hasReservedResponseParameter (library : Library) (query : String) : Bool :=
  (query.toList.splitOnP fun c => c == '&' || c == ';').any fun field =>
    (library.firstFormName (String.ofList (field.takeWhile (· ≠ '=')))).any
      reservedResponseParameters.contains

def parseRedirectUri (library : Library) (uri : String) : Option Url :=
  (parseSecureEndpoint library uri 2048).filter fun url =>
    !url.query.any (hasReservedResponseParameter library)

def loopbackRedirectMatch (registered candidate : String) : Bool :=
  match rawLoopbackRedirectParts registered.toList, rawLoopbackRedirectParts candidate.toList with
  | some registered, some candidate => registered = candidate
  | _, _ => false

def validateRegisteredRedirectUri (library : Library) (redirectUris : List String)
    (uri : String) : Bool :=
  (parseRedirectUri library uri).any fun candidate =>
    redirectUris.any fun allowed =>
      (parseRedirectUri library allowed).any fun registered =>
        allowed = uri || (registered.scheme = "http" && candidate.scheme = "http" &&
          loopbackRedirectMatch allowed uri)

/-! ## Values of requests -/

def maxOauthClientIdBytes : Nat := 256

def maxOauthClientCredentialBytes : Nat := 1024

def maxOauthScopesPerClient : Nat := 64

def validateOptionalAuthorizationValue (value : Option String) (maxBytes : Nat) (error : String) :
    Fallible Unit :=
  require (!value.any fun value => decide (value.utf8ByteSize > maxBytes) || hasControl value)
    (.invalidRequest error)

def resourceRetentionError : String :=
  "OAuth authorization resource is invalid or outside retention bounds"

def validateOptionalAuthorizationResource (library : Library) (resource : Option String) :
    Fallible Unit := do
  validateOptionalAuthorizationValue resource 2048 resourceRetentionError
  match resource with
  | none => pure ()
  | some resource =>
    let url ← orFail (.invalidRequest resourceRetentionError) (library.parseUrl resource)
    require (¬ (url.cannotBeABase ∨ url.hasAuthority ∧ url.host.isNone))
      (.invalidRequest resourceRetentionError)

def isScopeByte (byte : UInt8) : Bool :=
  byte == 0x21 || (0x23 ≤ byte && byte ≤ 0x5b) || (0x5d ≤ byte && byte ≤ 0x7e)

def isValidOauthScopeToken (scope : String) : Bool :=
  scope ≠ "" && scope.utf8ByteSize ≤ 256 && (bytes scope).all isScopeByte

/-- The requested scopes, each once in the order of its first occurrence. -/
def firstOccurrences (seen : List String) : List String → List String
  | [] => []
  | scope :: scopes =>
    if scope ∈ seen then firstOccurrences seen scopes
    else scope :: firstOccurrences (scope :: seen) scopes

def canonicalizeRequestScopes (scopes : List String) : Fallible (List String) := do
  require (scopes.length ≤ maxOauthScopesPerClient)
    (.invalidScope "OAuth request scope count exceeds retention bounds")
  require (scopes.all isValidOauthScopeToken)
    (.invalidScope "OAuth request scope is invalid or outside bounds")
  pure (firstOccurrences [] scopes)

def validateClientIdAdmission (clientId : String) : Fallible Unit :=
  require (¬ (clientId = "" ∨ clientId.utf8ByteSize > maxOauthClientIdBytes ∨ hasControl clientId))
    clientAuthenticationError

def validateClientAuthenticationAdmission (clientId : String) (clientSecret : Option String) :
    Fallible Unit := do
  validateClientIdAdmission clientId
  require (!clientSecret.any fun secret =>
    decide (secret.utf8ByteSize > maxOauthClientCredentialBytes)) clientAuthenticationError

/-! ## Credentials -/

inductive CredentialKind where
  | authorizationCode
  | accessToken
  | refreshToken
deriving DecidableEq

def CredentialKind.domain : CredentialKind → List UInt8
  | .authorizationCode => bytes "fastmcp:oauth:authorization-code:v1\x00"
  | .accessToken => bytes "fastmcp:oauth:access-token:v1\x00"
  | .refreshToken => bytes "fastmcp:oauth:refresh-token:v1\x00"

abbrev CredentialDigest := Block 32

abbrev OAuthGrantId := Block 32

abbrev OAuthRegistrationEpoch := Block 32

def oauthOpaqueCredentialBytes : Nat := 43

/-- The length of the text is checked before this, so the bound of the hash always holds. -/
def framedCredential (kind : CredentialKind) (value : String) : List UInt8 :=
  kind.domain ++ bytes value

/-- The digest of a credential of the right length. -/
def credentialDigest (library : Library) (kind : CredentialKind) (value : String) :
    CredentialDigest :=
  library.sha256 (framedCredential kind value)

def digestCredential (library : Library) (kind : CredentialKind) (value : String) :
    Fallible CredentialDigest := do
  require (value.utf8ByteSize = oauthOpaqueCredentialBytes)
    (.invalidGrant "OAuth credential is outside admitted bounds")
  pure (credentialDigest library kind value)

def validateOpaqueCredential (library : Library) (value error : String) : Fallible Unit := do
  require (value.utf8ByteSize = oauthOpaqueCredentialBytes) (.invalidGrant error)
  let decoded ← orFail (.invalidGrant error) (library.base64UrlDecode value)
  require (decoded.length = 32 ∧ library.base64UrlEncode decoded = value) (.invalidGrant error)

def validateAndDigestOpaqueCredential (library : Library) (kind : CredentialKind)
    (value error : String) : Fallible CredentialDigest := do
  validateOpaqueCredential library value error
  digestCredential library kind value

def framedGrant (authorizationCode : CredentialDigest) : List UInt8 :=
  bytes "fastmcp:oauth:authorization-grant-id:v1\x00" ++ authorizationCode.bytes

def deriveAuthorizationGrantId (library : Library) (authorizationCode : CredentialDigest) :
    OAuthGrantId :=
  library.sha256 (framedGrant authorizationCode)

/-- A draw of the security identifier library, or its error text. -/
abbrev Draw := Except String (Block 32)

def generateToken (library : Library) (draw : Draw) : Fallible String :=
  (draw.mapError .serverError).map fun identifier => library.base64UrlEncode identifier.bytes

/-! ## PKCE -/

def pkceCodeVerifierMinBytes : Nat := 43

def pkceCodeVerifierMaxBytes : Nat := 128

def pkceGrammarError : OAuthError :=
  .invalidRequest "code_verifier must be 43 to 128 bytes of RFC 7636 unreserved ASCII"

def isUnreservedByte (byte : UInt8) : Bool :=
  (0x30 ≤ byte && byte ≤ 0x39) || (0x41 ≤ byte && byte ≤ 0x5a) || (0x61 ≤ byte && byte ≤ 0x7a) ||
    byte == 0x2d || byte == 0x2e || byte == 0x5f || byte == 0x7e

def validatePkceCodeVerifier (verifier : String) : Fallible Unit := do
  require (pkceCodeVerifierMinBytes ≤ verifier.utf8ByteSize ∧
    verifier.utf8ByteSize ≤ pkceCodeVerifierMaxBytes) pkceGrammarError
  require ((bytes verifier).all isUnreservedByte) pkceGrammarError

def computeS256Challenge (library : Library) (verifier : String) : Fallible String := do
  validatePkceCodeVerifier verifier
  pure (library.base64UrlEncode (library.sha256 (bytes verifier)).bytes)

def validateS256CodeChallenge (library : Library) (challenge : String) : Fallible Unit := do
  let error := OAuthError.invalidRequest "code_challenge must be a canonical S256 challenge"
  require (challenge.utf8ByteSize = 43) error
  let decoded ← orFail error (library.base64UrlDecode challenge)
  require (decoded.length = 32 ∧ library.base64UrlEncode decoded = challenge) error

inductive CodeChallengeMethod where
  | plain
  | s256
deriving DecidableEq, Repr

/-! ## Configuration -/

/-- Durations and instants are in nanoseconds. -/
structure OAuthServerConfig where
  issuer : String
  accessTokenLifetime : Nat
  refreshTokenLifetime : Nat
  authorizationCodeLifetime : Nat
  allowPublicClients : Bool
  minCodeVerifierLength : Nat
  maxCodeVerifierLength : Nat
  maxClients : Nat
  maxAuthorizationCodes : Nat
  maxAuthorizationCodesPerClient : Nat
  maxAccessTokens : Nat
  maxAccessTokensPerClient : Nat
  maxRefreshTokens : Nat
  maxRefreshTokensPerClient : Nat
  maxRevocationTombstones : Nat
  maxRevocationTombstonesPerClient : Nat

def seconds (count : Nat) : Nat := count * 10 ^ 9

def checkedDeadline (latestInstant now lifetime : Nat) (field : String) : Fallible Nat :=
  orFail (.serverError ("OAuth configuration lifetime `" ++ field ++
    "` exceeds monotonic-clock range")) (checkedAdd latestInstant now lifetime)

def validateLifetime (lifetime minimum maximum : Nat) (field : String) : Fallible Unit :=
  require (minimum ≤ lifetime ∧ lifetime ≤ maximum)
    (.serverError ("OAuth configuration lifetime `" ++ field ++ "` must be at least " ++
      toString (minimum / 10 ^ 9) ++ " seconds and no greater than " ++
      toString (maximum / 10 ^ 9) ++ " seconds"))

namespace OAuthServerConfig

instance : Inhabited OAuthServerConfig where
  default := {
    issuer := "https://fastmcp.invalid/"
    accessTokenLifetime := seconds (15 * 60)
    refreshTokenLifetime := seconds (720 * 3600)
    authorizationCodeLifetime := seconds (5 * 60)
    allowPublicClients := true
    minCodeVerifierLength := pkceCodeVerifierMinBytes
    maxCodeVerifierLength := pkceCodeVerifierMaxBytes
    maxClients := 1024
    maxAuthorizationCodes := 16 * 1024
    maxAuthorizationCodesPerClient := 64
    maxAccessTokens := 64 * 1024
    maxAccessTokensPerClient := 256
    maxRefreshTokens := 16 * 1024
    maxRefreshTokensPerClient := 64
    maxRevocationTombstones := 64 * 1024
    maxRevocationTombstonesPerClient := 256 }

/-- The limits with their names and hard ceilings. -/
def limits (config : OAuthServerConfig) : List (String × Nat × Nat) :=
  [("max_clients", config.maxClients, 4 * 1024),
    ("max_authorization_codes", config.maxAuthorizationCodes, 2 * (16 * 1024)),
    ("max_authorization_codes_per_client", config.maxAuthorizationCodesPerClient, 4 * 64),
    ("max_access_tokens", config.maxAccessTokens, 2 * (64 * 1024)),
    ("max_access_tokens_per_client", config.maxAccessTokensPerClient, 4 * 256),
    ("max_refresh_tokens", config.maxRefreshTokens, 2 * (16 * 1024)),
    ("max_refresh_tokens_per_client", config.maxRefreshTokensPerClient, 4 * 64),
    ("max_revocation_tombstones", config.maxRevocationTombstones, 2 * (64 * 1024)),
    ("max_revocation_tombstones_per_client", config.maxRevocationTombstonesPerClient, 4 * 256)]

def checkLimit (limit : String × Nat × Nat) : Fallible Unit :=
  require (1 ≤ limit.2.1 ∧ limit.2.1 ≤ limit.2.2)
    (.serverError ("OAuth configuration limit `" ++ limit.1 ++
      "` must be between 1 and its hard ceiling of " ++ toString limit.2.2))

def checkedGlobalRetentionLimit (config : OAuthServerConfig) : Fallible Nat :=
  [config.maxClients, config.maxAuthorizationCodes, config.maxAccessTokens,
    config.maxRefreshTokens, config.maxRevocationTombstones].foldlM (fun total limit =>
      orFail (.serverError "OAuth aggregate retained-state limit is not representable")
        (checkedAdd usizeMax total limit)) 0

def hardMaxOauthRetainedEntries : Nat := 256 * 1024

/-- The limits of one client with the global ones. -/
def pairedLimits (config : OAuthServerConfig) : List (String × Nat × String × Nat) :=
  [("max_authorization_codes", config.maxAuthorizationCodes,
      "max_authorization_codes_per_client", config.maxAuthorizationCodesPerClient),
    ("max_access_tokens", config.maxAccessTokens,
      "max_access_tokens_per_client", config.maxAccessTokensPerClient),
    ("max_refresh_tokens", config.maxRefreshTokens,
      "max_refresh_tokens_per_client", config.maxRefreshTokensPerClient),
    ("max_revocation_tombstones", config.maxRevocationTombstones,
      "max_revocation_tombstones_per_client", config.maxRevocationTombstonesPerClient)]

def checkPair (pair : String × Nat × String × Nat) : Fallible Unit :=
  require (pair.2.2.2 ≤ pair.2.1)
    (.serverError ("OAuth configuration limit `" ++ pair.2.2.1 ++ "` must not exceed `" ++
      pair.1 ++ "`"))

/-- The check of a configuration, with the clock reading it makes. -/
def validate (library : Library) (latestInstant : Nat) (config : OAuthServerConfig) (now : Nat) :
    Fallible Unit := do
  validateOauthIssuer library config.issuer
  require ((pkceCodeVerifierMinBytes ≤ config.minCodeVerifierLength ∧
      config.minCodeVerifierLength ≤ pkceCodeVerifierMaxBytes) ∧
    (pkceCodeVerifierMinBytes ≤ config.maxCodeVerifierLength ∧
      config.maxCodeVerifierLength ≤ pkceCodeVerifierMaxBytes) ∧
    config.minCodeVerifierLength ≤ config.maxCodeVerifierLength)
    (.serverError ("OAuth configuration PKCE verifier bounds must satisfy 43 <= " ++
      "min_code_verifier_length <= max_code_verifier_length <= 128"))
  config.limits.forM checkLimit
  let retainedEntries ← config.checkedGlobalRetentionLimit
  require (retainedEntries ≤ hardMaxOauthRetainedEntries)
    (.serverError ("OAuth aggregate retained-state limit " ++ toString retainedEntries ++
      " exceeds hard ceiling " ++ toString hardMaxOauthRetainedEntries))
  config.pairedLimits.forM checkPair
  validateLifetime config.accessTokenLifetime (seconds 1) (seconds (24 * 3600))
    "access_token_lifetime"
  validateLifetime config.refreshTokenLifetime (seconds 1) (seconds (8760 * 3600))
    "refresh_token_lifetime"
  validateLifetime config.authorizationCodeLifetime (seconds 1) (seconds (10 * 60))
    "authorization_code_lifetime"
  require (config.accessTokenLifetime ≤ config.refreshTokenLifetime)
    (.serverError ("OAuth configuration `refresh_token_lifetime` must not be shorter than " ++
      "`access_token_lifetime`"))
  let _ ← checkedDeadline latestInstant now config.accessTokenLifetime "access_token_lifetime"
  let _ ← checkedDeadline latestInstant now config.refreshTokenLifetime "refresh_token_lifetime"
  let _ ← checkedDeadline latestInstant now config.authorizationCodeLifetime
    "authorization_code_lifetime"
  pure ()

end OAuthServerConfig

/-! ## Clients -/

inductive ClientType where
  | confidential
  | publicClient
deriving DecidableEq, Repr

/-- A client as it registers. -/
structure OAuthClient where
  clientId : String
  clientSecret : Option (List UInt8)
  clientType : ClientType
  redirectUris : List String
  allowedScopes : Finset String
  name : Option String
  description : Option String

def credentialClassIsConsistent (client : OAuthClient) : Bool :=
  match client.clientType, client.clientSecret.isSome with
  | .publicClient, false => true
  | .confidential, true => true
  | _, _ => false

def OAuthClient.validateForRetention (library : Library) (client : OAuthClient) :
    Fallible Unit := do
  require (¬ (client.clientId = "" ∨ client.clientId.utf8ByteSize > maxOauthClientIdBytes ∨
      hasControl client.clientId))
    (.invalidRequest "OAuth client_id is outside retained-value bounds")
  require (!client.clientSecret.any fun credential =>
      credential.isEmpty || decide (credential.length > maxOauthClientCredentialBytes))
    (.invalidRequest "OAuth client credential is outside retained-value bounds")
  require (credentialClassIsConsistent client)
    (.invalidRequest "OAuth client credential classification is inconsistent")
  require (client.redirectUris ≠ [])
    (.invalidRequest "OAuth client requires at least one redirect URI")
  require (client.redirectUris.length ≤ 16)
    (.invalidRequest "OAuth client redirect URI count exceeds retention bounds")
  require (client.redirectUris.all fun uri => (parseRedirectUri library uri).isSome)
    (.invalidRequest "OAuth client redirect URI is outside retained-value bounds")
  require (client.allowedScopes.card ≤ maxOauthScopesPerClient)
    (.invalidRequest "OAuth client scope count exceeds retention bounds")
  require (∀ scope ∈ client.allowedScopes, isValidOauthScopeToken scope)
    (.invalidRequest "OAuth client scope is outside retained-value bounds")
  require (!client.name.any fun name =>
      decide (name.utf8ByteSize > 256) || containsUnsafeDisplayCharacter name)
    (.invalidRequest "OAuth client name is invalid or outside retention bounds")
  require (!client.description.any fun description =>
      decide (description.utf8ByteSize > 4096) || containsUnsafeDisplayCharacter description)
    (.invalidRequest "OAuth client description is invalid or outside retention bounds")

/-- The salted verifier that is retained instead of a secret. -/
structure ClientSecretVerifier where
  salt : Block 32
  digest : Block 32

def clientSecretDigest (library : Library) (salt : Block 32) (secret : List UInt8) :
    Fallible (Block 32) := do
  require (secret.length ≤ maxOauthClientCredentialBytes) clientAuthenticationError
  pure (library.sha256 (bytes "fastmcp:oauth:client-secret:v1\x00" ++ salt.bytes ++ secret))

def ClientSecretVerifier.verify (library : Library) (verifier : ClientSecretVerifier)
    (provided : List UInt8) : Bool :=
  match clientSecretDigest library verifier.salt provided with
  | .ok digest => verifier.digest = digest
  | .error _ => false

/-- The verifier of a secret, if there is one, under a salt that is drawn for it. -/
def ClientSecretVerifier.create (library : Library) (salt : Draw) :
    Option (List UInt8) → Fallible (Option ClientSecretVerifier)
  | none => pure none
  | some secret => do
    let salt ← salt.mapError .serverError
    let digest ← clientSecretDigest library salt secret
    pure (some ⟨salt, digest⟩)

/-- A client as the server keeps it. The secret is kept as a verifier only. -/
structure RegisteredOAuthClient where
  clientType : ClientType
  redirectUris : List String
  allowedScopes : Finset String
  secretVerifier : Option ClientSecretVerifier
  registrationEpoch : OAuthRegistrationEpoch

namespace RegisteredOAuthClient

/-- The retained form of a client. -/
def fromRegistration (library : Library) (client : OAuthClient)
    (registrationEpoch : OAuthRegistrationEpoch) (salt : Draw) : Fallible RegisteredOAuthClient := do
  client.validateForRetention library
  let secretVerifier ← ClientSecretVerifier.create library salt client.clientSecret
  pure ⟨client.clientType, client.redirectUris, client.allowedScopes, secretVerifier,
    registrationEpoch⟩

def validateRedirectUri (library : Library) (client : RegisteredOAuthClient) (uri : String) :
    Bool :=
  validateRegisteredRedirectUri library client.redirectUris uri

def validateScopes (client : RegisteredOAuthClient) (scopes : List String) : Bool :=
  scopes.all (· ∈ client.allowedScopes)

def authenticate (library : Library) (client : RegisteredOAuthClient)
    (provided : Option String) : Bool :=
  match client.secretVerifier, provided with
  | some verifier, some secret => verifier.verify library (bytes secret)
  | some _, none => false
  | none, none => client.clientType = .publicClient
  | none, some _ => false

end RegisteredOAuthClient

end FastMcp.OAuth
