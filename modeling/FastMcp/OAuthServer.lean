import FastMcp.OAuthClients
import Mathlib.Data.List.MinMax
import Mathlib.Data.List.Sort
import Mathlib.Data.Prod.Lex
import Std.Data.ExtTreeMap

/-! # The authorization server

The server keeps its clients, authorization codes, tokens and revocation
markers behind one lock. An operation here takes the state that its read
section saw, if it has one, and the state in which its write section runs, so
that other operations may come between the two. Credentials are retained by
their digests only. A successful token operation returns the pair of tokens it
prepared, from which its response is read.
-/

namespace FastMcp.OAuth

open ByteRecords ByteText MachineWords Outcomes

/-! ## State -/

/-- A code with everything that its exchange is checked against. -/
structure AuthorizationCode where
  clientId : String
  redirectUri : String
  scopes : List String
  resource : Option String
  codeChallenge : String
  codeChallengeMethod : CodeChallengeMethod
  issuedAt : Nat
  expiresAt : Nat
  subject : Option String
  state : Option String
  registrationEpoch : OAuthRegistrationEpoch
deriving DecidableEq

def AuthorizationCode.validateCodeVerifier (library : Library) (code : AuthorizationCode)
    (verifier : String) : Bool :=
  match code.codeChallengeMethod, computeS256Challenge library verifier with
  | .s256, .ok computed => code.codeChallenge = computed
  | _, _ => false

/-- A token as a caller sees it. -/
structure OAuthToken where
  clientId : String
  scopes : List String
  resource : Option String
  issuedAt : Nat
  expiresAt : Nat
  subject : Option String
  isRefreshToken : Bool
deriving DecidableEq

/-- A retained token with its family, whose deadline does not move. -/
structure StoredOAuthToken extends OAuthToken where
  grantId : OAuthGrantId
  registrationEpoch : OAuthRegistrationEpoch
  familyExpiresAt : Nat
deriving DecidableEq

/-- The marker of a revoked or rotated token. A replay guard is retained while tokens of its
family may be live. -/
structure RevocationTombstone where
  clientId : String
  grantId : OAuthGrantId
  replayGuard : Bool
  expiresAt : Nat

abbrev DigestMap := fun Value : Type => Std.ExtTreeMap CredentialDigest Value compare

instance transCmp_credentialDigest :
    Std.TransCmp (compare : CredentialDigest → CredentialDigest → Ordering) :=
  inferInstance

/-- What the server keeps under its lock. Credentials are kept by digest. -/
structure OAuthServerState where
  clients : Std.ExtTreeMap String RegisteredOAuthClient compare
  authorizationCodes : DigestMap AuthorizationCode
  accessTokens : DigestMap StoredOAuthToken
  refreshTokens : DigestMap StoredOAuthToken
  revokedTokens : DigestMap RevocationTombstone

/-- The positions of entries in the walks over hash maps, which have no order of their own. -/
structure Walks where
  tombstones : DigestMap RevocationTombstone → CredentialDigest → Nat
  tokens : CredentialDigest → Nat

/-- The first of the markers that expire soonest. -/
def oldest (position : CredentialDigest → Nat)
    (markers : List (CredentialDigest × RevocationTombstone)) : Option CredentialDigest :=
  (markers.argmin fun marker => toLex (marker.2.expiresAt, position marker.1)).map Prod.fst

namespace OAuthServerState

def new : OAuthServerState :=
  ⟨∅, ∅, ∅, ∅, ∅⟩

def cleanupExpiredAt (state : OAuthServerState) (now : Nat) : OAuthServerState :=
  { state with
    authorizationCodes := state.authorizationCodes.filter fun _ code => code.expiresAt > now
    accessTokens := state.accessTokens.filter fun _ token => token.expiresAt > now
    refreshTokens := state.refreshTokens.filter fun _ token => token.expiresAt > now
    revokedTokens := state.revokedTokens.filter fun _ tombstone => tombstone.expiresAt > now }

def authorizationCodeCountForClient (state : OAuthServerState) (clientId : String) : Nat :=
  (state.authorizationCodes.filter fun _ code => code.clientId = clientId).size

def accessTokenCountForClient (state : OAuthServerState) (clientId : String) : Nat :=
  (state.accessTokens.filter fun _ token => token.clientId = clientId).size

def refreshTokenCountForClient (state : OAuthServerState) (clientId : String) : Nat :=
  (state.refreshTokens.filter fun _ token => token.clientId = clientId).size

def revocationTombstoneCountForClient (state : OAuthServerState) (clientId : String) : Nat :=
  (state.revokedTokens.filter fun _ tombstone => tombstone.clientId = clientId).size

/-- Whether a map that is asked only for digests of admitted values holds a value. -/
def holds {Value : Type} (map : DigestMap Value) : Fallible CredentialDigest → Bool
  | .ok digest => map.contains digest
  | .error _ => false

def credentialValueInUse (library : Library) (state : OAuthServerState) (value : String) : Bool :=
  let authorizationCode := digestCredential library .authorizationCode value
  let accessToken := digestCredential library .accessToken value
  let refreshToken := digestCredential library .refreshToken value
  holds state.authorizationCodes authorizationCode ||
    (holds state.accessTokens accessToken || holds state.revokedTokens accessToken) ||
    (holds state.refreshTokens refreshToken || holds state.revokedTokens refreshToken)

/-- Removes the oldest of the markers that may be evicted, if there is one. -/
def evictOldest (state : OAuthServerState) (walks : Walks)
    (evictable : RevocationTombstone → Bool) : Option OAuthServerState :=
  (oldest (walks.tombstones state.revokedTokens)
    (state.revokedTokens.toList.filter fun marker => evictable marker.2)).map fun digest =>
      { state with revokedTokens := state.revokedTokens.erase digest }

def insertTombstoneBounded (config : OAuthServerConfig) (walks : Walks) (state : OAuthServerState)
    (token : CredentialDigest) (tombstone : RevocationTombstone) (now : Nat) :
    OAuthServerState :=
  if tombstone.expiresAt ≤ now ∨ config.maxRevocationTombstones = 0 ∨
      config.maxRevocationTombstonesPerClient = 0 then state
  else
    match state.revokedTokens[token]? with
    | some existing =>
      { state with
        revokedTokens := state.revokedTokens.insert token { existing with
          replayGuard := existing.replayGuard || tombstone.replayGuard
          expiresAt := max existing.expiresAt tombstone.expiresAt } }
    | none =>
      let forClient :=
        if state.revocationTombstoneCountForClient tombstone.clientId ≥
            config.maxRevocationTombstonesPerClient then
          state.evictOldest walks fun entry =>
            entry.clientId = tombstone.clientId && !entry.replayGuard
        else some state
      let forAll := forClient.bind fun state =>
        if state.revokedTokens.size ≥ config.maxRevocationTombstones then
          state.evictOldest walks fun entry => !entry.replayGuard
        else some state
      match forAll with
      | some roomy => { roomy with revokedTokens := roomy.revokedTokens.insert token tombstone }
      -- Nothing can be evicted, and the marker is dropped.
      | none => forClient.getD state

def ensureReplayGuardCapacity (config : OAuthServerConfig) (state : OAuthServerState)
    (clientId : String) : Fallible Unit := do
  let evictableForClient := state.revokedTokens.toList.any fun marker =>
    marker.2.clientId = clientId && !marker.2.replayGuard
  require (¬ (state.revocationTombstoneCountForClient clientId ≥
      config.maxRevocationTombstonesPerClient ∧ !evictableForClient))
    (capacityError "refresh-token replay guards")
  let evictable := state.revokedTokens.toList.any fun marker => !marker.2.replayGuard
  require (¬ (state.revokedTokens.size ≥ config.maxRevocationTombstones ∧ !evictable))
    (capacityError "refresh-token replay guards")

/-- Whether a marker guards a family against replay. -/
def guardsFamily (grantId : OAuthGrantId) (clientId : String) (tombstone : RevocationTombstone) :
    Bool :=
  tombstone.replayGuard && tombstone.clientId = clientId && tombstone.grantId = grantId

def alignReplayGuardsWithFamilyDeadline (state : OAuthServerState) (grantId : OAuthGrantId)
    (clientId : String) (familyExpiresAt : Nat) : OAuthServerState :=
  { state with
    revokedTokens := state.revokedTokens.map fun _ tombstone =>
      if guardsFamily grantId clientId tombstone then
        { tombstone with expiresAt := familyExpiresAt }
      else tombstone }

/-- The tokens of a family with their expiries, in the order of a walk. -/
def familyMembers (walks : Walks) (tokens : DigestMap StoredOAuthToken) (grantId : OAuthGrantId)
    (clientId : String) : List (CredentialDigest × Nat) :=
  ((tokens.toList.filter fun entry =>
    entry.2.clientId = clientId && entry.2.grantId = grantId).map fun entry =>
      (entry.1, entry.2.expiresAt)).insertionSort fun first second =>
        walks.tokens first.1 ≤ walks.tokens second.1

/-- Removes tokens one after the other and leaves a marker for each. -/
def retireMembers (config : OAuthServerConfig) (walks : Walks)
    (remove : OAuthServerState → CredentialDigest → OAuthServerState) (grantId : OAuthGrantId)
    (clientId : String) (now : Nat) :
    List (CredentialDigest × Nat) → OAuthServerState → OAuthServerState
  | [], state => state
  | (digest, expiresAt) :: members, state =>
    retireMembers config walks remove grantId clientId now members
      ((remove state digest).insertTombstoneBounded config walks digest
        ⟨clientId, grantId, false, expiresAt⟩ now)

def removeAccess (state : OAuthServerState) (digest : CredentialDigest) : OAuthServerState :=
  { state with accessTokens := state.accessTokens.erase digest }

def removeRefresh (state : OAuthServerState) (digest : CredentialDigest) : OAuthServerState :=
  { state with refreshTokens := state.refreshTokens.erase digest }

/-- Removes the replay guards of a family. -/
def releaseGuards (state : OAuthServerState) (grantId : OAuthGrantId) (clientId : String) :
    OAuthServerState :=
  { state with
    revokedTokens := state.revokedTokens.filter fun _ tombstone =>
      !guardsFamily grantId clientId tombstone }

def revokeGrantFamily (config : OAuthServerConfig) (walks : Walks) (state : OAuthServerState)
    (grantId : OAuthGrantId) (clientId : String) (now : Nat) : OAuthServerState :=
  let accessTokens := familyMembers walks state.accessTokens grantId clientId
  let refreshTokens := familyMembers walks state.refreshTokens grantId clientId
  retireMembers config walks removeRefresh grantId clientId now refreshTokens
    (retireMembers config walks removeAccess grantId clientId now accessTokens
      (state.releaseGuards grantId clientId))

end OAuthServerState

/-! ## The server -/

/-- An authorization request as the approval backend sees it. -/
structure AuthorizationApprovalBinding where
  clientId : String
  redirectUri : String
  scopes : List String
  resource : Option String
  state : Option String
  codeChallenge : String
  codeChallengeMethod : CodeChallengeMethod
  registrationEpoch : OAuthRegistrationEpoch
deriving DecidableEq

/-- What a user has approved, bound to the request that was shown. -/
structure AuthorizationApprovalDecision where
  binding : AuthorizationApprovalBinding
  subject : String
  approvedScopes : List String
  approvedResource : Option String
  generation : Block 32

inductive AuthorizationApprovalDisposition where
  | approved (decision : AuthorizationApprovalDecision)
  | denied
  | error
  | cancelled

/-- The parts of a server that do not change. -/
structure OAuthServer where
  library : Library
  latestInstant : Nat
  config : OAuthServerConfig
  approvalGeneration : Block 32

/-- What one call reads: the clock when it checks the configuration, in its write section and
when it issues tokens, the walks over hash maps, and its draws. -/
structure Readings where
  validated : Nat
  now : Nat
  issuedAt : Nat
  walks : Walks
  draws : Nat → Draw

/-- The end of a write section: a failed one leaves the state it cleaned up. -/
def settle {Value : Type} (cleaned : OAuthServerState) :
    Fallible (Value × OAuthServerState) → Fallible Value × OAuthServerState
  | .ok (value, next) => (.ok value, next)
  | .error error => (.error error, cleaned)

/-- A request for a code. -/
structure AuthorizationRequest where
  responseType : String
  clientId : String
  redirectUri : String
  scopes : List String
  resource : Option String
  state : Option String
  codeChallenge : String
  codeChallengeMethod : CodeChallengeMethod

/-- A request to exchange a code or to refresh a token. -/
structure TokenRequest where
  grantType : String
  code : Option String
  redirectUri : Option String
  clientId : String
  clientSecret : Option String
  codeVerifier : Option String
  refreshToken : Option String
  scopes : Option (List String)
  resource : Option String

/-- Two new tokens that are not stored yet. -/
structure PreparedTokenPair where
  accessValue : String
  accessMetadata : StoredOAuthToken
  refreshValue : String
  refreshMetadata : StoredOAuthToken
  accessLifetimeSecs : Nat
deriving DecidableEq

/-- The answer to a token request. -/
structure TokenResponse where
  accessToken : String
  tokenType : String
  expiresIn : Nat
  refreshToken : Option String
  scope : Option String

def PreparedTokenPair.response (pair : PreparedTokenPair) : TokenResponse where
  accessToken := pair.accessValue
  tokenType := "bearer"
  expiresIn := pair.accessLifetimeSecs
  refreshToken := some pair.refreshValue
  scope := if pair.accessMetadata.scopes = [] then none
    else some (" ".intercalate pair.accessMetadata.scopes)

def authenticateClientOrDummy (library : Library) (state : OAuthServerState) (clientId : String)
    (clientSecret : Option String) : Fallible OAuthRegistrationEpoch := do
  let client ← orFail clientAuthenticationError state.clients[clientId]?
  require (client.authenticate library clientSecret) clientAuthenticationError
  pure client.registrationEpoch

namespace OAuthServer

variable (server : OAuthServer)

def checkConfig (readings : Readings) : Fallible Unit :=
  server.config.validate server.library server.latestInstant readings.validated

/-! ### Registration -/

/-- A registration. It returns the epoch it drew, which the caller does not see. -/
def registerClient (state : OAuthServerState) (client : OAuthClient) (readings : Readings) :
    Fallible OAuthRegistrationEpoch × OAuthServerState :=
  let admission : Fallible RegisteredOAuthClient := do
    client.validateForRetention server.library
    require (¬ (client.clientType = .publicClient ∧ !server.config.allowPublicClients))
      (.invalidClient "public clients are not allowed")
    let registrationEpoch ← (readings.draws 0).mapError .serverError
    let registered ← RegisteredOAuthClient.fromRegistration server.library client
      registrationEpoch (readings.draws 1)
    server.checkConfig readings
    pure registered
  match admission with
  | .error error => (.error error, state)
  | .ok registered =>
    let cleaned := state.cleanupExpiredAt readings.now
    settle cleaned (do
      require (!cleaned.clients.contains client.clientId)
        (.invalidClient "OAuth client_id is already registered")
      require (cleaned.clients.size < server.config.maxClients)
        (capacityError "registered clients")
      pure (registered.registrationEpoch,
        { cleaned with clients := cleaned.clients.insert client.clientId registered }))

/-- Removes everything of a client. -/
def forgetClient (state : OAuthServerState) (clientId : String) : OAuthServerState where
  clients := state.clients.erase clientId
  authorizationCodes := state.authorizationCodes.filter fun _ code => code.clientId ≠ clientId
  accessTokens := state.accessTokens.filter fun _ token => token.clientId ≠ clientId
  refreshTokens := state.refreshTokens.filter fun _ token => token.clientId ≠ clientId
  revokedTokens := state.revokedTokens.filter fun _ tombstone => tombstone.clientId ≠ clientId

def unregisterClient (state : OAuthServerState) (clientId : String) (readings : Readings) :
    Fallible Unit × OAuthServerState :=
  let admission : Fallible Unit := do
    validateClientIdAdmission clientId
    server.checkConfig readings
  match admission with
  | .error error => (.error error, state)
  | .ok _ =>
    let cleaned := state.cleanupExpiredAt readings.now
    settle cleaned (do
      require (cleaned.clients.contains clientId) clientNotFound
      pure ((), forgetClient cleaned clientId))

/-! ### Authorization -/

/-- The checks of an authorization request before it looks at the state. -/
def authorizationAdmission (request : AuthorizationRequest) : Fallible (List String) := do
  validateClientIdAdmission request.clientId
  require (parseRedirectUri server.library request.redirectUri).isSome
    (.invalidRequest "invalid redirect_uri")
  validateOptionalAuthorizationValue request.state 4096
    "OAuth authorization state is invalid or outside retention bounds"
  validateOptionalAuthorizationResource server.library request.resource
  let canonicalScopes ← canonicalizeRequestScopes request.scopes
  require (request.responseType = "code")
    (.unsupportedResponseType "only 'code' response_type is supported")
  pure canonicalScopes

/-- The checks of a request against the client it names. -/
def validateAgainst (client : RegisteredOAuthClient) (request : AuthorizationRequest)
    (canonicalScopes : List String) : Fallible Unit := do
  require (client.validateRedirectUri server.library request.redirectUri)
    (.invalidRequest "invalid redirect_uri")
  require (client.validateScopes canonicalScopes) (.invalidScope "requested scope not allowed")

/-- The request that the approval backend decides, with the registration that the read section
saw. -/
def approvalRequest (seen : OAuthServerState) (request : AuthorizationRequest)
    (readings : Readings) : Fallible AuthorizationApprovalBinding := do
  let canonicalScopes ← server.authorizationAdmission request
  let client ← orFail clientNotFound seen.clients[request.clientId]?
  server.validateAgainst client request canonicalScopes
  require (request.codeChallengeMethod = .s256)
    (.invalidRequest "code_challenge_method must be S256")
  validateS256CodeChallenge server.library request.codeChallenge
  server.checkConfig readings
  pure ⟨request.clientId, request.redirectUri, canonicalScopes, request.resource, request.state,
    request.codeChallenge, request.codeChallengeMethod, client.registrationEpoch⟩

/-- The subject of a decision that approves exactly the request. -/
def acceptApproval (binding : AuthorizationApprovalBinding) :
    AuthorizationApprovalDisposition → Fallible String
  | .denied => .error (.accessDenied "authorization approval was denied")
  | .error => .error (.temporarilyUnavailable "authorization approval backend failed")
  | .cancelled => .error (.accessDenied "authorization approval was cancelled")
  | .approved approval => do
    require (approval.binding = binding ∧ approval.generation = server.approvalGeneration ∧
        approval.approvedScopes = binding.scopes ∧ approval.approvedResource = binding.resource)
      (.accessDenied "authorization approval did not bind the admitted request")
    pure approval.subject

/-- The retained form of an approved authorization. -/
def authorizationCode (binding : AuthorizationApprovalBinding) (subject : String)
    (issuedAt expiresAt : Nat) : AuthorizationCode :=
  ⟨binding.clientId, binding.redirectUri, binding.scopes, binding.resource, binding.codeChallenge,
    binding.codeChallengeMethod, issuedAt, expiresAt, some subject, binding.state,
    binding.registrationEpoch⟩

/-- The write section of an authorization, after its clean-up. -/
def commitCode (cleaned : OAuthServerState) (request : AuthorizationRequest)
    (binding : AuthorizationApprovalBinding) (subject codeValue : String)
    (codeDigest : CredentialDigest) (now : Nat) :
    Fallible (AuthorizationCode × OAuthServerState) := do
  let currentClient ← orFail clientNotFound cleaned.clients[request.clientId]?
  require (currentClient.registrationEpoch = binding.registrationEpoch)
    (.invalidClient "OAuth client registration changed during authorization")
  server.validateAgainst currentClient request binding.scopes
  ensureCapacity cleaned.authorizationCodes.size
    (cleaned.authorizationCodeCountForClient request.clientId)
    server.config.maxAuthorizationCodes server.config.maxAuthorizationCodesPerClient
    "authorization codes"
  require (!cleaned.credentialValueInUse server.library codeValue) collisionError
  let expiresAt ← checkedDeadline server.latestInstant now
    server.config.authorizationCodeLifetime "authorization_code_lifetime"
  let code := authorizationCode binding subject now expiresAt
  pure (code,
    { cleaned with authorizationCodes := cleaned.authorizationCodes.insert codeDigest code })

/-- An authorization whose read section saw one state, whose backend then decided, and whose
write section runs in another state. It returns the value of the code with its record. -/
def authorize (seen state : OAuthServerState) (request : AuthorizationRequest)
    (backend : AuthorizationApprovalBinding → AuthorizationApprovalDisposition)
    (before readings : Readings) : Fallible (String × AuthorizationCode) × OAuthServerState :=
  let admission : Fallible (AuthorizationApprovalBinding × String × String × CredentialDigest) := do
    let binding ← server.approvalRequest seen request before
    let subject ← server.acceptApproval binding (backend binding)
    let codeValue ← generateToken server.library (readings.draws 0)
    let codeDigest ← digestCredential server.library .authorizationCode codeValue
    server.checkConfig readings
    pure (binding, subject, codeValue, codeDigest)
  match admission with
  | .error error => (.error error, state)
  | .ok (binding, subject, codeValue, codeDigest) =>
    let cleaned := state.cleanupExpiredAt readings.now
    settle cleaned ((server.commitCode cleaned request binding subject codeValue codeDigest
      readings.now).map fun committed => ((codeValue, committed.1), committed.2))

/-! ### Tokens -/

/-- The two records of a pair that share everything but their expiry. -/
def tokenPair (accessValue refreshValue clientId : String) (scopes : List String)
    (resource subject : Option String) (registrationEpoch : OAuthRegistrationEpoch)
    (grantId : OAuthGrantId) (issuedAt accessExpiresAt familyExpiresAt : Nat) :
    PreparedTokenPair where
  accessValue := accessValue
  accessMetadata := ⟨⟨clientId, scopes, resource, issuedAt, accessExpiresAt, subject, false⟩,
    grantId, registrationEpoch, familyExpiresAt⟩
  refreshValue := refreshValue
  refreshMetadata := ⟨⟨clientId, scopes, resource, issuedAt, familyExpiresAt, subject, true⟩,
    grantId, registrationEpoch, familyExpiresAt⟩
  accessLifetimeSecs := (accessExpiresAt - issuedAt) / 10 ^ 9

/-- The deadline of a family, which a first pair starts. -/
def familyDeadline (familyExpiresAt : Option Nat) (issuedAt : Nat) : Fallible Nat :=
  match familyExpiresAt with
  | some expiresAt => .ok expiresAt
  | none => checkedDeadline server.latestInstant issuedAt server.config.refreshTokenLifetime
      "refresh_token_lifetime"

def prepareTokenPair (clientId : String) (scopes : List String)
    (resource subject : Option String) (registrationEpoch : OAuthRegistrationEpoch)
    (grantId : OAuthGrantId) (familyExpiresAt : Option Nat) (readings : Readings) :
    Fallible PreparedTokenPair := do
  let accessValue ← generateToken server.library (readings.draws 0)
  let refreshValue ← generateToken server.library (readings.draws 1)
  let _ ← digestCredential server.library .accessToken accessValue
  let _ ← digestCredential server.library .refreshToken refreshValue
  let familyExpiresAt ← server.familyDeadline familyExpiresAt readings.issuedAt
  require ((familyExpiresAt - readings.issuedAt) / 10 ^ 9 ≠ 0) invalidGrantError
  let deadline ← checkedDeadline server.latestInstant readings.issuedAt
    server.config.accessTokenLifetime "access_token_lifetime"
  let accessExpiresAt := min deadline familyExpiresAt
  require ((accessExpiresAt - readings.issuedAt) / 10 ^ 9 ≠ 0) invalidGrantError
  pure (tokenPair accessValue refreshValue clientId scopes resource subject registrationEpoch
    grantId readings.issuedAt accessExpiresAt familyExpiresAt)

def ensureFreshTokenPair (state : OAuthServerState) (pair : PreparedTokenPair) : Fallible Unit :=
  require (¬ (pair.accessValue = pair.refreshValue ∨
    state.credentialValueInUse server.library pair.accessValue ∨
    state.credentialValueInUse server.library pair.refreshValue)) collisionError

/-- Retains the tokens of a pair. -/
def retainPair (state : OAuthServerState) (pair : PreparedTokenPair) : OAuthServerState :=
  { state with
    accessTokens := state.accessTokens.insert
      (credentialDigest server.library .accessToken pair.accessValue) pair.accessMetadata
    refreshTokens := state.refreshTokens.insert
      (credentialDigest server.library .refreshToken pair.refreshValue) pair.refreshMetadata }

/-- The admitted form of a code exchange. -/
structure CodeExchange where
  codeValue : String
  codeDigest : CredentialDigest
  redirectUri : String
  codeVerifier : String

def codeAdmission (request : TokenRequest) : Fallible CodeExchange := do
  let codeValue ← orFail (.invalidRequest "code is required") request.code
  let redirectUri ← orFail (.invalidRequest "redirect_uri is required") request.redirectUri
  let codeVerifier ← orFail (.invalidRequest "code_verifier is required (PKCE)")
    request.codeVerifier
  validateClientAuthenticationAdmission request.clientId request.clientSecret
  let codeDigest ← validateAndDigestOpaqueCredential server.library .authorizationCode codeValue
    "OAuth grant is invalid"
  require (parseRedirectUri server.library redirectUri).isSome invalidGrantError
  (validateOptionalAuthorizationResource server.library request.resource).mapError
    fun _ => invalidGrantError
  (validatePkceCodeVerifier codeVerifier).mapError fun _ => invalidGrantError
  require (server.config.minCodeVerifierLength ≤ codeVerifier.utf8ByteSize ∧
    codeVerifier.utf8ByteSize ≤ server.config.maxCodeVerifierLength) invalidGrantError
  pure ⟨codeValue, codeDigest, redirectUri, codeVerifier⟩

/-- Whether a code, if it is there, was approved for the requested resource. -/
def codeResourceMatches (state : OAuthServerState) (codeDigest : CredentialDigest)
    (resource : Option String) : Bool :=
  state.authorizationCodes[codeDigest]?.all fun code => resource = code.resource

/-- The write section of a code exchange, after its clean-up. -/
def exchangeCode (cleaned : OAuthServerState) (request : TokenRequest) (exchange : CodeExchange)
    (currentRegistrationEpoch : OAuthRegistrationEpoch) (readings : Readings) :
    Fallible (PreparedTokenPair × OAuthServerState) := do
  let authCode ← orFail invalidGrantError cleaned.authorizationCodes[exchange.codeDigest]?
  require (readings.now < authCode.expiresAt) invalidGrantError
  require (authCode.clientId = request.clientId) invalidGrantError
  require (authCode.registrationEpoch = currentRegistrationEpoch) invalidGrantError
  require (authCode.redirectUri = exchange.redirectUri) invalidGrantError
  require (request.resource = authCode.resource) invalidGrantError
  require (authCode.codeChallengeMethod = .s256 ∧
    authCode.validateCodeVerifier server.library exchange.codeVerifier) invalidGrantError
  ensureCapacity cleaned.accessTokens.size (cleaned.accessTokenCountForClient authCode.clientId)
    server.config.maxAccessTokens server.config.maxAccessTokensPerClient "access tokens"
  ensureCapacity cleaned.refreshTokens.size (cleaned.refreshTokenCountForClient authCode.clientId)
    server.config.maxRefreshTokens server.config.maxRefreshTokensPerClient "refresh tokens"
  let prepared ← server.prepareTokenPair authCode.clientId authCode.scopes authCode.resource
    authCode.subject currentRegistrationEpoch
    (deriveAuthorizationGrantId server.library exchange.codeDigest) none readings
  require (prepared.accessMetadata.issuedAt < authCode.expiresAt) invalidGrantError
  server.ensureFreshTokenPair cleaned prepared
  pure (prepared, server.retainPair
    { cleaned with
      authorizationCodes := cleaned.authorizationCodes.erase exchange.codeDigest } prepared)

/-- A code exchange whose read section saw one state and whose write section runs in another. -/
def tokenAuthorizationCode (seen state : OAuthServerState) (request : TokenRequest)
    (readings : Readings) : Fallible PreparedTokenPair × OAuthServerState :=
  let admission : Fallible (CodeExchange × OAuthRegistrationEpoch) := do
    let exchange ← server.codeAdmission request
    require (codeResourceMatches seen exchange.codeDigest request.resource) invalidGrantError
    server.checkConfig readings
    require (codeResourceMatches state exchange.codeDigest request.resource) invalidGrantError
    let epoch ← authenticateClientOrDummy server.library state request.clientId
      request.clientSecret
    pure (exchange, epoch)
  match admission with
  | .error error => (.error error, state)
  | .ok (exchange, epoch) =>
    let cleaned := state.cleanupExpiredAt readings.now
    settle cleaned (server.exchangeCode cleaned request exchange epoch readings)

/-- The admitted value and digest of a presented refresh token. -/
def refreshAdmission (request : TokenRequest) : Fallible (String × CredentialDigest) := do
  let refreshValue ← orFail (.invalidRequest "refresh_token is required") request.refreshToken
  validateClientAuthenticationAdmission request.clientId request.clientSecret
  let refreshDigest ← validateAndDigestOpaqueCredential server.library .refreshToken refreshValue
    "OAuth grant is invalid"
  (validateOptionalAuthorizationResource server.library request.resource).mapError
    fun _ => invalidGrantError
  pure (refreshValue, refreshDigest)

/-- Whether a refresh token, if it is there, is for the resource that is requested, if any. -/
def refreshResourceMatches (state : OAuthServerState) (refreshDigest : CredentialDigest)
    (resource : Option String) : Bool :=
  state.refreshTokens[refreshDigest]?.all fun token => resource.isNone || resource = token.resource

/-- The scopes of a refreshed pair: those requested, which the token must have, or all. -/
def refreshedScopes (stored : StoredOAuthToken) : Option (List String) → Fallible (List String)
  | none => pure stored.scopes
  | some requested => do
    let requested ← canonicalizeRequestScopes requested
    require (requested.all (· ∈ stored.scopes))
      (.invalidScope "requested scope was not in original grant")
    pure requested

/-- Removes a rotated token and leaves its replay guard, whose family keeps one deadline. -/
def markRotated (cleaned : OAuthServerState) (stored : StoredOAuthToken)
    (refreshDigest : CredentialDigest) (clientId : String) (expiresAt : Nat)
    (readings : Readings) : OAuthServerState :=
  ((cleaned.removeRefresh refreshDigest).alignReplayGuardsWithFamilyDeadline stored.grantId
    clientId expiresAt).insertTombstoneBounded server.config readings.walks refreshDigest
      ⟨stored.clientId, stored.grantId, true, expiresAt⟩ readings.now

/-- The rotation of a refresh token in the write section. -/
def rotate (cleaned : OAuthServerState) (request : TokenRequest)
    (refreshDigest : CredentialDigest) (currentRegistrationEpoch : OAuthRegistrationEpoch)
    (readings : Readings) : Fallible (PreparedTokenPair × OAuthServerState) := do
  let stored ← orFail invalidGrantError cleaned.refreshTokens[refreshDigest]?
  require (¬ (stored.clientId ≠ request.clientId ∨
    stored.registrationEpoch ≠ currentRegistrationEpoch ∨ stored.expiresAt ≤ readings.now ∨
    stored.familyExpiresAt ≤ readings.now)) invalidGrantError
  require (request.resource.isNone ∨ request.resource = stored.resource) invalidGrantError
  let scopes ← refreshedScopes stored request.scopes
  ensureCapacity cleaned.accessTokens.size (cleaned.accessTokenCountForClient request.clientId)
    server.config.maxAccessTokens server.config.maxAccessTokensPerClient "access tokens"
  cleaned.ensureReplayGuardCapacity server.config request.clientId
  let prepared ← server.prepareTokenPair request.clientId scopes stored.resource stored.subject
    currentRegistrationEpoch stored.grantId (some stored.familyExpiresAt) readings
  server.ensureFreshTokenPair cleaned prepared
  let marked := server.markRotated cleaned stored refreshDigest request.clientId
    prepared.refreshMetadata.expiresAt readings
  pure (prepared, server.retainPair marked prepared)

/-- A refresh whose read section saw one state and whose write section runs in another. The
replay of a retained marker revokes its family. -/
def tokenRefreshToken (seen state : OAuthServerState) (request : TokenRequest)
    (readings : Readings) : Fallible PreparedTokenPair × OAuthServerState :=
  let admission : Fallible (CredentialDigest × OAuthRegistrationEpoch) := do
    let (_, refreshDigest) ← server.refreshAdmission request
    require (refreshResourceMatches seen refreshDigest request.resource) invalidGrantError
    server.checkConfig readings
    require (refreshResourceMatches state refreshDigest request.resource) invalidGrantError
    let epoch ← authenticateClientOrDummy server.library state request.clientId
      request.clientSecret
    pure (refreshDigest, epoch)
  match admission with
  | .error error => (.error error, state)
  | .ok (refreshDigest, epoch) =>
    let cleaned := state.cleanupExpiredAt readings.now
    match cleaned.revokedTokens[refreshDigest]? with
    | some revoked =>
      (.error invalidGrantError,
        if revoked.clientId = request.clientId then
          cleaned.revokeGrantFamily server.config readings.walks revoked.grantId request.clientId
            readings.now
        else cleaned)
    | none => settle cleaned (server.rotate cleaned request refreshDigest epoch readings)

/-- The token endpoint. -/
def token (seen state : OAuthServerState) (request : TokenRequest) (readings : Readings) :
    Fallible TokenResponse × OAuthServerState :=
  let outcome : Fallible PreparedTokenPair × OAuthServerState :=
    if request.grantType = "authorization_code" then
      server.tokenAuthorizationCode seen state request readings
    else if request.grantType = "refresh_token" then
      server.tokenRefreshToken seen state request readings
    else (.error (.unsupportedGrantType "OAuth grant_type is not supported"), state)
  (outcome.1.map PreparedTokenPair.response, outcome.2)

/-! ### Revocation and introspection -/

/-- The digests under which a token to revoke may be retained. -/
def revocationAdmission (token : String) : Fallible (Option (CredentialDigest × CredentialDigest)) :=
  do
  require (¬ (token.utf8ByteSize > oauthOpaqueCredentialBytes ∨ hasControl token))
    (.invalidRequest "revocation token is outside admitted bounds")
  match validateOpaqueCredential server.library token "revocation token is invalid" with
  | .error _ => pure none
  | .ok _ =>
    let access ← digestCredential server.library .accessToken token
    let refresh ← digestCredential server.library .refreshToken token
    pure (some (access, refresh))

/-- Removes an access token, if it is there, and leaves a marker. -/
def revokeAccess (cleaned : OAuthServerState) (clientId : String)
    (accessDigest : CredentialDigest) (readings : Readings) : OAuthServerState :=
  match cleaned.accessTokens[accessDigest]? with
  | none => cleaned
  | some token => (cleaned.removeAccess accessDigest).insertTombstoneBounded server.config
      readings.walks accessDigest ⟨clientId, token.grantId, false, token.expiresAt⟩ readings.now

/-- The revocation of an admitted token in the write section, after its clean-up. -/
def revokeAdmitted (cleaned : OAuthServerState) (clientId : String)
    (accessDigest refreshDigest : CredentialDigest) (readings : Readings) : OAuthServerState :=
  let access := cleaned.accessTokens[accessDigest]?
  let refresh := cleaned.refreshTokens[refreshDigest]?
  let refreshTombstone := cleaned.revokedTokens[refreshDigest]?
  if access.any (fun token => token.clientId ≠ clientId) ||
      refresh.any (fun token => token.clientId ≠ clientId) ||
      refreshTombstone.any (fun tombstone => tombstone.clientId ≠ clientId) then cleaned
  else
    let revoked := server.revokeAccess cleaned clientId accessDigest readings
    match (refresh.map StoredOAuthToken.grantId).or
      (refreshTombstone.map RevocationTombstone.grantId) with
    | none => revoked
    | some grantId =>
      revoked.revokeGrantFamily server.config readings.walks grantId clientId readings.now

def revoke (state : OAuthServerState) (token clientId : String) (clientSecret : Option String)
    (readings : Readings) : Fallible Unit × OAuthServerState :=
  let admission : Fallible (Option (CredentialDigest × CredentialDigest)) := do
    validateClientAuthenticationAdmission clientId clientSecret
    let admitted ← server.revocationAdmission token
    server.checkConfig readings
    let _ ← authenticateClientOrDummy server.library state clientId clientSecret
    pure admitted
  match admission with
  | .error error => (.error error, state)
  | .ok none => (.ok (), state.cleanupExpiredAt readings.now)
  | .ok (some (accessDigest, refreshDigest)) =>
    (.ok (), server.revokeAdmitted (state.cleanupExpiredAt readings.now) clientId accessDigest
      refreshDigest readings)

/-- The retained record of an access token that is valid at two clock readings. -/
def validateStoredAccessToken (state : OAuthServerState) (token : String) (first second : Nat) :
    Option StoredOAuthToken :=
  match validateAndDigestOpaqueCredential server.library .accessToken token
    "access token is invalid" with
  | .error _ => none
  | .ok digest =>
    if state.revokedTokens.contains digest then none
    else
      state.accessTokens[digest]?.bind fun stored =>
        if first ≥ stored.expiresAt ∨ stored.familyExpiresAt ≤ second then none
        else
          state.clients[stored.clientId]?.bind fun client =>
            if client.registrationEpoch ≠ stored.registrationEpoch then none else some stored

def validateAccessToken (state : OAuthServerState) (token : String) (first second : Nat) :
    Option OAuthToken :=
  (server.validateStoredAccessToken state token first second).map
    StoredOAuthToken.toOAuthToken

end OAuthServer

end FastMcp.OAuth
