import FastMcp.OAuthFamilies

/-! # What the operations of the authorization server do

One lemma per operation says everything it can do: it is refused, with at most
the expired entries removed, or it commits exactly one change.
-/

namespace FastMcp.OAuth

open ByteRecords ByteText MachineWords OrderedMaps Outcomes OAuthServerState

/-- A call that failed and at most cleaned up. -/
def Refused {Value : Type} (state : OAuthServerState) (now : Nat)
    (outcome : Fallible Value × OAuthServerState) : Prop :=
  ∃ error, outcome.1 = .error error ∧
    (outcome.2 = state ∨ outcome.2 = state.cleanupExpiredAt now)

theorem settle_cases {Value : Type} (state : OAuthServerState) (now : Nat)
    (plan : Fallible (Value × OAuthServerState)) :
    Refused state now (settle (state.cleanupExpiredAt now) plan) ∨
      ∃ value next, plan = .ok (value, next) ∧
        settle (state.cleanupExpiredAt now) plan = (.ok value, next) := by
  cases plan with
  | error error => exact .inl ⟨error, rfl, .inr rfl⟩
  | ok planned => exact .inr ⟨planned.1, planned.2, rfl, rfl⟩

variable {library : Library}

theorem authenticate_eq_ok {state : OAuthServerState} {clientId : String}
    {clientSecret : Option String} {epoch : OAuthRegistrationEpoch} :
    authenticateClientOrDummy library state clientId clientSecret = .ok epoch ↔
      ∃ client, state.clients[clientId]? = some client ∧
        client.authenticate library clientSecret = true ∧ client.registrationEpoch = epoch := by
  simp only [authenticateClientOrDummy, andThen_eq_ok, orFail_eq_ok, require_eq_ok, exists_const,
    pure, Except.pure, Except.ok.injEq]

variable {kind : CredentialKind}

theorem digestCredential_eq_ok {value : String} {digest : CredentialDigest} :
    digestCredential library kind value = .ok digest ↔
      value.utf8ByteSize = oauthOpaqueCredentialBytes ∧
        digest = credentialDigest library kind value := by
  simp only [digestCredential, andThen_eq_ok, require_eq_ok, exists_const, pure, Except.pure,
    Except.ok.injEq, eq_comm (b := digest)]

theorem validateAndDigest_eq_ok {value error : String} {digest : CredentialDigest}
    (admitted : validateAndDigestOpaqueCredential library kind value error = .ok digest) :
    digest = credentialDigest library kind value := by
  simp only [validateAndDigestOpaqueCredential, andThen_eq_ok, digestCredential_eq_ok] at admitted
  obtain ⟨-, -, -, same⟩ := admitted
  exact same

theorem fromRegistration_epoch {client : OAuthClient} {epoch : OAuthRegistrationEpoch} {salt : Draw}
    {registered : RegisteredOAuthClient}
    (made : RegisteredOAuthClient.fromRegistration library client epoch salt = .ok registered) :
    registered.registrationEpoch = epoch := by
  simp only [RegisteredOAuthClient.fromRegistration, andThen_eq_ok, pure, Except.pure,
    Except.ok.injEq] at made
  obtain ⟨-, -, -, -, rfl⟩ := made
  rfl

namespace OAuthServer

variable (server : OAuthServer) (seen state : OAuthServerState) (readings : Readings)

/-! ## Registration -/

theorem registerClient_cases (client : OAuthClient) :
    Refused state readings.now (server.registerClient state client readings) ∨
      ∃ epoch registered, readings.draws 0 = .ok epoch ∧ registered.registrationEpoch = epoch ∧
        state.clients[client.clientId]? = none ∧
        server.registerClient state client readings = (.ok epoch,
          { state.cleanupExpiredAt readings.now with
            clients := state.clients.insert client.clientId registered }) := by
  unfold registerClient
  dsimp only
  split
  · rename_i error _
    exact .inl ⟨error, rfl, .inl rfl⟩
  · rename_i registered admitted
    rcases settle_cases state readings.now _ with refused | ⟨epoch, next, planned, outcome⟩
    · exact .inl refused
    · rw [outcome]
      simp only [andThen_eq_ok, require_eq_ok, exists_const, pure, Except.pure, Except.ok.injEq,
        Prod.mk.injEq] at planned admitted
      obtain ⟨absent, -, rfl, rfl⟩ := planned
      obtain ⟨-, -, -, epoch, drawn, _, made, -, -, rfl⟩ := admitted
      have same := fromRegistration_epoch made
      refine .inr ⟨_, _, ?_, rfl, ?_, rfl⟩
      · rw [same]
        exact mapError_eq_ok.mp drawn
      · rw [cleanup_clients, Bool.not_eq_true', Std.ExtTreeMap.contains_eq_isSome_getElem?,
          Option.isSome_eq_false_iff, Option.isNone_iff_eq_none] at absent
        exact absent

theorem unregisterClient_cases (clientId : String) :
    Refused state readings.now (server.unregisterClient state clientId readings) ∨
      ∃ client, state.clients[clientId]? = some client ∧
        server.unregisterClient state clientId readings =
          (.ok (), forgetClient (state.cleanupExpiredAt readings.now) clientId) := by
  unfold unregisterClient
  dsimp only
  split
  · rename_i error _
    exact .inl ⟨error, rfl, .inl rfl⟩
  · rcases settle_cases state readings.now _ with refused | ⟨value, next, planned, outcome⟩
    · exact .inl refused
    · rw [outcome]
      simp only [andThen_eq_ok, require_eq_ok, exists_const, pure, Except.pure, Except.ok.injEq,
        Prod.mk.injEq] at planned
      obtain ⟨present, -, rfl⟩ := planned
      rw [cleanup_clients, Std.ExtTreeMap.contains_eq_isSome_getElem?,
        Option.isSome_iff_exists] at present
      obtain ⟨client, found⟩ := present
      exact .inr ⟨client, found, rfl⟩

/-! ## Authorization -/

variable {binding : AuthorizationApprovalBinding} {next : OAuthServerState}
  {resource subject : Option String} {grantId : OAuthGrantId} {exchange : CodeExchange}

theorem approvalRequest_eq_ok {request : AuthorizationRequest}
    (asked : server.approvalRequest seen request readings = .ok binding) :
    binding.clientId = request.clientId ∧
      ∃ client, seen.clients[request.clientId]? = some client ∧
        binding.registrationEpoch = client.registrationEpoch := by
  simp only [approvalRequest, andThen_eq_ok, orFail_eq_ok, require_eq_ok, exists_const, pure,
    Except.pure, Except.ok.injEq] at asked
  obtain ⟨-, -, client, found, -, -, -, -, -, -, -, rfl⟩ := asked
  exact ⟨rfl, client, found, rfl⟩

variable {cleaned : OAuthServerState} {value clientId : String} {digest : CredentialDigest}
  {scopes : List String} {epoch : OAuthRegistrationEpoch} {pair : PreparedTokenPair}
  {request : TokenRequest}

theorem commitCode_eq_ok {request : AuthorizationRequest} {subject : String} {now : Nat}
    {code : AuthorizationCode}
    (committed : server.commitCode cleaned request binding subject value digest now =
      .ok (code, next)) :
    (∃ client, cleaned.clients[request.clientId]? = some client ∧
      client.registrationEpoch = binding.registrationEpoch) ∧
    code.clientId = binding.clientId ∧ code.registrationEpoch = binding.registrationEpoch ∧
    next = { cleaned with
      authorizationCodes := cleaned.authorizationCodes.insert digest code } := by
  simp only [commitCode, andThen_eq_ok, orFail_eq_ok, require_eq_ok, exists_const, pure,
    Except.pure, Except.ok.injEq, Prod.mk.injEq] at committed
  obtain ⟨client, found, same, -, -, -, -, -, expiresAt, -, rfl, rfl⟩ := committed
  exact ⟨⟨client, found, same⟩, rfl, rfl, rfl⟩

/-- A code is retained only for the registration that is there when it is retained. -/
theorem authorize_cases (request : AuthorizationRequest)
    (backend : AuthorizationApprovalBinding → AuthorizationApprovalDisposition)
    (before : Readings) :
    Refused state readings.now (server.authorize seen state request backend before readings) ∨
      ∃ value code, generateToken server.library (readings.draws 0) = .ok value ∧
        (∃ client, seen.clients[code.clientId]? = some client ∧
          client.registrationEpoch = code.registrationEpoch) ∧
        (∃ client, state.clients[code.clientId]? = some client ∧
          client.registrationEpoch = code.registrationEpoch) ∧
        server.authorize seen state request backend before readings = (.ok (value, code),
          { state.cleanupExpiredAt readings.now with
            authorizationCodes := (state.cleanupExpiredAt readings.now).authorizationCodes.insert
              (credentialDigest server.library .authorizationCode value) code }) := by
  unfold authorize
  dsimp only
  split
  · rename_i error _
    exact .inl ⟨error, rfl, .inl rfl⟩
  · rename_i binding subject value digest admitted
    rcases settle_cases state readings.now _ with refused | ⟨result, next, planned, outcome⟩
    · exact .inl refused
    · rw [outcome]
      simp only [andThen_eq_ok, pure, Except.pure, Except.ok.injEq, Prod.mk.injEq,
        digestCredential_eq_ok] at admitted
      obtain ⟨_, asked, _, -, _, drawn, _, ⟨-, rfl⟩, -, -, rfl, rfl, rfl, rfl⟩ := admitted
      obtain ⟨⟨code, committed⟩, commits, same⟩ := map_eq_ok.mp planned
      simp only [Prod.mk.injEq] at same
      obtain ⟨rfl, rfl⟩ := same
      obtain ⟨client, approved, found, approvedEpoch⟩ := server.approvalRequest_eq_ok seen _ asked
      obtain ⟨⟨current, present, epoch⟩, named, ofBinding, rfl⟩ := server.commitCode_eq_ok commits
      refine .inr ⟨_, code, drawn, ?_, ?_, rfl⟩
      · rw [named, client, ofBinding]
        exact ⟨approved, found, approvedEpoch.symm⟩
      · rw [named, client, ofBinding]
        exact ⟨current, present, epoch⟩

/-! ## Tokens -/

/-- The pair that a first exchange or a rotation prepares. -/
structure Prepares (clientId : String) (scopes : List String) (resource subject : Option String)
    (epoch : OAuthRegistrationEpoch) (grantId : OAuthGrantId) (familyExpiresAt : Option Nat)
    (pair : PreparedTokenPair) : Prop where
  accessDrawn : generateToken server.library (readings.draws 0) = .ok pair.accessValue
  refreshDrawn : generateToken server.library (readings.draws 1) = .ok pair.refreshValue
  shape : ∃ accessExpiresAt deadline, accessExpiresAt ≤ deadline ∧
    server.familyDeadline familyExpiresAt readings.issuedAt = .ok deadline ∧
    pair = tokenPair pair.accessValue pair.refreshValue clientId scopes resource subject epoch
      grantId readings.issuedAt accessExpiresAt deadline

theorem prepareTokenPair_eq_ok {familyExpiresAt : Option Nat}
    (prepared : server.prepareTokenPair clientId scopes resource subject epoch grantId
      familyExpiresAt readings = .ok pair) :
    Prepares server readings clientId scopes resource subject epoch grantId familyExpiresAt
      pair := by
  simp only [prepareTokenPair, andThen_eq_ok, require_eq_ok, exists_const, pure, Except.pure,
    Except.ok.injEq] at prepared
  obtain ⟨access, accessDrawn, refresh, refreshDrawn, -, -, -, -, deadline, family, -, expiresAt,
    -, -, rfl⟩ := prepared
  exact ⟨accessDrawn, refreshDrawn, _, deadline, min_le_right _ _, family, rfl⟩

theorem Prepares.rotated {server : OAuthServer} {readings : Readings} {deadline : Nat}
    (prepares : Prepares server readings clientId scopes resource subject epoch grantId
      (some deadline) pair) : pair.refreshMetadata.expiresAt = deadline := by
  obtain ⟨_, _, -, family, shape⟩ := prepares.shape
  rw [shape]
  exact (Except.ok.inj family).symm

/-- What a code exchange that succeeds found and did. -/
structure Exchanges (request : TokenRequest) (value : String) (code : AuthorizationCode)
    (pair : PreparedTokenPair) : Prop where
  presented : request.code = some value
  found : (state.cleanupExpiredAt readings.now).authorizationCodes[
    credentialDigest server.library .authorizationCode value]? = some code
  current : ∃ client, state.clients[code.clientId]? = some client ∧
    client.registrationEpoch = code.registrationEpoch
  prepares : Prepares server readings code.clientId code.scopes code.resource code.subject
    code.registrationEpoch (deriveAuthorizationGrantId server.library
      (credentialDigest server.library .authorizationCode value)) none pair

theorem codeAdmission_eq_ok (admitted : server.codeAdmission request = .ok exchange) :
    request.code = some exchange.codeValue ∧
      exchange.codeDigest =
        credentialDigest server.library .authorizationCode exchange.codeValue := by
  simp only [codeAdmission, andThen_eq_ok, orFail_eq_ok, require_eq_ok, exists_const, pure,
    Except.pure, Except.ok.injEq] at admitted
  obtain ⟨value, presented, _, -, _, -, -, -, digest, digests, -, -, -, -, -, -, rfl⟩ := admitted
  exact ⟨presented, validateAndDigest_eq_ok digests⟩

theorem exchangeCode_eq_ok
    (exchanged : server.exchangeCode cleaned request exchange epoch readings =
      .ok (pair, next)) :
    ∃ code, cleaned.authorizationCodes[exchange.codeDigest]? = some code ∧
      code.clientId = request.clientId ∧ code.registrationEpoch = epoch ∧
      Prepares server readings code.clientId code.scopes code.resource code.subject epoch
        (deriveAuthorizationGrantId server.library exchange.codeDigest) none pair ∧
      next = server.retainPair { cleaned with
        authorizationCodes := cleaned.authorizationCodes.erase exchange.codeDigest } pair := by
  simp only [exchangeCode, andThen_eq_ok, orFail_eq_ok, require_eq_ok, exists_const, pure,
    Except.pure, Except.ok.injEq, Prod.mk.injEq] at exchanged
  obtain ⟨code, found, -, client, same, -, -, -, -, -, -, -, prepared, prepares, -, -, -, rfl,
    rfl⟩ := exchanged
  exact ⟨code, found, client, same, server.prepareTokenPair_eq_ok readings prepares, rfl⟩

theorem tokenAuthorizationCode_cases (request : TokenRequest) :
    Refused state readings.now (server.tokenAuthorizationCode seen state request readings) ∨
      ∃ value code pair, Exchanges server state readings request value code pair ∧
        server.tokenAuthorizationCode seen state request readings = (.ok pair,
          server.retainPair { state.cleanupExpiredAt readings.now with
            authorizationCodes := (state.cleanupExpiredAt readings.now).authorizationCodes.erase
              (credentialDigest server.library .authorizationCode value) } pair) := by
  unfold tokenAuthorizationCode
  dsimp only
  split
  · rename_i error _
    exact .inl ⟨error, rfl, .inl rfl⟩
  · rename_i exchange epoch admitted
    rcases settle_cases state readings.now _ with refused | ⟨pair, next, planned, outcome⟩
    · exact .inl refused
    · rw [outcome]
      simp only [andThen_eq_ok, require_eq_ok, exists_const, pure, Except.pure, Except.ok.injEq,
        Prod.mk.injEq, authenticate_eq_ok] at admitted
      obtain ⟨_, admission, -, -, -, -, _, ⟨client, present, -, rfl⟩, rfl, rfl⟩ := admitted
      obtain ⟨presented, digest⟩ := server.codeAdmission_eq_ok admission
      obtain ⟨code, found, named, same, prepares, rfl⟩ :=
        server.exchangeCode_eq_ok readings planned
      rw [digest] at found prepares
      rw [digest]
      refine .inr ⟨_, code, pair, ⟨presented, found, ?_, ?_⟩, rfl⟩
      · rw [named]
        exact ⟨client, present, same.symm⟩
      · rw [same]
        exact prepares

/-- The limits of an admitted configuration on markers are positive. -/
theorem checkConfig_limits (valid : server.checkConfig readings = .ok ()) :
    1 ≤ server.config.maxRevocationTombstones ∧
      1 ≤ server.config.maxRevocationTombstonesPerClient := by
  simp only [checkConfig, OAuthServerConfig.validate, andThen_eq_ok] at valid
  obtain ⟨-, -, -, -, ⟨⟩, limits, -⟩ := valid
  have each := forM_eq_ok.mp limits
  simp only [OAuthServerConfig.limits, List.forall_mem_cons, OAuthServerConfig.checkLimit,
    require_eq_ok] at each
  exact ⟨each.2.2.2.2.2.2.2.1.1, each.2.2.2.2.2.2.2.2.1.1⟩

theorem ensureReplayGuardCapacity_eq_ok
    (room : cleaned.ensureReplayGuardCapacity server.config clientId = .ok ()) :
    (server.config.maxRevocationTombstonesPerClient ≤
        cleaned.revocationTombstoneCountForClient clientId →
      (cleaned.revokedTokens.toList.any fun marker =>
        marker.2.clientId = clientId && !marker.2.replayGuard) = true) ∧
    (server.config.maxRevocationTombstones ≤ cleaned.revokedTokens.size →
      (cleaned.revokedTokens.toList.any fun marker => !marker.2.replayGuard) = true) := by
  simp only [ensureReplayGuardCapacity, andThen_eq_ok, require_eq_ok, exists_const, not_and,
    Bool.not_eq_true', Bool.not_eq_false] at room
  exact room

section Rotation

variable (cleaned : OAuthServerState) (stored : StoredOAuthToken) (digest : CredentialDigest)
  (deadline : Nat)

theorem markRotated_frame {Value : Type} (field : OAuthServerState → Value)
    (independent : ∀ state refresh markers, field { state with
      refreshTokens := refresh
      revokedTokens := markers } = field state) :
    field (server.markRotated cleaned stored digest stored.clientId deadline readings) =
      field cleaned := by
  rw [markRotated, insertTombstone_frame field fun state _ => independent state _ _]
  exact independent cleaned _ _

theorem markRotated_refresh :
    (server.markRotated cleaned stored digest stored.clientId deadline readings).refreshTokens =
      cleaned.refreshTokens.erase digest := by
  rw [markRotated, insertTombstone_frame refreshTokens fun _ _ => rfl]
  rfl

variable {cleaned stored digest deadline}

theorem markRotated_size
    (bound : cleaned.revokedTokens.size ≤ server.config.maxRevocationTombstones) :
    (server.markRotated cleaned stored digest stored.clientId deadline
      readings).revokedTokens.size ≤ server.config.maxRevocationTombstones := by
  refine insertTombstone_size ?_
  exact le_of_eq_of_le Std.ExtTreeMap.size_map bound

theorem markRotated_guarding {other : CredentialDigest} {clientId : String}
    {grantId : OAuthGrantId} {limit : Nat}
    (guarding : Guarding cleaned.revokedTokens other clientId grantId limit)
    (fits : clientId = stored.clientId → grantId = stored.grantId → limit ≤ deadline) :
    Guarding (server.markRotated cleaned stored digest stored.clientId deadline
      readings).revokedTokens other clientId grantId limit := by
  have kept : Guarding (cleaned.removeRefresh digest).revokedTokens other clientId grantId limit :=
    guarding
  exact insertTombstone_guarding (align_guarding kept fits)

/-- The rotated token is guarded until the deadline of its family. -/
theorem markRotated_marks (valid : server.checkConfig readings = .ok ())
    (bound : cleaned.revokedTokens.size ≤ server.config.maxRevocationTombstones)
    (room : cleaned.ensureReplayGuardCapacity server.config stored.clientId = .ok ())
    (unmarked : cleaned.revokedTokens[digest]? = none) (live : readings.now < deadline) :
    Guarding (server.markRotated cleaned stored digest stored.clientId deadline
      readings).revokedTokens digest stored.clientId stored.grantId deadline := by
  obtain ⟨clientRoom, globalRoom⟩ := server.ensureReplayGuardCapacity_eq_ok room
  refine ⟨_, insertTombstone_inserts live (server.checkConfig_limits readings valid) ?_ ?_ ?_ ?_,
    rfl, rfl, rfl, le_rfl⟩
  · exact le_of_eq_of_le Std.ExtTreeMap.size_map bound
  · rw [alignReplayGuardsWithFamilyDeadline, Std.ExtTreeMap.getElem?_map]
    exact congrArg (Option.map _) unmarked
  · rw [align_count]
    intro full
    exact align_markers _ _ _ _ (fun marker => marker.clientId = stored.clientId &&
      !marker.replayGuard) (fun _ _ => rfl) (clientRoom full)
  · intro full
    refine align_markers _ _ _ _ (fun marker => !marker.replayGuard) (fun _ _ => rfl)
      (globalRoom ?_)
    exact le_of_le_of_eq full Std.ExtTreeMap.size_map

end Rotation

/-- What a refresh that succeeds found and did. -/
structure Rotates (request : TokenRequest) (value : String) (stored : StoredOAuthToken)
    (scopes : List String) (pair : PreparedTokenPair) : Prop where
  presented : request.refreshToken = some value
  unmarked : (state.cleanupExpiredAt readings.now).revokedTokens[
    credentialDigest server.library .refreshToken value]? = none
  found : (state.cleanupExpiredAt readings.now).refreshTokens[
    credentialDigest server.library .refreshToken value]? = some stored
  owner : stored.clientId = request.clientId
  current : ∃ client, state.clients[stored.clientId]? = some client ∧
    client.registrationEpoch = stored.registrationEpoch
  live : readings.now < stored.familyExpiresAt
  narrower : ∀ scope ∈ scopes, scope ∈ stored.scopes
  room : (state.cleanupExpiredAt readings.now).ensureReplayGuardCapacity server.config
    stored.clientId = .ok ()
  valid : server.checkConfig readings = .ok ()
  prepares : Prepares server readings stored.clientId scopes stored.resource stored.subject
    stored.registrationEpoch stored.grantId (some stored.familyExpiresAt) pair

theorem refreshedScopes_eq_ok {stored : StoredOAuthToken} {requested : Option (List String)}
    (granted : refreshedScopes stored requested = .ok scopes) :
    ∀ scope ∈ scopes, scope ∈ stored.scopes := by
  cases requested with
  | none =>
    obtain rfl := Except.ok.inj granted
    exact fun _ listed => listed
  | some requested =>
    simp only [refreshedScopes, andThen_eq_ok, require_eq_ok, exists_const, pure, Except.pure,
      Except.ok.injEq, List.all_eq_true, decide_eq_true_eq] at granted
    obtain ⟨canonical, -, contained, rfl⟩ := granted
    exact contained

theorem refreshAdmission_eq_ok (admitted : server.refreshAdmission request = .ok (value, digest)) :
    request.refreshToken = some value ∧
      digest = credentialDigest server.library .refreshToken value := by
  simp only [refreshAdmission, andThen_eq_ok, orFail_eq_ok, pure, Except.pure, Except.ok.injEq,
    Prod.mk.injEq] at admitted
  obtain ⟨_, presented, -, -, _, digests, -, -, rfl, rfl⟩ := admitted
  exact ⟨presented, validateAndDigest_eq_ok digests⟩

theorem tokenRefreshToken_cases (request : TokenRequest) :
    Refused state readings.now (server.tokenRefreshToken seen state request readings) ∨
      (∃ value marker, request.refreshToken = some value ∧
        (state.cleanupExpiredAt readings.now).revokedTokens[
          credentialDigest server.library .refreshToken value]? = some marker ∧
        server.tokenRefreshToken seen state request readings = (.error invalidGrantError,
          if marker.clientId = request.clientId then
            (state.cleanupExpiredAt readings.now).revokeGrantFamily server.config readings.walks
              marker.grantId request.clientId readings.now
          else state.cleanupExpiredAt readings.now)) ∨
      ∃ value stored scopes pair, Rotates server state readings request value stored scopes pair ∧
        server.tokenRefreshToken seen state request readings = (.ok pair,
          server.retainPair (server.markRotated (state.cleanupExpiredAt readings.now) stored
            (credentialDigest server.library .refreshToken value) stored.clientId
            stored.familyExpiresAt readings) pair) := by
  unfold tokenRefreshToken
  dsimp only
  split
  · rename_i error _
    exact .inl ⟨error, rfl, .inl rfl⟩
  · rename_i digest epoch admitted
    simp only [andThen_eq_ok, require_eq_ok, exists_const, pure, Except.pure, Except.ok.injEq,
      Prod.mk.injEq, authenticate_eq_ok] at admitted
    obtain ⟨⟨value, _⟩, admission, -, ⟨⟩, valid, -, _, ⟨client, present, -, rfl⟩, rfl, rfl⟩ :=
      admitted
    obtain ⟨presented, rfl⟩ := server.refreshAdmission_eq_ok admission
    split
    · rename_i marker marked
      exact .inr (.inl ⟨value, marker, presented, marked, rfl⟩)
    · rename_i unmarked
      rcases settle_cases state readings.now _ with refused | ⟨pair, next, planned, outcome⟩
      · exact .inl refused
      · rw [outcome]
        simp only [rotate, andThen_eq_ok, orFail_eq_ok, require_eq_ok, exists_const, pure,
          Except.pure, Except.ok.injEq, Prod.mk.injEq, not_or, not_not] at planned
        obtain ⟨stored, found, ⟨owner, same, -, live⟩, -, scopes, granted, -, -, ⟨⟩, room, _,
          prepared, -, -, rfl, rfl⟩ := planned
        have prepares := server.prepareTokenPair_eq_ok readings prepared
        rw [← owner] at prepares room
        rw [← same] at prepares
        rw [← owner, prepares.rotated]
        refine .inr (.inr ⟨value, stored, scopes, _, ?_, rfl⟩)
        exact ⟨presented, unmarked, found, owner, ⟨client, by rw [owner]; exact present, same.symm⟩,
          Nat.not_le.mp live, refreshedScopes_eq_ok granted, room, valid, prepares⟩

/-- A refresh that is admitted for a digest that no refresh token has. -/
theorem refresh_admitted (admitted : server.refreshAdmission request = .ok (value, digest))
    (unseen : seen.refreshTokens[digest]? = none) (absent : state.refreshTokens[digest]? = none)
    (valid : server.checkConfig readings = .ok ())
    (authenticated : authenticateClientOrDummy server.library state request.clientId
      request.clientSecret = .ok epoch) :
    (do
      let (_, refreshDigest) ← server.refreshAdmission request
      require (refreshResourceMatches seen refreshDigest request.resource) invalidGrantError
      server.checkConfig readings
      require (refreshResourceMatches state refreshDigest request.resource) invalidGrantError
      let epoch ← authenticateClientOrDummy server.library state request.clientId
        request.clientSecret
      pure (refreshDigest, epoch) : Fallible (CredentialDigest × OAuthRegistrationEpoch)) =
        .ok (digest, epoch) := by
  simp only [andThen_eq_ok, require_eq_ok, exists_const, pure, Except.pure, Except.ok.injEq,
    Prod.mk.injEq]
  exact ⟨_, admitted, by simp [refreshResourceMatches, unseen], (), valid,
    by simp [refreshResourceMatches, absent], epoch, authenticated, rfl, rfl⟩

/-- An admitted request that presents a marked token revokes the family of the marker. -/
theorem tokenRefreshToken_replay {marker : RevocationTombstone}
    (admitted : server.refreshAdmission request = .ok (value, digest))
    (unseen : seen.refreshTokens[digest]? = none) (absent : state.refreshTokens[digest]? = none)
    (valid : server.checkConfig readings = .ok ())
    (authenticated : authenticateClientOrDummy server.library state request.clientId
      request.clientSecret = .ok epoch)
    (marked : (state.cleanupExpiredAt readings.now).revokedTokens[digest]? = some marker)
    (owner : marker.clientId = request.clientId) :
    server.tokenRefreshToken seen state request readings = (.error invalidGrantError,
      (state.cleanupExpiredAt readings.now).revokeGrantFamily server.config readings.walks
        marker.grantId request.clientId readings.now) := by
  unfold tokenRefreshToken
  rw [refresh_admitted server seen state readings admitted unseen absent valid authenticated]
  simp only [marked, owner, if_true]

/-! ## The token endpoint -/

theorem token_code (kind : request.grantType = "authorization_code") :
    server.token seen state request readings =
      ((server.tokenAuthorizationCode seen state request readings).1.map
        PreparedTokenPair.response,
        (server.tokenAuthorizationCode seen state request readings).2) := by
  simp only [token, kind, if_true]

theorem token_refresh (kind : request.grantType = "refresh_token") :
    server.token seen state request readings =
      ((server.tokenRefreshToken seen state request readings).1.map PreparedTokenPair.response,
        (server.tokenRefreshToken seen state request readings).2) := by
  have other : request.grantType ≠ "authorization_code" := by
    rw [kind]
    decide
  simp only [token, if_neg other, if_pos kind]

/-! ## Revocation -/

/-- A revocation removes at most one access token and then at most one family. -/
theorem revokeAdmitted_cases (cleaned : OAuthServerState) (clientId : String)
    (accessDigest refreshDigest : CredentialDigest) :
    server.revokeAdmitted cleaned clientId accessDigest refreshDigest readings = cleaned ∨
    server.revokeAdmitted cleaned clientId accessDigest refreshDigest readings =
      server.revokeAccess cleaned clientId accessDigest readings ∨
    ∃ grantId, server.revokeAdmitted cleaned clientId accessDigest refreshDigest readings =
      (server.revokeAccess cleaned clientId accessDigest readings).revokeGrantFamily server.config
        readings.walks grantId clientId readings.now := by
  unfold revokeAdmitted
  dsimp only
  split
  · exact .inl rfl
  · split
    · exact .inr (.inl rfl)
    · exact .inr (.inr ⟨_, rfl⟩)

theorem revoke_cases (token clientId : String) (clientSecret : Option String) :
    (server.revoke state token clientId clientSecret readings).2 = state ∨
      (server.revoke state token clientId clientSecret readings).2 =
        state.cleanupExpiredAt readings.now ∨
      ∃ accessDigest refreshDigest,
        (server.revoke state token clientId clientSecret readings).2 =
          server.revokeAdmitted (state.cleanupExpiredAt readings.now) clientId accessDigest
            refreshDigest readings := by
  unfold revoke
  dsimp only
  split
  · exact .inl rfl
  · exact .inr (.inl rfl)
  · exact .inr (.inr ⟨_, _, rfl⟩)

end OAuthServer

end FastMcp.OAuth
