import FastMcp.OAuthRetention

/-! # Grants of the authorization server

A grant is everything that descends from one authorization code. Its credentials
are used once, its tokens never widen or outlive the deadline of the first pair,
the reuse of one of its refresh tokens revokes it, and it ends with the
registration it was approved under.
-/

namespace FastMcp.OAuth

open ByteRecords ByteText TransitionRuns OAuthServerState

/-- A token of the grant of a code. -/
def Belongs (events : List Event) (code : String) (token : StoredOAuthToken) : Prop :=
  ∃ pair, Descends events code pair ∧ (token = pair.accessMetadata ∨ token = pair.refreshMetadata)

namespace Sound

variable {server : OAuthServer} {hashed : Set (List UInt8)} {world : World}

variable {value : String} {token : StoredOAuthToken} {pair : PreparedTokenPair}

theorem belongs (sound : Sound server hashed world) (belongs : Belongs world.events value token) :
    ∃ code first, .authorized value code ∈ world.events ∧ .exchanged value first ∈ world.events ∧
      TokenOf server value code first token := by
  obtain ⟨pair, descends, same⟩ := belongs
  obtain ⟨code, first, authorized, exchanged, both⟩ := sound.history.lineage descends
  rcases same with rfl | rfl
  · exact ⟨code, first, authorized, exchanged, both.1⟩
  · exact ⟨code, first, authorized, exchanged, both.2⟩

/-- The tokens of a grant share its identifier and its client. -/
theorem same_family (sound : Sound server hashed world) {second : StoredOAuthToken}
    (belongs : Belongs world.events value token) (others : Belongs world.events value second) :
    token.grantId = second.grantId ∧ token.clientId = second.clientId := by
  obtain ⟨code, _, authorized, -, origin⟩ := sound.belongs belongs
  obtain ⟨_, _, reauthorized, -, other⟩ := sound.belongs others
  obtain rfl := sound.history.authorized_unique authorized reauthorized
  exact ⟨origin.grantId.trans other.grantId.symm, origin.clientId.trans other.clientId.symm⟩

/-- A refresh token that was exchanged is no longer retained. -/
theorem rotated_absent (sound : Sound server hashed world)
    (injective : Set.InjOn server.library.sha256 hashed)
    (rotated : .refreshed value pair ∈ world.events) :
    world.state.refreshTokens[credentialDigest server.library .refreshToken value]? = none := by
  by_contra present
  obtain ⟨token, found⟩ := Option.ne_none_iff_exists'.mp present
  obtain ⟨code, parent, descends, -, same, unrefreshed⟩ := sound.holds.refresh _ _ found
  have value_eq : value = parent.refreshValue :=
    credentialDigest_injective injective
      (sound.history.hashes _ (sound.history.refreshed_drawn rotated))
      (sound.history.hashes _ descends.drawn.2) same
  exact unrefreshed pair (value_eq ▸ rotated)

/-- A registration that was removed is not the current one of any client. -/
theorem removed_not_current (sound : Sound server hashed world) (clientId : String)
    {other : String} {epoch : OAuthRegistrationEpoch} (removed : .unregistered other epoch ∈ world.events) :
    ¬ Current world.state clientId epoch := by
  rintro ⟨client, found, rfl⟩
  exact (sound.holds.clients clientId client found).2 other removed

/-- A code that is exchanged belongs to the current registration of its client. -/
theorem exchanged_current (sound : Sound server hashed world)
    (injective : Set.InjOn server.library.sha256 hashed) {readings : Readings}
    {request : TokenRequest} {code exchanged : AuthorizationCode}
    (authorized : .authorized value code ∈ world.events)
    (exchanges : server.Exchanges world.state readings request value exchanged pair) :
    Current world.state code.clientId code.registrationEpoch := by
  have found := (cleanup_codes.mp exchanges.found).1
  obtain ⟨other, same, reauthorized, -⟩ := sound.holds.codes _ _ found
  have value_eq : value = other :=
    credentialDigest_injective injective
      (sound.history.hashes _ (History.authorized_drawn authorized))
      (sound.history.hashes _ (History.authorized_drawn reauthorized)) same
  subst value_eq
  obtain rfl := sound.history.authorized_unique authorized reauthorized
  exact sound.holds.codesCurrent _ _ found

/-- A retained token of a grant belongs to the registration the grant was approved under. -/
theorem stored_current (sound : Sound server hashed world) {code : AuthorizationCode}
    (authorized : .authorized value code ∈ world.events)
    (belongs : Belongs world.events value token) (stored : Stored world.state token) :
    Current world.state code.clientId code.registrationEpoch := by
  obtain ⟨_, _, reauthorized, -, origin⟩ := sound.belongs belongs
  obtain rfl := sound.history.authorized_unique authorized reauthorized
  rw [← origin.clientId, ← origin.epoch]
  exact sound.holds.tokensCurrent token stored

/-- The record retained for a refresh token of a pair is the one of the pair. -/
theorem refresh_of_pair (sound : Sound server hashed world)
    (injective : Set.InjOn server.library.sha256 hashed)
    (descends : Descends world.events value pair) (found : world.state.refreshTokens[
      credentialDigest server.library .refreshToken pair.refreshValue]? = some token) :
    token = pair.refreshMetadata := by
  obtain ⟨code, other, otherwise, rfl, same, -⟩ := sound.holds.refresh _ _ found
  have value_eq : pair.refreshValue = other.refreshValue :=
    credentialDigest_injective injective (sound.history.hashes _ descends.drawn.2)
      (sound.history.hashes _ otherwise.drawn.2) same
  rw [sound.history.pair_unique descends otherwise value_eq]

/-- The record retained for an access token of a pair is the one of the pair. -/
theorem access_of_pair (sound : Sound server hashed world)
    (injective : Set.InjOn server.library.sha256 hashed)
    (descends : Descends world.events value pair) (found : world.state.accessTokens[
      credentialDigest server.library .accessToken pair.accessValue]? = some token) :
    token = pair.accessMetadata := by
  obtain ⟨code, other, otherwise, rfl, same⟩ := sound.holds.access _ _ found
  have value_eq : pair.accessValue = other.accessValue :=
    credentialDigest_injective injective (sound.history.hashes _ descends.drawn.1)
      (sound.history.hashes _ otherwise.drawn.1) same
  rw [sound.history.pair_unique_access descends otherwise value_eq]

end Sound

theorem validateStoredAccessToken_eq_some {server : OAuthServer} {state : OAuthServerState}
    {text : String} {first second : Nat} {token : StoredOAuthToken}
    (valid : server.validateStoredAccessToken state text first second = some token) :
    state.accessTokens[credentialDigest server.library .accessToken text]? = some token ∧
      first < token.expiresAt ∧ second < token.familyExpiresAt := by
  unfold OAuthServer.validateStoredAccessToken at valid
  split at valid
  · contradiction
  · rename_i digest admitted
    rw [← validateAndDigest_eq_ok admitted]
    split at valid
    · contradiction
    · obtain ⟨stored, found, checked⟩ := Option.bind_eq_some_iff.mp valid
      split at checked
      · contradiction
      · rename_i live
        obtain ⟨client, -, registered⟩ := Option.bind_eq_some_iff.mp checked
        split at registered
        · contradiction
        · obtain rfl := Option.some.inj registered
          exact ⟨found, by omega, by omega⟩

/-! ## A sample run

A public client registers, is granted a code, exchanges it, refreshes once, and
is removed and registered again. -/

/-- A library that writes a block as one repeated letter and whose digest of an input is its
length and its last byte. -/
def letterLibrary : Library where
  sha256 input := ⟨List.replicate 30 0 ++ [UInt8.ofNat input.length, input.getLastD 0], rfl⟩
  base64UrlEncode input := String.ofList (List.replicate 43 (Char.ofNat (input.getLastD 0).toNat))
  base64UrlDecode text := text.toList.head?.map fun letter =>
    List.replicate 32 (UInt8.ofNat letter.toNat)
  parseUrl text := some ⟨text, "https", false, true, some (.domain text), "", none, none, none⟩
  firstFormName _ := none

def letterBlock (letter : UInt8) : Block 32 :=
  ⟨List.replicate 32 letter, List.length_replicate⟩

def letterServer : OAuthServer :=
  ⟨letterLibrary, seconds (10 ^ 9), default, letterBlock 0⟩

def letterValue (letter : UInt8) : String :=
  letterLibrary.base64UrlEncode (letterBlock letter).bytes

def sampleLetters : List UInt8 :=
  [65, 66, 67, 68, 69]

/-- The inputs of the digest for the credentials of the run. -/
def letterInputs : List (List UInt8) :=
  sampleLetters.flatMap fun letter =>
    [framedCredential .authorizationCode (letterValue letter),
      framedCredential .accessToken (letterValue letter),
      framedCredential .refreshToken (letterValue letter),
      framedGrant (credentialDigest letterLibrary .authorizationCode (letterValue letter))]

def letterHashed : Set (List UInt8) :=
  {input | input ∈ letterInputs}

theorem letterLibrary_injective : Set.InjOn letterLibrary.sha256 letterHashed := by
  have distinct : (letterInputs.map fun input =>
      (UInt8.ofNat input.length, input.getLastD 0)).Nodup := by decide
  intro first listed second listed' same
  apply List.inj_on_of_nodup_map distinct listed listed'
  simpa [letterLibrary] using same

theorem letterValue_hashes {letter : UInt8} (listed : letter ∈ sampleLetters) :
    Hashes letterLibrary letterHashed (letterValue letter) := by
  constructor
  · intro kind
    refine List.mem_flatMap.mpr ⟨letter, listed, ?_⟩
    cases kind <;> simp
  · exact List.mem_flatMap.mpr ⟨letter, listed, by simp⟩

/-- Readings at the first instant that draw the given letters. -/
def letterReadings (letters : List UInt8) : Readings :=
  ⟨0, 0, 0, ⟨fun _ _ => 0, fun _ => 0⟩, fun draw =>
    match letters[draw]? with
    | some letter => .ok (letterBlock letter)
    | none => .error "no more draws"⟩

theorem letters_fresh {world : World} {letters : List UInt8}
    (unused : ∀ letter ∈ letters, letter ∈ sampleLetters ∧ letterValue letter ∉ world.drawn)
    (draw : Nat) (value : String)
    (drawn : generateToken letterLibrary ((letterReadings letters).draws draw) = .ok value) :
    FreshDraw letterServer letterHashed world value := by
  cases found : letters[draw]? with
  | none => simp [letterReadings, found, generateToken, Except.mapError, Except.map] at drawn
  | some letter =>
    obtain rfl : letterValue letter = value := by
      simpa [letterReadings, found, generateToken, Except.mapError, Except.map, letterValue]
        using drawn
    obtain ⟨listed, absent⟩ := unused letter (List.mem_of_getElem? found)
    exact ⟨absent, letterValue_hashes listed⟩

def letterClient : OAuthClient :=
  ⟨"app", none, .publicClient, ["https://app.invalid/"], {"read"}, none, none⟩

def letterVerifier : String :=
  String.ofList (List.replicate 43 'v')

def letterChallenge : String :=
  letterLibrary.base64UrlEncode (letterLibrary.sha256 (bytes letterVerifier)).bytes

def letterApproval (binding : AuthorizationApprovalBinding) : AuthorizationApprovalDisposition :=
  .approved ⟨binding, "user", binding.scopes, binding.resource, letterBlock 0⟩

def letterAuthorization : AuthorizationRequest :=
  ⟨"code", "app", "https://app.invalid/", ["read"], none, none, letterChallenge, .s256⟩

def letterExchange : TokenRequest :=
  ⟨"authorization_code", some (letterValue 65), some "https://app.invalid/", "app", none,
    some letterVerifier, none, none, none⟩

def letterRefresh (letter : UInt8) : TokenRequest :=
  ⟨"refresh_token", none, none, "app", none, none, some (letterValue letter), none, none⟩

def letterRegister (world : World) (epoch : UInt8) : World :=
  let outcome := letterServer.registerClient world.state letterClient (letterReadings [epoch])
  world.after outcome.2 (registerEvents "app" outcome.1)

def letterRegistered : World :=
  letterRegister .initial 1

def letterAuthorized : World :=
  let outcome := letterServer.authorize letterRegistered.state letterRegistered.state
    letterAuthorization letterApproval (letterReadings []) (letterReadings [65])
  letterRegistered.after outcome.2 (authorizeEvents outcome.1)

def letterExchanged : World :=
  let outcome := letterServer.tokenAuthorizationCode letterAuthorized.state letterAuthorized.state
    letterExchange (letterReadings [66, 67])
  letterAuthorized.after outcome.2 (tokenEvents .exchanged letterExchange.code outcome.1)

def letterRefreshed : World :=
  let outcome := letterServer.tokenRefreshToken letterExchanged.state letterExchanged.state
    (letterRefresh 67) (letterReadings [68, 69])
  letterExchanged.after outcome.2 (tokenEvents .refreshed (letterRefresh 67).refreshToken outcome.1)

def letterRemoved : World :=
  let outcome := letterServer.unregisterClient letterRefreshed.state "app" (letterReadings [])
  letterRefreshed.after outcome.2 (unregisterEvents letterRefreshed.state "app" outcome.1)

def letterReregistered : World :=
  letterRegister letterRemoved 2

/-- The record of the code of the run. -/
def letterCode : AuthorizationCode :=
  ⟨"app", "https://app.invalid/", ["read"], none, letterChallenge, .s256, 0, seconds 300,
    some "user", none, letterBlock 1⟩

/-- The pairs of tokens of the run. -/
def letterPair (access refresh : UInt8) : PreparedTokenPair :=
  OAuthServer.tokenPair (letterValue access) (letterValue refresh) "app" ["read"] none
    (some "user") (letterBlock 1) (deriveAuthorizationGrantId letterLibrary
      (credentialDigest letterLibrary .authorizationCode (letterValue 65)))
    0 (seconds 900) (seconds 2592000)

/-- The events of the run, and what its steps find. All of it is evaluated at once, since each
state is computed from the one before. -/
theorem letter_run :
    letterRefreshed.events =
      [.refreshed (letterValue 67) (letterPair 68 69),
        .exchanged (letterValue 65) (letterPair 66 67), .authorized (letterValue 65) letterCode,
        .registered "app" (letterBlock 1)] ∧
    letterReregistered.events =
      [.registered "app" (letterBlock 2), .unregistered "app" (letterBlock 1)] ++
        letterRefreshed.events ∧
    (∀ letter ∈ [65], letter ∈ sampleLetters ∧ letterValue letter ∉ letterRegistered.drawn) ∧
    (∀ letter ∈ [66, 67], letter ∈ sampleLetters ∧ letterValue letter ∉ letterAuthorized.drawn) ∧
    (∀ letter ∈ [68, 69], letter ∈ sampleLetters ∧ letterValue letter ∉ letterExchanged.drawn) ∧
    letterBlock 2 ∉ letterRemoved.events.filterMap Event.registeredEpoch ∧
    letterRefreshed.state.refreshTokens[
      credentialDigest letterLibrary .refreshToken (letterValue 69)]? =
        some (letterPair 68 69).refreshMetadata ∧
    letterServer.refreshAdmission (letterRefresh 67) =
      .ok (letterValue 67, credentialDigest letterLibrary .refreshToken (letterValue 67)) ∧
    authenticateClientOrDummy letterLibrary letterRefreshed.state "app" none =
      .ok (letterBlock 1) ∧
    letterServer.checkConfig (letterReadings []) = .ok () := by
  decide +kernel

theorem letterRegistered_reached :
    Reachable (Step letterServer letterHashed) .initial letterRegistered :=
  Reachable.start.extend (.register .initial letterClient (letterReadings [1]) fun _ _ => by
    simp [World.initial])

theorem letterAuthorized_reached :
    Reachable (Step letterServer letterHashed) .initial letterAuthorized :=
  letterRegistered_reached.extend (.authorize letterRegistered letterRegistered.state
    letterAuthorization letterApproval (letterReadings []) (letterReadings [65])
    (List.mem_cons_self ..) (letters_fresh letter_run.2.2.1 0))

theorem letterExchanged_reached :
    Reachable (Step letterServer letterHashed) .initial letterExchanged := by
  refine letterAuthorized_reached.extend (.exchange letterAuthorized letterAuthorized.state
    letterExchange (letterReadings [66, 67]) (List.mem_cons_self ..) ?_
    (letters_fresh letter_run.2.2.2.1))
  rintro _ ⟨⟩
  exact letterValue_hashes (by decide)

theorem letterRefreshed_reached :
    Reachable (Step letterServer letterHashed) .initial letterRefreshed := by
  refine letterExchanged_reached.extend (.refresh letterExchanged letterExchanged.state
    (letterRefresh 67) (letterReadings [68, 69]) (List.mem_cons_self ..) ?_
    (letters_fresh letter_run.2.2.2.2.1))
  rintro _ ⟨⟩
  exact letterValue_hashes (by decide)

theorem letterReregistered_reached :
    Reachable (Step letterServer letterHashed) .initial letterReregistered := by
  refine (letterRefreshed_reached.extend (.unregister letterRefreshed "app"
    (letterReadings []))).extend (.register letterRemoved letterClient (letterReadings [2]) ?_)
  rintro _ ⟨⟩
  exact letter_run.2.2.2.2.2.1

theorem letterReregistered_events : letterReregistered.events =
    [.registered "app" (letterBlock 2), .unregistered "app" (letterBlock 1),
      .refreshed (letterValue 67) (letterPair 68 69), .exchanged (letterValue 65) (letterPair 66 67),
      .authorized (letterValue 65) letterCode, .registered "app" (letterBlock 1)] := by
  rw [letter_run.2.1, letter_run.1]
  rfl

/-- The pairs of the run descend from its code. -/
theorem letterPairs_descend (events : List Event)
    (exchanged : .exchanged (letterValue 65) (letterPair 66 67) ∈ events)
    (refreshed : .refreshed (letterValue 67) (letterPair 68 69) ∈ events) :
    Descends events (letterValue 65) (letterPair 66 67) ∧
      Descends events (letterValue 65) (letterPair 68 69) :=
  ⟨.exchanged exchanged, .refreshed (.exchanged exchanged) refreshed⟩

/-! ## Grants are used once and never widen -/

/-- What holds of a grant in every state: its credentials were used at most once, it has at most
one refresh token, and its tokens carry what its code was authorized for, narrow those they were
refreshed from and end with the lifetime that the first pair started. -/
structure Contained (server : OAuthServer) (world : World) : Prop where
  codesOnce : (world.events.filterMap Event.exchangedCode).Nodup
  refreshesOnce : (world.events.filterMap Event.refreshedToken).Nodup
  single : ∀ (value : String) (digest other : CredentialDigest) (token second : StoredOAuthToken),
    Belongs world.events value token → Belongs world.events value second →
      world.state.refreshTokens[digest]? = some token →
      world.state.refreshTokens[other]? = some second → digest = other
  origin : ∀ value token, Belongs world.events value token →
    ∃ code first, .authorized value code ∈ world.events ∧ .exchanged value first ∈ world.events ∧
      token.clientId = code.clientId ∧ token.subject = code.subject ∧
      token.resource = code.resource ∧ (∀ scope ∈ token.scopes, scope ∈ code.scopes) ∧
      token.expiresAt ≤ first.accessMetadata.issuedAt + server.config.refreshTokenLifetime
  narrowing : ∀ value parent pair, Descends world.events value parent →
    .refreshed parent.refreshValue pair ∈ world.events →
      pair.Both fun token => ∀ scope ∈ token.scopes, scope ∈ parent.refreshMetadata.scopes
  stored : ∀ token, Stored world.state token → ∃ value, Belongs world.events value token
  valid : ∀ text first second token,
    server.validateStoredAccessToken world.state text first second = some token →
      (∃ value, Belongs world.events value token) ∧ first < token.expiresAt

/-- In every run each code and each refresh token is exchanged at most once, each grant has at
most one refresh token, and no token of it widens or outlives its deadline. -/
theorem grants_contained (server : OAuthServer) (hashed : Set (List UInt8))
    (injective : Set.InjOn server.library.sha256 hashed) (world : World)
    (reached : Reachable (Step server hashed) .initial world) : Contained server world := by
  have sound := Sound.reached injective reached
  have accounted : ∀ token, Stored world.state token →
      ∃ value, Belongs world.events value token := by
    intro token stored
    obtain ⟨value, pair, descends, same⟩ := sound.holds.stored stored
    exact ⟨value, pair, descends, same⟩
  refine ⟨sound.history.exchangedOnce, sound.history.refreshedOnce, ?_, ?_, ?_, accounted, ?_⟩
  · intro value digest other token second belongs others found again
    exact sound.holds.single digest other token second found again
      (sound.same_family belongs others).1
  · intro value token belongs
    obtain ⟨code, first, authorized, exchanged, origin⟩ := sound.belongs belongs
    exact ⟨code, first, authorized, exchanged, origin.clientId, origin.subject, origin.resource,
      origin.scopes, origin.expiresAt.trans_eq origin.family⟩
  · intro value parent pair descends rotated
    have narrows := sound.history.narrows descends rotated
    exact ⟨narrows.1.scopes, narrows.2.scopes⟩
  · intro text first second token valid
    obtain ⟨found, live, -⟩ := validateStoredAccessToken_eq_some valid
    exact ⟨accounted token ⟨_, .inl found⟩, live⟩

theorem grants_contained_refreshed :
    .refreshed (letterValue 67) (letterPair 68 69) ∈ letterRefreshed.events ∧
      Contained letterServer letterRefreshed :=
  ⟨by simp [letter_run.1], grants_contained letterServer letterHashed
    letterLibrary_injective letterRefreshed letterRefreshed_reached⟩

/-! ## Nothing crosses a registration -/

/-- A request to the token endpoint that presents a credential of the grant of a code. -/
def Presents (events : List Event) (code : String) (request : TokenRequest) : Prop :=
  (request.grantType = "authorization_code" ∧ request.code = some code) ∨
    (request.grantType = "refresh_token" ∧ ∃ pair, Descends events code pair ∧
      request.refreshToken = some pair.refreshValue)

/-- Once the registration that a grant was approved under is removed, the token endpoint accepts
no credential of the grant and no access token of it is valid. -/
theorem removal_ends_grants (server : OAuthServer) (hashed : Set (List UInt8))
    (injective : Set.InjOn server.library.sha256 hashed) (world : World)
    (reached : Reachable (Step server hashed) .initial world) (value : String)
    (code : AuthorizationCode) (authorized : .authorized value code ∈ world.events)
    (removed : .unregistered code.clientId code.registrationEpoch ∈ world.events) :
    (∀ seen request readings, Presents world.events value request →
      ∃ error, (server.token seen world.state request readings).1 = .error error) ∧
    ∀ pair first second, Descends world.events value pair →
      server.validateAccessToken world.state pair.accessValue first second = none := by
  have sound := Sound.reached injective reached
  have ended := sound.removed_not_current code.clientId removed
  constructor
  · rintro seen request readings (⟨kind, presented⟩ | ⟨kind, pair, descends, presented⟩)
    · rw [server.token_code seen world.state readings kind]
      rcases server.tokenAuthorizationCode_cases seen world.state readings request with
        ⟨error, failed, -⟩ | ⟨given, exchanged, pair, exchanges, -⟩
      · exact ⟨error, by rw [failed]; rfl⟩
      · obtain rfl := Option.some.inj (presented.symm.trans exchanges.presented)
        exact absurd (sound.exchanged_current injective authorized exchanges) ended
    · rw [server.token_refresh seen world.state readings kind]
      rcases server.tokenRefreshToken_cases seen world.state readings request with
        ⟨error, failed, -⟩ | ⟨given, marker, -, -, outcome⟩ | ⟨given, stored, _, _, rotates, -⟩
      · exact ⟨error, by rw [failed]; rfl⟩
      · exact ⟨_, by rw [outcome]; rfl⟩
      · obtain rfl := Option.some.inj (presented.symm.trans rotates.presented)
        have found := (cleanup_refresh.mp rotates.found).1
        have same := sound.refresh_of_pair injective descends found
        exact absurd (sound.stored_current authorized ⟨pair, descends, .inr same⟩
          ⟨_, .inr found⟩) ended
  · intro pair first second descends
    rw [OAuthServer.validateAccessToken, Option.map_eq_none_iff]
    by_contra accepted
    obtain ⟨token, valid⟩ := Option.ne_none_iff_exists'.mp accepted
    obtain ⟨found, -⟩ := validateStoredAccessToken_eq_some valid
    have same := sound.access_of_pair injective descends found
    exact ended (sound.stored_current authorized ⟨pair, descends, .inl same⟩ ⟨_, .inl found⟩)

theorem removal_ends_grants_reregistered :
    (∃ error, (letterServer.token letterReregistered.state letterReregistered.state
      (letterRefresh 69) (letterReadings [])).1 = .error error) ∧
    letterServer.validateAccessToken letterReregistered.state (letterValue 68) 0 0 = none := by
  have descends := (letterPairs_descend letterReregistered.events
    (by simp [letterReregistered_events]) (by simp [letterReregistered_events])).2
  obtain ⟨refused, invalid⟩ := removal_ends_grants letterServer letterHashed
    letterLibrary_injective letterReregistered letterReregistered_reached (letterValue 65)
    letterCode (by simp [letterReregistered_events])
    (by simp [letterReregistered_events, letterCode])
  exact ⟨refused _ _ _ (.inr ⟨rfl, _, descends, rfl⟩), invalid _ 0 0 descends⟩

/-! ## Reuse of a refresh token -/

/-- A well-formed and authenticated request that presents the refresh token of a pair again. The
limits of the server are those its configuration admits; the resource and the scopes of the
request are its own. -/
structure Replays (server : OAuthServer) (state : OAuthServerState) (pair : PreparedTokenPair)
    (request : TokenRequest) (readings : Readings) : Prop where
  grantType : request.grantType = "refresh_token"
  clientId : request.clientId = pair.refreshMetadata.clientId
  refreshToken : request.refreshToken = some pair.refreshValue
  wellFormed : ∃ admitted, server.refreshAdmission request = .ok admitted
  authenticated : ∃ epoch, authenticateClientOrDummy server.library state request.clientId
    request.clientSecret = .ok epoch
  limits : server.checkConfig readings = .ok ()

/-- While a token of a grant is retained, every refresh token of the grant that was exchanged is
guarded, at least as long as that token lives. While one is valid, a later request that presents
such a refresh token again fails and leaves no token of the grant. -/
theorem reuse_revokes_grant (server : OAuthServer) (hashed : Set (List UInt8))
    (injective : Set.InjOn server.library.sha256 hashed) (earlier world : World)
    (reachedEarlier : Reachable (Step server hashed) .initial earlier)
    (reached : Reachable (Step server hashed) .initial world) (value : String)
    (parent pair : PreparedTokenPair) (descends : Descends world.events value parent)
    (rotatedEarlier : .refreshed parent.refreshValue pair ∈ earlier.events)
    (rotated : .refreshed parent.refreshValue pair ∈ world.events) :
    (∀ token, Belongs world.events value token → Stored world.state token →
      Guarding world.state.revokedTokens
        (credentialDigest server.library .refreshToken parent.refreshValue) token.clientId
        token.grantId token.expiresAt) ∧
    ∀ request readings token, Replays server world.state parent request readings →
      Belongs world.events value token → Stored world.state token →
      readings.now < token.expiresAt →
        (server.token earlier.state world.state request readings).1 = .error invalidGrantError ∧
        ∀ other, Belongs world.events value other →
          ¬ Stored (server.token earlier.state world.state request readings).2 other := by
  have sound := Sound.reached injective reached
  have soundEarlier := Sound.reached injective reachedEarlier
  have rotation : Belongs world.events value pair.refreshMetadata :=
    ⟨pair, .refreshed descends rotated, .inr rfl⟩
  have guarded : ∀ token, Belongs world.events value token → Stored world.state token →
      Guarding world.state.revokedTokens
        (credentialDigest server.library .refreshToken parent.refreshValue) token.clientId
        token.grantId token.expiresAt := by
    intro token belongs stored
    obtain ⟨marker, marked, guard, client, grant, late⟩ := sound.holds.guarded _ _ rotated token
      stored (sound.same_family belongs rotation).1
    exact ⟨marker, marked, guard, client, grant,
      (sound.holds.expiry sound.history stored).trans late⟩
  refine ⟨guarded, ?_⟩
  intro request readings token replays belongs stored live
  obtain ⟨⟨given, digest⟩, admitted⟩ := replays.wellFormed
  obtain ⟨epoch, authenticated⟩ := replays.authenticated
  obtain ⟨presented, rfl⟩ := server.refreshAdmission_eq_ok admitted
  obtain rfl := Option.some.inj (replays.refreshToken.symm.trans presented)
  obtain ⟨marker, marked, -, client, grant, late⟩ := guarded token belongs stored
  have source : Belongs world.events value parent.refreshMetadata := ⟨parent, descends, .inr rfl⟩
  have owner : marker.clientId = request.clientId := by
    rw [client, replays.clientId, (sound.same_family belongs source).2]
  have outcome := server.tokenRefreshToken_replay earlier.state world.state readings admitted
    (soundEarlier.rotated_absent injective rotatedEarlier)
    (sound.rotated_absent injective rotated) replays.limits authenticated
    (cleanup_revoked.mpr ⟨marked, live.trans_le late⟩) owner
  rw [server.token_refresh earlier.state world.state readings replays.grantType, outcome]
  refine ⟨rfl, ?_⟩
  rintro other others ⟨digest, kept⟩
  have family : other.clientId = request.clientId ∧ other.grantId = marker.grantId := by
    obtain ⟨sameGrant, sameClient⟩ := sound.same_family others belongs
    exact ⟨by rw [sameClient, ← client, owner], by rw [sameGrant, grant]⟩
  rcases kept with kept | kept
  · exact ((revokeGrantFamily_access _ _ _ _ _ _).mp kept).2 family
  · exact ((revokeGrantFamily_refresh _ _ _ _ _ _).mp kept).2 family

theorem reuse_revokes_grant_refreshed :
    (letterServer.token letterRefreshed.state letterRefreshed.state (letterRefresh 67)
      (letterReadings [])).1 = .error invalidGrantError ∧
    ¬ Stored (letterServer.token letterRefreshed.state letterRefreshed.state (letterRefresh 67)
      (letterReadings [])).2 (letterPair 68 69).refreshMetadata := by
  have rotated : .refreshed (letterPair 66 67).refreshValue (letterPair 68 69) ∈
      letterRefreshed.events := by
    rw [letter_run.1]
    exact List.mem_cons_self ..
  have descend := letterPairs_descend letterRefreshed.events
    (by simp [letter_run.1]) rotated
  have belongs : Belongs letterRefreshed.events (letterValue 65)
      (letterPair 68 69).refreshMetadata := ⟨_, descend.2, .inr rfl⟩
  have stored : Stored letterRefreshed.state (letterPair 68 69).refreshMetadata :=
    ⟨credentialDigest letterLibrary .refreshToken (letterValue 69),
      .inr letter_run.2.2.2.2.2.2.1⟩
  have replays : Replays letterServer letterRefreshed.state (letterPair 66 67) (letterRefresh 67)
      (letterReadings []) :=
    ⟨rfl, rfl, rfl, ⟨(letterValue 67, credentialDigest letterLibrary .refreshToken
      (letterValue 67)), letter_run.2.2.2.2.2.2.2.1⟩,
      ⟨letterBlock 1, letter_run.2.2.2.2.2.2.2.2.1⟩, letter_run.2.2.2.2.2.2.2.2.2⟩
  obtain ⟨-, revokes⟩ := reuse_revokes_grant letterServer letterHashed letterLibrary_injective
    letterRefreshed letterRefreshed letterRefreshed_reached letterRefreshed_reached
    (letterValue 65) (letterPair 66 67) (letterPair 68 69) descend.1 rotated rotated
  obtain ⟨failed, revoked⟩ := revokes _ _ _ replays belongs stored (by decide)
  exact ⟨failed, revoked _ belongs⟩

end FastMcp.OAuth
