import FastMcp.OAuthRuns

/-! # What the authorization server retains

Everything in the state is accounted for by what happened: codes and tokens
belong to the current registration of their client, a grant has at most one
refresh token, and every refresh token that was rotated is guarded by a marker
while a token of its grant is retained.
-/

namespace FastMcp.OAuth

open OrderedMaps TransitionRuns OAuthServerState

/-! ## The invariant of the state -/

/-- A registration is the current one of its client. -/
def Current (state : OAuthServerState) (clientId : String) (epoch : OAuthRegistrationEpoch) :
    Prop :=
  ∃ client, state.clients[clientId]? = some client ∧ client.registrationEpoch = epoch

/-- A token is retained, as an access token or as a refresh token. -/
def Stored (state : OAuthServerState) (token : StoredOAuthToken) : Prop :=
  ∃ digest : CredentialDigest,
    state.accessTokens[digest]? = some token ∨ state.refreshTokens[digest]? = some token

/-- Everything the state retains is accounted for by the events. -/
structure Holds (server : OAuthServer) (events : List Event) (state : OAuthServerState) :
    Prop where
  clients : ∀ (clientId : String) (client : RegisteredOAuthClient),
    state.clients[clientId]? = some client →
      .registered clientId client.registrationEpoch ∈ events ∧
        ∀ other, .unregistered other client.registrationEpoch ∉ events
  codes : ∀ (digest : CredentialDigest) (code : AuthorizationCode),
    state.authorizationCodes[digest]? = some code →
      ∃ value, digest = credentialDigest server.library .authorizationCode value ∧
        .authorized value code ∈ events ∧ ∀ pair, .exchanged value pair ∉ events
  codesCurrent : ∀ (digest : CredentialDigest) (code : AuthorizationCode),
    state.authorizationCodes[digest]? = some code →
      Current state code.clientId code.registrationEpoch
  access : ∀ (digest : CredentialDigest) (token : StoredOAuthToken),
    state.accessTokens[digest]? = some token →
      ∃ code pair, Descends events code pair ∧ token = pair.accessMetadata ∧
        digest = credentialDigest server.library .accessToken pair.accessValue
  refresh : ∀ (digest : CredentialDigest) (token : StoredOAuthToken),
    state.refreshTokens[digest]? = some token →
      ∃ code pair, Descends events code pair ∧ token = pair.refreshMetadata ∧
        digest = credentialDigest server.library .refreshToken pair.refreshValue ∧
        ∀ next, .refreshed pair.refreshValue next ∉ events
  tokensCurrent : ∀ token, Stored state token →
    Current state token.clientId token.registrationEpoch
  single : ∀ (digest other : CredentialDigest) (token second : StoredOAuthToken),
    state.refreshTokens[digest]? = some token → state.refreshTokens[other]? = some second →
      token.grantId = second.grantId → digest = other
  guarded : ∀ value pair, .refreshed value pair ∈ events → ∀ token, Stored state token →
    token.grantId = pair.refreshMetadata.grantId →
      Guarding state.revokedTokens (credentialDigest server.library .refreshToken value)
        token.clientId token.grantId token.familyExpiresAt
  bounded : state.revokedTokens.size ≤ server.config.maxRevocationTombstones

namespace Holds

variable {server : OAuthServer} {hashed : Set (List UInt8)} {events : List Event}
  {state next : OAuthServerState}

theorem new (server : OAuthServer) : Holds server [] .new where
  clients := by simp [OAuthServerState.new]
  codes := by simp [OAuthServerState.new]
  codesCurrent := by simp [OAuthServerState.new]
  access := by simp [OAuthServerState.new]
  refresh := by simp [OAuthServerState.new]
  tokensCurrent := by simp [OAuthServerState.new, Stored]
  single := by simp [OAuthServerState.new]
  guarded := by simp
  bounded := by simp [OAuthServerState.new]

variable {token : StoredOAuthToken} {value : String} {pair : PreparedTokenPair}
  {readings : Readings}

/-- A retained token is one of a pair. -/
theorem stored (holds : Holds server events state) (stored : Stored state token) :
    ∃ code pair, Descends events code pair ∧
      (token = pair.accessMetadata ∨ token = pair.refreshMetadata) := by
  obtain ⟨digest, access | refresh⟩ := stored
  · obtain ⟨code, pair, descends, same, -⟩ := holds.access digest token access
    exact ⟨code, pair, descends, .inl same⟩
  · obtain ⟨code, pair, descends, same, -⟩ := holds.refresh digest token refresh
    exact ⟨code, pair, descends, .inr same⟩

/-- A change that only drops entries, and keeps the guards of the tokens that stay, keeps the
invariant. -/
theorem shrink (holds : Holds server events state)
    (clients : next.clients = state.clients)
    (codes : ∀ (digest : CredentialDigest) (code : AuthorizationCode),
      next.authorizationCodes[digest]? = some code →
        state.authorizationCodes[digest]? = some code)
    (access : ∀ (digest : CredentialDigest) (token : StoredOAuthToken),
      next.accessTokens[digest]? = some token → state.accessTokens[digest]? = some token)
    (refresh : ∀ (digest : CredentialDigest) (token : StoredOAuthToken),
      next.refreshTokens[digest]? = some token → state.refreshTokens[digest]? = some token)
    (bounded : next.revokedTokens.size ≤ server.config.maxRevocationTombstones)
    (guarding : ∀ digest token, Stored next token →
      Guarding state.revokedTokens digest token.clientId token.grantId token.familyExpiresAt →
        Guarding next.revokedTokens digest token.clientId token.grantId token.familyExpiresAt) :
    Holds server events next := by
  have still : ∀ token, Stored next token → Stored state token := by
    rintro token ⟨digest, found | found⟩
    · exact ⟨digest, .inl (access digest token found)⟩
    · exact ⟨digest, .inr (refresh digest token found)⟩
  have current : ∀ clientId epoch, Current state clientId epoch → Current next clientId epoch := by
    rintro clientId epoch ⟨client, found, same⟩
    exact ⟨client, by rw [clients, found], same⟩
  constructor
  · intro clientId client found
    rw [clients] at found
    exact holds.clients clientId client found
  · exact fun digest code found => holds.codes digest code (codes digest code found)
  · exact fun digest code found =>
      current _ _ (holds.codesCurrent digest code (codes digest code found))
  · exact fun digest token found => holds.access digest token (access digest token found)
  · exact fun digest token found => holds.refresh digest token (refresh digest token found)
  · exact fun token stored => current _ _ (holds.tokensCurrent token (still token stored))
  · exact fun digest other token second found again =>
      holds.single digest other token second (refresh digest token found)
        (refresh other second again)
  · intro value pair happened token stored same
    exact guarding _ token stored (holds.guarded value pair happened token (still token stored) same)
  · exact bounded

theorem expiry (holds : Holds server events state) (history : History server hashed events)
    (stored : Stored state token) : token.expiresAt ≤ token.familyExpiresAt := by
  obtain ⟨code, pair, descends, rfl | rfl⟩ := holds.stored stored
  · obtain ⟨_, _, -, -, both⟩ := history.lineage descends
    exact both.1.expiresAt
  · obtain ⟨_, _, -, -, both⟩ := history.lineage descends
    exact both.2.expiresAt

theorem cleanup (holds : Holds server events state) (history : History server hashed events)
    (now : Nat) : Holds server events (state.cleanupExpiredAt now) := by
  refine holds.shrink rfl (fun _ _ found => (cleanup_codes.mp found).1)
    (fun _ _ found => (cleanup_access.mp found).1) (fun _ _ found => (cleanup_refresh.mp found).1)
    (Std.ExtTreeMap.size_filter_le_size.trans holds.bounded) ?_
  -- A token that is not expired has a family that is not, and the guard lasts as long.
  rintro digest token ⟨found, access | refresh⟩ ⟨marker, present, guard, client, grant, late⟩
  · obtain ⟨before, live⟩ := cleanup_access.mp access
    have family := holds.expiry history ⟨found, .inl before⟩
    exact ⟨marker, cleanup_revoked.mpr ⟨present, by omega⟩, guard, client, grant, late⟩
  · obtain ⟨before, live⟩ := cleanup_refresh.mp refresh
    have family := holds.expiry history ⟨found, .inr before⟩
    exact ⟨marker, cleanup_revoked.mpr ⟨present, by omega⟩, guard, client, grant, late⟩

theorem refused (holds : Holds server events state) (history : History server hashed events)
    {Value : Type} {now : Nat} {outcome : Fallible Value × OAuthServerState}
    (refused : Refused state now outcome) : Holds server events outcome.2 := by
  obtain ⟨error, -, same | same⟩ := refused
  · rw [same]
    exact holds
  · rw [same]
    exact holds.cleanup history now

theorem revokeAccess (holds : Holds server events state) (clientId : String)
    (digest : CredentialDigest) (readings : Readings) :
    Holds server events (server.revokeAccess state clientId digest readings) := by
  unfold OAuthServer.revokeAccess
  split
  · exact holds
  · refine holds.shrink ?_ ?_ ?_ ?_ (insertTombstone_size holds.bounded) ?_
    · exact insertTombstone_frame OAuthServerState.clients fun _ _ => rfl
    · intro other code found
      rw [insertTombstone_frame authorizationCodes fun _ _ => rfl] at found
      exact found
    · intro other token found
      rw [insertTombstone_frame accessTokens fun _ _ => rfl] at found
      exact (getElem?_erase_eq_some.mp found).2
    · intro other token found
      rw [insertTombstone_frame refreshTokens fun _ _ => rfl] at found
      exact found
    · exact fun _ _ _ guarding => insertTombstone_guarding guarding

theorem revokeFamily (holds : Holds server events state) (grantId : OAuthGrantId)
    (clientId : String) (walks : Walks) (now : Nat) :
    Holds server events (state.revokeGrantFamily server.config walks grantId clientId now) := by
  refine holds.shrink ?_ ?_ ?_ ?_ (revokeGrantFamily_size holds.bounded) ?_
  · exact revokeGrantFamily_frame _ _ _ _ _ _ OAuthServerState.clients fun _ _ _ _ => rfl
  · intro digest code found
    rw [revokeGrantFamily_frame _ _ _ _ _ _ authorizationCodes fun _ _ _ _ => rfl] at found
    exact found
  · intro digest token found
    rw [revokeGrantFamily_access] at found
    exact found.1
  · intro digest token found
    rw [revokeGrantFamily_refresh] at found
    exact found.1
  · rintro digest token ⟨found, access | refresh⟩ guarding
    · rw [revokeGrantFamily_access] at access
      exact revokeGrantFamily_guarding access.2 guarding
    · rw [revokeGrantFamily_refresh] at refresh
      exact revokeGrantFamily_guarding refresh.2 guarding

/-- A new event keeps the invariant if it neither removes a current registration nor consumes a
retained credential, and leaves a guard for a rotated token. -/
theorem grow (holds : Holds server events state) (event : Event)
    (removed : ∀ (clientId : String) (client : RegisteredOAuthClient),
      state.clients[clientId]? = some client → ∀ other,
        event ≠ .unregistered other client.registrationEpoch)
    (exchanged : ∀ value pair, event = .exchanged value pair →
      state.authorizationCodes[credentialDigest server.library .authorizationCode value]? = none)
    (refreshed : ∀ value pair, event = .refreshed value pair →
      state.refreshTokens[credentialDigest server.library .refreshToken value]? = none ∧
      ∀ token, Stored state token → token.grantId = pair.refreshMetadata.grantId →
        Guarding state.revokedTokens (credentialDigest server.library .refreshToken value)
          token.clientId token.grantId token.familyExpiresAt) :
    Holds server (event :: events) state where
  clients clientId client found := by
    obtain ⟨registered, present⟩ := holds.clients clientId client found
    refine ⟨List.mem_cons_of_mem _ registered, fun other happened => ?_⟩
    rcases List.mem_cons.mp happened with same | earlier
    · exact removed clientId client found other same.symm
    · exact present other earlier
  codes digest code found := by
    obtain ⟨value, rfl, authorized, unexchanged⟩ := holds.codes digest code found
    refine ⟨value, rfl, List.mem_cons_of_mem _ authorized, fun pair happened => ?_⟩
    rcases List.mem_cons.mp happened with same | earlier
    · rw [exchanged value pair same.symm] at found
      contradiction
    · exact unexchanged pair earlier
  codesCurrent := holds.codesCurrent
  access digest token found := by
    obtain ⟨code, pair, descends, rest⟩ := holds.access digest token found
    exact ⟨code, pair, descends.cons _, rest⟩
  refresh digest token found := by
    obtain ⟨code, pair, descends, same, rfl, unrefreshed⟩ := holds.refresh digest token found
    refine ⟨code, pair, descends.cons _, same, rfl, fun next happened => ?_⟩
    rcases List.mem_cons.mp happened with equal | earlier
    · rw [(refreshed _ next equal.symm).1] at found
      contradiction
    · exact unrefreshed next earlier
  tokensCurrent := holds.tokensCurrent
  single := holds.single
  guarded value pair happened token stored same := by
    rcases List.mem_cons.mp happened with equal | earlier
    · exact (refreshed value pair equal.symm).2 token stored same
    · exact holds.guarded value pair earlier token stored same
  bounded := holds.bounded

variable {clientId : String} {client : RegisteredOAuthClient} {code : AuthorizationCode}
  {request : TokenRequest}

theorem register (holds : Holds server events state) (history : History server hashed events)
    (absent : state.clients[clientId]? = none)
    (distinct : client.registrationEpoch ∉ events.filterMap Event.registeredEpoch) :
    Holds server (.registered clientId client.registrationEpoch :: events)
      { state with clients := state.clients.insert clientId client } := by
  have grown := holds.grow (.registered clientId client.registrationEpoch) nofun nofun nofun
  have still : ∀ other epoch, Current state other epoch →
      Current { state with clients := state.clients.insert clientId client } other epoch := by
    rintro other epoch ⟨found, present, same⟩
    refine ⟨found, getElem?_insert_eq_some.mpr (.inr ⟨?_, present⟩), same⟩
    rintro rfl
    rw [absent] at present
    contradiction
  refine { grown with
    clients := ?_
    codesCurrent := fun digest code found => still _ _ (holds.codesCurrent digest code found)
    tokensCurrent := fun token stored => still _ _ (holds.tokensCurrent token stored) }
  intro other found present
  rcases getElem?_insert_eq_some.mp present with ⟨rfl, rfl⟩ | ⟨-, before⟩
  · refine ⟨List.mem_cons_self .., fun removed happened => ?_⟩
    rcases List.mem_cons.mp happened with same | earlier
    · cases same
    · exact distinct (history.removed removed _ earlier)
  · exact grown.clients other found before

theorem unregister (holds : Holds server events state) (history : History server hashed events)
    (present : state.clients[clientId]? = some client) :
    Holds server (.unregistered clientId client.registrationEpoch :: events)
      (OAuthServer.forgetClient state clientId) := by
  -- The other clients keep their registrations, and nothing of the removed one is left.
  have still : ∀ other epoch, other ≠ clientId → Current state other epoch →
      Current (OAuthServer.forgetClient state clientId) other epoch := by
    rintro other epoch different ⟨found, listed, same⟩
    exact ⟨found, getElem?_erase_eq_some.mpr ⟨different, listed⟩, same⟩
  have access : ∀ (digest : CredentialDigest) (token : StoredOAuthToken),
      (OAuthServer.forgetClient state clientId).accessTokens[digest]? = some token →
        state.accessTokens[digest]? = some token ∧ token.clientId ≠ clientId := by
    intro digest token found
    simpa using getElem?_filter_eq_some.mp found
  have refresh : ∀ (digest : CredentialDigest) (token : StoredOAuthToken),
      (OAuthServer.forgetClient state clientId).refreshTokens[digest]? = some token →
        state.refreshTokens[digest]? = some token ∧ token.clientId ≠ clientId := by
    intro digest token found
    simpa using getElem?_filter_eq_some.mp found
  have kept : ∀ token, Stored (OAuthServer.forgetClient state clientId) token →
      Stored state token ∧ token.clientId ≠ clientId := by
    rintro token ⟨digest, found | found⟩
    · obtain ⟨before, different⟩ := access digest token found
      exact ⟨⟨digest, .inl before⟩, different⟩
    · obtain ⟨before, different⟩ := refresh digest token found
      exact ⟨⟨digest, .inr before⟩, different⟩
  have forgotten : Holds server events (OAuthServer.forgetClient state clientId) := by
    constructor
    · intro other found listed
      exact holds.clients other found (getElem?_erase_eq_some.mp listed).2
    · intro digest code found
      exact holds.codes digest code (getElem?_filter_eq_some.mp found).1
    · intro digest code found
      obtain ⟨before, different⟩ := getElem?_filter_eq_some.mp found
      exact still _ _ (by simpa using different) (holds.codesCurrent digest code before)
    · exact fun digest token found => holds.access digest token (access digest token found).1
    · exact fun digest token found => holds.refresh digest token (refresh digest token found).1
    · exact fun token stored =>
        still _ _ (kept token stored).2 (holds.tokensCurrent token (kept token stored).1)
    · exact fun digest other token second found again =>
        holds.single digest other token second (refresh digest token found).1
          (refresh other second again).1
    · intro value pair happened token stored same
      obtain ⟨before, different⟩ := kept token stored
      obtain ⟨marker, listed, guard, owner, rest⟩ :=
        holds.guarded value pair happened token before same
      refine ⟨marker, getElem?_filter_eq_some.mpr ⟨listed, ?_⟩, guard, owner, rest⟩
      simpa [owner] using different
    · exact Std.ExtTreeMap.size_filter_le_size.trans holds.bounded
  refine forgotten.grow _ ?_ nofun nofun
  rintro other found listed third same
  obtain ⟨different, before⟩ := getElem?_erase_eq_some.mp listed
  have epochs : client.registrationEpoch = found.registrationEpoch :=
    (Event.unregistered.inj same).2
  obtain ⟨registered, -⟩ := holds.clients clientId client present
  obtain ⟨again, -⟩ := holds.clients other found before
  rw [← epochs] at again
  cases event_of_key history.epochsOnce registered again rfl rfl
  exact different rfl

theorem authorize (holds : Holds server events state) (history : History server hashed events)
    (unused : value ∉ events.flatMap Event.drawn)
    (current : Current state code.clientId code.registrationEpoch) :
    Holds server (.authorized value code :: events)
      { state with
        authorizationCodes := state.authorizationCodes.insert
          (credentialDigest server.library .authorizationCode value) code } := by
  have grown := holds.grow (.authorized value code) nofun nofun nofun
  refine { grown with
    codes := ?_
    codesCurrent := ?_ }
  · intro digest found listed
    rcases getElem?_insert_eq_some.mp listed with ⟨rfl, rfl⟩ | ⟨-, before⟩
    · refine ⟨value, rfl, List.mem_cons_self .., fun pair happened => ?_⟩
      rcases List.mem_cons.mp happened with same | earlier
      · cases same
      · obtain ⟨_, authorized, -⟩ := history.origin value pair earlier
        exact unused (History.authorized_drawn authorized)
    · exact grown.codes digest found before
  · intro digest found listed
    rcases getElem?_insert_eq_some.mp listed with ⟨rfl, rfl⟩ | ⟨-, before⟩
    · exact current
    · exact holds.codesCurrent digest found before

/-- A new pair may be retained if nothing else of its grant is a refresh token and the rotated
tokens of its grant are guarded. -/
theorem retain (holds : Holds server events state) (history : History server hashed events)
    {code : String} (descends : Descends events code pair)
    (unrefreshed : ∀ next, .refreshed pair.refreshValue next ∉ events)
    (current : Current state pair.refreshMetadata.clientId pair.refreshMetadata.registrationEpoch)
    (lonely : ∀ (digest : CredentialDigest) (token : StoredOAuthToken),
      state.refreshTokens[digest]? = some token →
        token.grantId ≠ pair.refreshMetadata.grantId)
    (guarded : ∀ value other, .refreshed value other ∈ events →
      pair.refreshMetadata.grantId = other.refreshMetadata.grantId →
        Guarding state.revokedTokens (credentialDigest server.library .refreshToken value)
          pair.refreshMetadata.clientId pair.refreshMetadata.grantId
          pair.refreshMetadata.familyExpiresAt) :
    Holds server events (server.retainPair state pair) := by
  obtain ⟨client, grant, epoch, family⟩ := history.alike descends
  have split : ∀ token, Stored (server.retainPair state pair) token →
      Stored state token ∨ token = pair.accessMetadata ∨ token = pair.refreshMetadata := by
    rintro token ⟨digest, found | found⟩
    · rcases getElem?_insert_eq_some.mp found with ⟨-, rfl⟩ | ⟨-, before⟩
      · exact .inr (.inl rfl)
      · exact .inl ⟨digest, .inl before⟩
    · rcases getElem?_insert_eq_some.mp found with ⟨-, rfl⟩ | ⟨-, before⟩
      · exact .inr (.inr rfl)
      · exact .inl ⟨digest, .inr before⟩
  refine { holds with
    access := ?_
    refresh := ?_
    tokensCurrent := ?_
    single := ?_
    guarded := ?_ }
  · intro digest token found
    rcases getElem?_insert_eq_some.mp found with ⟨rfl, rfl⟩ | ⟨-, before⟩
    · exact ⟨code, pair, descends, rfl, rfl⟩
    · exact holds.access digest token before
  · intro digest token found
    rcases getElem?_insert_eq_some.mp found with ⟨rfl, rfl⟩ | ⟨-, before⟩
    · exact ⟨code, pair, descends, rfl, rfl, unrefreshed⟩
    · exact holds.refresh digest token before
  · intro token stored
    rcases split token stored with before | rfl | rfl
    · exact holds.tokensCurrent token before
    · rw [client, epoch]
      exact current
    · exact current
  · intro digest other token second found again same
    rcases getElem?_insert_eq_some.mp found with ⟨rfl, rfl⟩ | ⟨-, before⟩
    · rcases getElem?_insert_eq_some.mp again with ⟨rfl, rfl⟩ | ⟨-, earlier⟩
      · rfl
      · exact absurd same.symm (lonely other second earlier)
    · rcases getElem?_insert_eq_some.mp again with ⟨rfl, rfl⟩ | ⟨-, earlier⟩
      · exact absurd same (lonely digest token before)
      · exact holds.single digest other token second before earlier same
  · intro value other happened token stored same
    rcases split token stored with before | rfl | rfl
    · exact holds.guarded value other happened token before same
    · rw [client, grant, family]
      exact guarded value other happened (grant.symm.trans same)
    · exact guarded value other happened same

/-- The write section of a code exchange keeps the invariant. -/
theorem exchange (holds : Holds server events state) (history : History server hashed events)
    (injective : Set.InjOn server.library.sha256 hashed)
    (exchanges : server.Exchanges state readings request value code pair)
    (presented : Hashes server.library hashed value)
    (fresh : History.FreshPair server hashed events pair) :
    History server hashed (.exchanged value pair :: events) ∧
      Holds server (.exchanged value pair :: events)
        (server.retainPair { state.cleanupExpiredAt readings.now with
          authorizationCodes := (state.cleanupExpiredAt readings.now).authorizationCodes.erase
            (credentialDigest server.library .authorizationCode value) } pair) := by
  have cleaned := holds.cleanup history readings.now
  obtain ⟨original, same, authorized, unexchanged⟩ := cleaned.codes _ code exchanges.found
  obtain rfl : value = original := credentialDigest_injective injective presented
    (history.hashes original (History.authorized_drawn authorized)) same
  have both := exchanges.prepares.first
  have extended := history.exchange authorized unexchanged fresh both
  -- No pair descends from the code before it is exchanged.
  have alone : ∀ other second, Descends events other second →
      second.refreshMetadata.grantId ≠ pair.refreshMetadata.grantId := by
    intro other second descends equal
    rw [both.2.grantId] at equal
    obtain rfl := history.code_of_grant injective descends presented equal
    obtain ⟨_, first, -, exchanged, -⟩ := history.lineage descends
    exact unexchanged first exchanged
  refine ⟨extended, ?_⟩
  have consumed : Holds server events { state.cleanupExpiredAt readings.now with
      authorizationCodes := (state.cleanupExpiredAt readings.now).authorizationCodes.erase
        (credentialDigest server.library .authorizationCode value) } :=
    cleaned.shrink rfl (fun _ _ found => (getElem?_erase_eq_some.mp found).2)
      (fun _ _ found => found) (fun _ _ found => found) cleaned.bounded
      fun _ _ _ guarding => guarding
  have grown := consumed.grow (.exchanged value pair) nofun
    (fun _ _ equal => by cases equal; exact Std.ExtTreeMap.getElem?_erase_self) nofun
  refine grown.retain extended (.exchanged (List.mem_cons_self ..)) ?_ ?_ ?_ ?_
  · intro next happened
    rcases List.mem_cons.mp happened with equal | earlier
    · cases equal
    · exact fresh.unusedRefresh (history.refreshed_drawn earlier)
  · rw [both.2.clientId, both.2.epoch]
    exact exchanges.current
  · intro digest token found
    obtain ⟨other, second, descends, rfl, -⟩ := cleaned.refresh digest token found
    exact alone other second descends
  · intro original other happened equal
    rcases List.mem_cons.mp happened with impossible | earlier
    · cases impossible
    · obtain ⟨source, descends⟩ := history.refreshed_descends earlier
      exact absurd equal.symm (alone source other descends)

theorem stored_of_marked {stored : StoredOAuthToken} {digest : CredentialDigest} {deadline : Nat}
    (found : Stored
      (server.markRotated state stored digest stored.clientId deadline readings) token) :
    Stored state token := by
  obtain ⟨other, listed | listed⟩ := found
  · rw [server.markRotated_frame readings _ _ _ _ accessTokens fun _ _ _ => rfl] at listed
    exact ⟨other, .inl listed⟩
  · rw [server.markRotated_refresh readings] at listed
    exact ⟨other, .inr (getElem?_erase_eq_some.mp listed).2⟩

/-- The marker of a rotated token keeps the invariant if no other token of its family outlives
the deadline that the guards get. -/
theorem mark (holds : Holds server events state) (stored : StoredOAuthToken)
    (digest : CredentialDigest) (readings : Readings) (deadline : Nat)
    (fits : ∀ token, Stored state token → token.clientId = stored.clientId →
      token.grantId = stored.grantId → token.familyExpiresAt ≤ deadline) :
    Holds server events
      (server.markRotated state stored digest stored.clientId deadline readings) := by
  refine holds.shrink ?_ ?_ ?_ ?_ (server.markRotated_size readings holds.bounded) ?_
  · exact server.markRotated_frame readings _ _ _ _ OAuthServerState.clients fun _ _ _ => rfl
  · intro other code found
    rw [server.markRotated_frame readings _ _ _ _ authorizationCodes fun _ _ _ => rfl] at found
    exact found
  · intro other token found
    rw [server.markRotated_frame readings _ _ _ _ accessTokens fun _ _ _ => rfl] at found
    exact found
  · intro other token found
    rw [server.markRotated_refresh readings] at found
    exact (getElem?_erase_eq_some.mp found).2
  · intro other token found guarding
    exact server.markRotated_guarding readings guarding
      (fits token (stored_of_marked found))

/-- The write section of a rotation keeps the invariant. -/
theorem rotate (holds : Holds server events state) (history : History server hashed events)
    (injective : Set.InjOn server.library.sha256 hashed) {stored : StoredOAuthToken}
    {scopes : List String}
    (rotates : server.Rotates state readings request value stored scopes pair)
    (presented : Hashes server.library hashed value)
    (fresh : History.FreshPair server hashed events pair) :
    History server hashed (.refreshed value pair :: events) ∧
      Holds server (.refreshed value pair :: events)
        (server.retainPair (server.markRotated (state.cleanupExpiredAt readings.now) stored
          (credentialDigest server.library .refreshToken value) stored.clientId
          stored.familyExpiresAt readings) pair) := by
  have cleaned := holds.cleanup history readings.now
  obtain ⟨code, parent, descends, rfl, same, unrefreshed⟩ := cleaned.refresh _ stored rotates.found
  obtain rfl : value = parent.refreshValue := credentialDigest_injective injective presented
    (history.hashes _ descends.drawn.2) same
  have narrows := rotates.prepares.next rotates.narrower
  have extended := history.refresh descends rfl unrefreshed fresh narrows
  refine ⟨extended, ?_⟩
  -- The tokens of the grant share the client and the deadline that the marker is made for.
  have alike : ∀ token, Stored (state.cleanupExpiredAt readings.now) token →
      token.grantId = parent.refreshMetadata.grantId →
        token.clientId = parent.refreshMetadata.clientId ∧
          token.familyExpiresAt = parent.refreshMetadata.familyExpiresAt := by
    intro token found equal
    obtain ⟨other, second, origin, rfl | rfl⟩ := cleaned.stored found
    · obtain ⟨client, grant, -, family⟩ := history.alike origin
      rw [client, family]
      exact history.same_grant injective origin descends (grant.symm.trans equal)
    · exact history.same_grant injective origin descends equal
  have marks := server.markRotated_marks readings rotates.valid cleaned.bounded rotates.room
    rotates.unmarked rotates.live
  have marked := cleaned.mark parent.refreshMetadata
    (credentialDigest server.library .refreshToken parent.refreshValue) readings
    parent.refreshMetadata.familyExpiresAt fun token found _ grant => (alike token found grant).2.le
  have grown := marked.grow (.refreshed parent.refreshValue pair) nofun nofun ?_
  · refine grown.retain extended (.refreshed (descends.cons _) (List.mem_cons_self ..)) ?_ ?_ ?_ ?_
    · intro next happened
      rcases List.mem_cons.mp happened with equal | earlier
      · refine fresh.unusedRefresh ?_
        rw [(Event.refreshed.inj equal).1]
        exact descends.drawn.2
      · exact fresh.unusedRefresh (history.refreshed_drawn earlier)
    · rw [narrows.2.clientId, narrows.2.epoch, Current,
        server.markRotated_frame readings _ _ _ _ OAuthServerState.clients fun _ _ _ => rfl]
      exact rotates.current
    · intro digest token found equal
      rw [server.markRotated_refresh readings] at found
      obtain ⟨different, before⟩ := getElem?_erase_eq_some.mp found
      exact different (cleaned.single digest _ token _ before rotates.found
        (equal.trans narrows.2.grantId))
    · intro value other happened equal
      rw [narrows.2.clientId, narrows.2.grantId, narrows.2.family]
      rcases List.mem_cons.mp happened with same | earlier
      · rw [(Event.refreshed.inj same).1]
        exact marks
      · refine server.markRotated_guarding readings ?_ fun _ _ => le_rfl
        exact cleaned.guarded value other earlier _ ⟨_, .inr rotates.found⟩
          (narrows.2.grantId.symm.trans equal)
  · rintro _ _ ⟨⟩
    refine ⟨?_, ?_⟩
    · rw [server.markRotated_refresh readings]
      exact Std.ExtTreeMap.getElem?_erase_self
    · intro token found equal
      have before := stored_of_marked found
      obtain ⟨client, family⟩ := alike token before (equal.trans narrows.2.grantId)
      rw [client, family, equal, narrows.2.grantId]
      exact marks

end Holds

/-! ## Runs -/

/-- The events of a run are lawful, and the state agrees with them. -/
structure Sound (server : OAuthServer) (hashed : Set (List UInt8)) (world : World) : Prop where
  history : History server hashed world.events
  holds : Holds server world.events world.state

namespace Sound

variable {server : OAuthServer} {hashed : Set (List UInt8)} {world next : World}

theorem initial (server : OAuthServer) (hashed : Set (List UInt8)) :
    Sound server hashed .initial :=
  ⟨.nil server hashed, .new server⟩

theorem refused (sound : Sound server hashed world) {Value : Type} {now : Nat}
    {outcome : Fallible Value × OAuthServerState} (refused : Refused world.state now outcome)
    (events : Fallible Value → List Event) (silent : ∀ error, events (.error error) = []) :
    Sound server hashed (world.after outcome.2 (events outcome.1)) := by
  have holds := sound.holds.refused sound.history refused
  obtain ⟨error, failed, -⟩ := refused
  rw [failed, silent]
  exact ⟨sound.history, holds⟩

theorem register (sound : Sound server hashed world) (client : OAuthClient) (readings : Readings)
    (distinct : ∀ epoch, readings.draws 0 = .ok epoch →
      epoch ∉ world.events.filterMap Event.registeredEpoch) :
    Sound server hashed (world.after (server.registerClient world.state client readings).2
      (registerEvents client.clientId
        (server.registerClient world.state client readings).1)) := by
  rcases server.registerClient_cases world.state readings client with
    refused | ⟨epoch, registered, drawn, rfl, absent, outcome⟩
  · exact sound.refused refused _ fun _ => rfl
  · rw [outcome]
    have fresh := distinct _ drawn
    exact ⟨sound.history.register client.clientId fresh,
      (sound.holds.cleanup sound.history readings.now).register sound.history absent fresh⟩

theorem unregister (sound : Sound server hashed world) (clientId : String)
    (readings : Readings) :
    Sound server hashed (world.after (server.unregisterClient world.state clientId readings).2
      (unregisterEvents world.state clientId
        (server.unregisterClient world.state clientId readings).1)) := by
  rcases server.unregisterClient_cases world.state readings clientId with
    refused | ⟨client, present, outcome⟩
  · exact sound.refused refused _ fun _ => rfl
  · rw [outcome, unregisterEvents, present]
    obtain ⟨registered, -⟩ := sound.holds.clients clientId client present
    exact ⟨sound.history.unregister clientId (List.mem_filterMap.mpr ⟨_, registered, rfl⟩),
      (sound.holds.cleanup sound.history readings.now).unregister sound.history present⟩

theorem step (sound : Sound server hashed world)
    (injective : Set.InjOn server.library.sha256 hashed) (stepped : Step server hashed world next) :
    Sound server hashed next := by
  have cleaned := fun now => sound.holds.cleanup sound.history now
  cases stepped with
  | register client readings distinct => exact sound.register client readings distinct
  | unregister clientId readings => exact sound.unregister clientId readings
  | authorize seen request backend before readings _ fresh =>
    rcases server.authorize_cases seen world.state readings request backend before with
      refused | ⟨value, code, drawn, -, current, outcome⟩
    · exact sound.refused refused _ fun _ => rfl
    · rw [outcome]
      obtain ⟨unused, hashes⟩ := fresh value drawn
      exact ⟨sound.history.authorize unused hashes,
        (cleaned readings.now).authorize sound.history unused current⟩
  | exchange seen request readings _ presented fresh =>
    rcases server.tokenAuthorizationCode_cases seen world.state readings request with
      refused | ⟨value, code, pair, exchanges, outcome⟩
    · exact sound.refused refused _ fun _ => rfl
    · rw [outcome, tokenEvents, exchanges.presented]
      have access := fresh 0 _ exchanges.prepares.accessDrawn
      have refresh := fresh 1 _ exchanges.prepares.refreshDrawn
      obtain ⟨history, holds⟩ := sound.holds.exchange sound.history injective exchanges
        (presented value exchanges.presented)
        ⟨access.hashes, refresh.hashes, access.unused, refresh.unused⟩
      exact ⟨history, holds⟩
  | refresh seen request readings _ presented fresh =>
    rcases server.tokenRefreshToken_cases seen world.state readings request with
      refused | ⟨value, marker, -, -, outcome⟩ | ⟨value, stored, scopes, pair, rotates, outcome⟩
    · exact sound.refused refused _ fun _ => rfl
    · rw [outcome]
      refine ⟨sound.history, ?_⟩
      dsimp only [World.after]
      split
      · exact (cleaned readings.now).revokeFamily _ _ _ _
      · exact cleaned readings.now
    · rw [outcome, tokenEvents, rotates.presented]
      have access := fresh 0 _ rotates.prepares.accessDrawn
      have refresh := fresh 1 _ rotates.prepares.refreshDrawn
      obtain ⟨history, holds⟩ := sound.holds.rotate sound.history injective rotates
        (presented value rotates.presented)
        ⟨access.hashes, refresh.hashes, access.unused, refresh.unused⟩
      exact ⟨history, holds⟩
  | revoke token clientId clientSecret readings =>
    refine ⟨sound.history, ?_⟩
    dsimp only [World.after]
    rcases server.revoke_cases world.state readings token clientId clientSecret with
      same | same | ⟨accessDigest, refreshDigest, same⟩
    · rw [same]
      exact sound.holds
    · rw [same]
      exact cleaned readings.now
    · rw [same]
      rcases server.revokeAdmitted_cases readings _ clientId accessDigest refreshDigest with
        unchanged | access | ⟨grantId, family⟩
      · rw [unchanged]
        exact cleaned readings.now
      · rw [access]
        exact (cleaned readings.now).revokeAccess clientId accessDigest readings
      · rw [family]
        exact ((cleaned readings.now).revokeAccess clientId accessDigest readings).revokeFamily
          grantId clientId readings.walks readings.now
  | cleanup now => exact ⟨sound.history, cleaned now⟩

theorem reached {server : OAuthServer} {hashed : Set (List UInt8)} {world : World}
    (injective : Set.InjOn server.library.sha256 hashed)
    (reached : Reachable (Step server hashed) .initial world) : Sound server hashed world :=
  Reachable.invariant reached (initial server hashed) fun _ _ sound stepped =>
    sound.step injective stepped

end Sound

end FastMcp.OAuth
