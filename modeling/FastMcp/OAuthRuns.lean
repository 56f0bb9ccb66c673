import FastMcp.OAuthEffects
import FastMcp.TransitionRuns
import Mathlib.Data.Set.Function

/-! # Runs of the authorization server

A run remembers the registrations, the authorized codes and the pairs of tokens
that were issued for codes and for refresh tokens. A pair descends from the code
at the root of its chain of rotations. Operations run in any order; a read
section may have seen any earlier state.
-/

namespace FastMcp.OAuth

open ByteRecords ByteText MachineWords Outcomes TransitionRuns

/-! ## Events -/

inductive Event where
  | registered (clientId : String) (epoch : OAuthRegistrationEpoch)
  | unregistered (clientId : String) (epoch : OAuthRegistrationEpoch)
  | authorized (value : String) (code : AuthorizationCode)
  | exchanged (code : String) (pair : PreparedTokenPair)
  | refreshed (presented : String) (pair : PreparedTokenPair)
deriving DecidableEq

namespace Event

/-- The credentials that an event hands out. -/
def drawn : Event → List String
  | authorized value _ => [value]
  | exchanged _ pair => [pair.accessValue, pair.refreshValue]
  | refreshed _ pair => [pair.accessValue, pair.refreshValue]
  | _ => []

def registeredEpoch : Event → Option OAuthRegistrationEpoch
  | registered _ epoch => some epoch
  | _ => none

def authorizedCode : Event → Option String
  | authorized value _ => some value
  | _ => none

def exchangedCode : Event → Option String
  | exchanged code _ => some code
  | _ => none

/-- The pair of tokens that an event hands out. -/
def issuedPair : Event → Option PreparedTokenPair
  | exchanged _ pair => some pair
  | refreshed _ pair => some pair
  | _ => none

def issuedAccess (event : Event) : Option String :=
  event.issuedPair.map PreparedTokenPair.accessValue

def issuedRefresh (event : Event) : Option String :=
  event.issuedPair.map PreparedTokenPair.refreshValue

def refreshedToken : Event → Option String
  | refreshed presented _ => some presented
  | _ => none

theorem drawn_of_issued {event : Event} {pair : PreparedTokenPair}
    (issues : event.issuedPair = some pair) :
    pair.accessValue ∈ event.drawn ∧ pair.refreshValue ∈ event.drawn := by
  cases event with
  | exchanged code issued =>
    obtain rfl := Option.some.inj issues
    simp [drawn]
  | refreshed presented issued =>
    obtain rfl := Option.some.inj issues
    simp [drawn]
  | _ => contradiction

end Event

/-- A pair descends from the code that was exchanged for it, or for a pair whose refresh token
was presented for it. -/
inductive Descends (events : List Event) (code : String) : PreparedTokenPair → Prop where
  | exchanged {pair : PreparedTokenPair} (happened : .exchanged code pair ∈ events) :
      Descends events code pair
  | refreshed {parent pair : PreparedTokenPair} (before : Descends events code parent)
      (happened : .refreshed parent.refreshValue pair ∈ events) : Descends events code pair

variable {events : List Event} {code : String} {pair : PreparedTokenPair} {server : OAuthServer}

theorem Descends.cons (descends : Descends events code pair) (event : Event) :
    Descends (event :: events) code pair := by
  induction descends with
  | exchanged happened => exact .exchanged (List.mem_cons_of_mem _ happened)
  | refreshed _ happened ih => exact .refreshed ih (List.mem_cons_of_mem _ happened)

theorem Descends.event (descends : Descends events code pair) :
    ∃ event ∈ events, event.issuedPair = some pair := by
  cases descends with
  | exchanged happened => exact ⟨_, happened, rfl⟩
  | refreshed _ happened => exact ⟨_, happened, rfl⟩

theorem Descends.drawn (descends : Descends events code pair) :
    pair.accessValue ∈ events.flatMap Event.drawn ∧
      pair.refreshValue ∈ events.flatMap Event.drawn := by
  obtain ⟨event, happened, issues⟩ := descends.event
  have both : pair.accessValue ∈ event.drawn ∧ pair.refreshValue ∈ event.drawn :=
    Event.drawn_of_issued issues
  exact ⟨List.mem_flatMap.mpr ⟨event, happened, both.1⟩,
    List.mem_flatMap.mpr ⟨event, happened, both.2⟩⟩

/-! ## Collision-free digests -/

/-- The inputs of the hash function for a credential are among the given ones. -/
structure Hashes (library : Library) (hashed : Set (List UInt8)) (value : String) : Prop where
  framed : ∀ kind, framedCredential kind value ∈ hashed
  grant : framedGrant (credentialDigest library .authorizationCode value) ∈ hashed

section Digests

variable {library : Library} {hashed : Set (List UInt8)} {first second : String}

theorem credentialDigest_injective (injective : Set.InjOn library.sha256 hashed)
    {kind : CredentialKind} (firstHashed : Hashes library hashed first)
    (secondHashed : Hashes library hashed second)
    (same : credentialDigest library kind first = credentialDigest library kind second) :
    first = second := by
  have frames := injective (firstHashed.framed kind) (secondHashed.framed kind) same
  exact bytes_injective (List.append_cancel_left frames)

theorem grantId_injective (injective : Set.InjOn library.sha256 hashed)
    (firstHashed : Hashes library hashed first) (secondHashed : Hashes library hashed second)
    (same : deriveAuthorizationGrantId library (credentialDigest library .authorizationCode first) =
      deriveAuthorizationGrantId library (credentialDigest library .authorizationCode second)) :
    first = second := by
  have frames := injective firstHashed.grant secondHashed.grant same
  exact credentialDigest_injective injective firstHashed secondHashed
    (Block.ext (List.append_cancel_left frames))

end Digests

/-! ## Steps -/

/-- The state with the states before it and what happened so far, newest first. -/
structure World where
  state : OAuthServerState
  past : List OAuthServerState
  events : List Event

namespace World

def initial : World :=
  ⟨.new, [], []⟩

/-- The world after an operation that leaves a state and events. -/
def after (world : World) (state : OAuthServerState) (events : List Event) : World :=
  ⟨state, world.state :: world.past, events ++ world.events⟩

/-- The credentials that were handed out so far. -/
def drawn (world : World) : List String :=
  world.events.flatMap Event.drawn

end World

/-- A drawn credential that was not handed out before. -/
structure FreshDraw (server : OAuthServer) (hashed : Set (List UInt8)) (world : World)
    (value : String) : Prop where
  unused : value ∉ world.drawn
  hashes : Hashes server.library hashed value

def registerEvents (clientId : String) : Fallible OAuthRegistrationEpoch → List Event
  | .ok epoch => [.registered clientId epoch]
  | .error _ => []

def unregisterEvents (state : OAuthServerState) (clientId : String) : Fallible Unit → List Event
  | .ok _ => (state.clients[clientId]?.map fun client =>
      Event.unregistered clientId client.registrationEpoch).toList
  | .error _ => []

def authorizeEvents : Fallible (String × AuthorizationCode) → List Event
  | .ok issued => [.authorized issued.1 issued.2]
  | .error _ => []

/-- What a token operation leaves in the events, for the credential it was presented. -/
def tokenEvents (event : String → PreparedTokenPair → Event) (presented : Option String) :
    Fallible PreparedTokenPair → List Event
  | .ok pair => (presented.map fun value => event value pair).toList
  | .error _ => []

/-- One operation, as its write section. -/
inductive Step (server : OAuthServer) (hashed : Set (List UInt8)) : World → World → Prop where
  | register (world : World) (client : OAuthClient) (readings : Readings)
      (distinct : ∀ epoch, readings.draws 0 = .ok epoch →
        epoch ∉ world.events.filterMap Event.registeredEpoch) :
      Step server hashed world
        (world.after (server.registerClient world.state client readings).2
          (registerEvents client.clientId
            (server.registerClient world.state client readings).1))
  | unregister (world : World) (clientId : String) (readings : Readings) :
      Step server hashed world
        (world.after (server.unregisterClient world.state clientId readings).2
          (unregisterEvents world.state clientId
            (server.unregisterClient world.state clientId readings).1))
  | authorize (world : World) (seen : OAuthServerState) (request : AuthorizationRequest)
      (backend : AuthorizationApprovalBinding → AuthorizationApprovalDisposition)
      (before readings : Readings) (reading : seen ∈ world.state :: world.past)
      (fresh : ∀ value, generateToken server.library (readings.draws 0) = .ok value →
        FreshDraw server hashed world value) :
      Step server hashed world
        (world.after (server.authorize seen world.state request backend before readings).2
          (authorizeEvents
            (server.authorize seen world.state request backend before readings).1))
  | exchange (world : World) (seen : OAuthServerState) (request : TokenRequest)
      (readings : Readings) (reading : seen ∈ world.state :: world.past)
      (presented : ∀ value, request.code = some value → Hashes server.library hashed value)
      (fresh : ∀ draw value, generateToken server.library (readings.draws draw) = .ok value →
        FreshDraw server hashed world value) :
      Step server hashed world
        (world.after (server.tokenAuthorizationCode seen world.state request readings).2
          (tokenEvents .exchanged request.code
            (server.tokenAuthorizationCode seen world.state request readings).1))
  | refresh (world : World) (seen : OAuthServerState) (request : TokenRequest)
      (readings : Readings) (reading : seen ∈ world.state :: world.past)
      (presented : ∀ value, request.refreshToken = some value →
        Hashes server.library hashed value)
      (fresh : ∀ draw value, generateToken server.library (readings.draws draw) = .ok value →
        FreshDraw server hashed world value) :
      Step server hashed world
        (world.after (server.tokenRefreshToken seen world.state request readings).2
          (tokenEvents .refreshed request.refreshToken
            (server.tokenRefreshToken seen world.state request readings).1))
  | revoke (world : World) (token clientId : String) (clientSecret : Option String)
      (readings : Readings) :
      Step server hashed world
        (world.after (server.revoke world.state token clientId clientSecret readings).2 [])
  | cleanup (world : World) (now : Nat) :
      Step server hashed world (world.after (world.state.cleanupExpiredAt now) [])

/-! ## Chains of pairs -/

/-- A token carries what its code was authorized for, and does not outlive the first issuance
by more than the lifetime of refresh tokens. -/
structure TokenOf (server : OAuthServer) (value : String) (code : AuthorizationCode)
    (first : PreparedTokenPair) (token : StoredOAuthToken) : Prop where
  clientId : token.clientId = code.clientId
  subject : token.subject = code.subject
  resource : token.resource = code.resource
  epoch : token.registrationEpoch = code.registrationEpoch
  grantId : token.grantId = deriveAuthorizationGrantId server.library
    (credentialDigest server.library .authorizationCode value)
  scopes : ∀ scope ∈ token.scopes, scope ∈ code.scopes
  family : token.familyExpiresAt =
    first.accessMetadata.issuedAt + server.config.refreshTokenLifetime
  expiresAt : token.expiresAt ≤ token.familyExpiresAt

/-- A token that was refreshed from another one. -/
structure Narrows (parent token : StoredOAuthToken) : Prop where
  clientId : token.clientId = parent.clientId
  subject : token.subject = parent.subject
  resource : token.resource = parent.resource
  epoch : token.registrationEpoch = parent.registrationEpoch
  grantId : token.grantId = parent.grantId
  scopes : ∀ scope ∈ token.scopes, scope ∈ parent.scopes
  family : token.familyExpiresAt = parent.familyExpiresAt
  expiresAt : token.expiresAt ≤ token.familyExpiresAt

/-- Both tokens of a pair have a property. -/
def PreparedTokenPair.Both (pair : PreparedTokenPair) (holds : StoredOAuthToken → Prop) : Prop :=
  holds pair.accessMetadata ∧ holds pair.refreshMetadata

theorem TokenOf.narrow {value : String} {code : AuthorizationCode} {first : PreparedTokenPair}
    {parent token : StoredOAuthToken} (origin : TokenOf server value code first parent)
    (narrows : Narrows parent token) :
    TokenOf server value code first token where
  clientId := narrows.clientId.trans origin.clientId
  subject := narrows.subject.trans origin.subject
  resource := narrows.resource.trans origin.resource
  epoch := narrows.epoch.trans origin.epoch
  grantId := narrows.grantId.trans origin.grantId
  scopes scope listed := origin.scopes scope (narrows.scopes scope listed)
  family := narrows.family.trans origin.family
  expiresAt := narrows.expiresAt

variable {readings : Readings}

/-- The pair of a code exchange carries what the code was authorized for. -/
theorem OAuthServer.Prepares.first {value : String} {code : AuthorizationCode}
    (prepares : server.Prepares readings code.clientId code.scopes code.resource code.subject
      code.registrationEpoch (deriveAuthorizationGrantId server.library
        (credentialDigest server.library .authorizationCode value)) none pair) :
    pair.Both (TokenOf server value code pair) := by
  obtain ⟨accessExpiresAt, deadline, early, family, shape⟩ := prepares.shape
  simp only [OAuthServer.familyDeadline, checkedDeadline, orFail_eq_ok, checkedAdd_eq_some]
    at family
  obtain ⟨rfl, -⟩ := family
  rw [shape]
  exact ⟨⟨rfl, rfl, rfl, rfl, rfl, fun _ listed => listed, rfl, early⟩,
    ⟨rfl, rfl, rfl, rfl, rfl, fun _ listed => listed, rfl, le_rfl⟩⟩

/-- The pair of a rotation narrows the token it is made from. -/
theorem OAuthServer.Prepares.next {stored : StoredOAuthToken} {scopes : List String}
    (prepares : server.Prepares readings stored.clientId scopes stored.resource stored.subject
      stored.registrationEpoch stored.grantId (some stored.familyExpiresAt) pair)
    (narrower : ∀ scope ∈ scopes, scope ∈ stored.scopes) : pair.Both (Narrows stored) := by
  obtain ⟨accessExpiresAt, deadline, early, family, shape⟩ := prepares.shape
  obtain rfl := Except.ok.inj family
  rw [shape]
  exact ⟨⟨rfl, rfl, rfl, rfl, rfl, narrower, rfl, early⟩,
    ⟨rfl, rfl, rfl, rfl, rfl, narrower, rfl, le_rfl⟩⟩

/-- What a run remembers is consistent. -/
structure History (server : OAuthServer) (hashed : Set (List UInt8)) (events : List Event) :
    Prop where
  hashes : ∀ value ∈ events.flatMap Event.drawn, Hashes server.library hashed value
  epochsOnce : (events.filterMap Event.registeredEpoch).Nodup
  removed : ∀ clientId epoch, .unregistered clientId epoch ∈ events →
    epoch ∈ events.filterMap Event.registeredEpoch
  authorizedOnce : (events.filterMap Event.authorizedCode).Nodup
  accessOnce : (events.filterMap Event.issuedAccess).Nodup
  issuedOnce : (events.filterMap Event.issuedRefresh).Nodup
  exchangedOnce : (events.filterMap Event.exchangedCode).Nodup
  refreshedOnce : (events.filterMap Event.refreshedToken).Nodup
  origin : ∀ value pair, .exchanged value pair ∈ events →
    ∃ code, .authorized value code ∈ events ∧ pair.Both (TokenOf server value code pair)
  rotation : ∀ value pair, .refreshed value pair ∈ events →
    ∃ code parent, Descends events code parent ∧ parent.refreshValue = value ∧
      pair.Both (Narrows parent.refreshMetadata)

namespace History

variable {server : OAuthServer} {hashed : Set (List UInt8)} {events : List Event}

theorem nil (server : OAuthServer) (hashed : Set (List UInt8)) : History server hashed [] where
  hashes := by simp
  epochsOnce := List.nodup_nil
  removed := by simp
  authorizedOnce := List.nodup_nil
  accessOnce := List.nodup_nil
  issuedOnce := List.nodup_nil
  exchangedOnce := List.nodup_nil
  refreshedOnce := List.nodup_nil
  origin := by simp
  rotation := by simp

variable {code other value : String} {first second pair : PreparedTokenPair}

/-- A text that is handed out once belongs to one pair. -/
theorem pair_of_key {key : PreparedTokenPair → String}
    (once : (events.filterMap fun event => event.issuedPair.map key).Nodup)
    (descends : Descends events code first) (otherwise : Descends events other second)
    (same : key first = key second) : first = second := by
  obtain ⟨event, happened, issues⟩ := descends.event
  obtain ⟨again, repeated, reissues⟩ := otherwise.event
  have carries : event.issuedPair.map key = some (key second) := by
    rw [issues, Option.map_some, same]
  have recarries : again.issuedPair.map key = some (key second) := by
    rw [reissues, Option.map_some]
  rw [event_of_key once happened repeated carries recarries, reissues] at issues
  exact (Option.some.inj issues).symm

theorem pair_unique (history : History server hashed events) (descends : Descends events code first)
    (otherwise : Descends events other second) (same : first.refreshValue = second.refreshValue) :
    first = second :=
  pair_of_key history.issuedOnce descends otherwise same

theorem pair_unique_access (history : History server hashed events)
    (descends : Descends events code first) (otherwise : Descends events other second)
    (same : first.accessValue = second.accessValue) : first = second :=
  pair_of_key history.accessOnce descends otherwise same

variable {parent : PreparedTokenPair} {epoch : OAuthRegistrationEpoch}

/-- A rotation narrows the tokens it is made from. -/
theorem narrows (history : History server hashed events) (descends : Descends events code parent)
    (happened : .refreshed parent.refreshValue pair ∈ events) :
    pair.Both (Narrows parent.refreshMetadata) := by
  obtain ⟨other, source, before, same, narrows⟩ :=
    history.rotation parent.refreshValue pair happened
  rw [history.pair_unique descends before same.symm]
  exact narrows

/-- Every pair carries what its code was authorized for. The induction is on the chain of
rotations. -/
theorem lineage (history : History server hashed events) (descends : Descends events value pair) :
    ∃ code first, .authorized value code ∈ events ∧ .exchanged value first ∈ events ∧
      pair.Both (TokenOf server value code first) := by
  induction descends with
  | exchanged happened =>
    obtain ⟨code, authorized, both⟩ := history.origin _ _ happened
    exact ⟨code, _, authorized, happened, both⟩
  | refreshed before happened ih =>
    obtain ⟨code, first, authorized, exchanged, both⟩ := ih
    have narrows := history.narrows before happened
    exact ⟨code, first, authorized, exchanged, both.2.narrow narrows.1,
      both.2.narrow narrows.2⟩

theorem authorized_drawn {code : AuthorizationCode} (authorized : .authorized value code ∈ events) :
    value ∈ events.flatMap Event.drawn :=
  List.mem_flatMap.mpr ⟨_, authorized, List.mem_singleton.mpr rfl⟩

theorem code_drawn (history : History server hashed events)
    (descends : Descends events value pair) :
    value ∈ events.flatMap Event.drawn := by
  obtain ⟨code, first, authorized, -, -⟩ := history.lineage descends
  exact authorized_drawn authorized

/-- A pair of the grant of a code descends from that code. -/
theorem code_of_grant (history : History server hashed events)
    (injective : Set.InjOn server.library.sha256 hashed) (descends : Descends events other pair)
    (hashes : Hashes server.library hashed value)
    (same : pair.refreshMetadata.grantId = deriveAuthorizationGrantId server.library
      (credentialDigest server.library .authorizationCode value)) : other = value := by
  obtain ⟨_, _, -, -, both⟩ := history.lineage descends
  refine grantId_injective injective (history.hashes other (history.code_drawn descends)) hashes ?_
  rw [← both.2.grantId, same]

/-- Pairs of one grant come from one code. -/
theorem grant_unique (history : History server hashed events)
    (injective : Set.InjOn server.library.sha256 hashed) (descends : Descends events value pair)
    (otherwise : Descends events other second)
    (same : pair.refreshMetadata.grantId = second.refreshMetadata.grantId) : value = other := by
  obtain ⟨_, _, -, -, others⟩ := history.lineage otherwise
  exact history.code_of_grant injective descends
    (history.hashes other (history.code_drawn otherwise)) (same.trans others.2.grantId)

theorem refreshed_descends (history : History server hashed events)
    (happened : .refreshed value pair ∈ events) : ∃ code, Descends events code pair := by
  obtain ⟨code, parent, descends, rfl, -⟩ := history.rotation value pair happened
  exact ⟨code, .refreshed descends happened⟩

theorem refreshed_drawn (history : History server hashed events)
    (happened : .refreshed value pair ∈ events) : value ∈ events.flatMap Event.drawn := by
  obtain ⟨code, parent, descends, rfl, -⟩ := history.rotation value pair happened
  exact descends.drawn.2

theorem authorized_unique (history : History server hashed events)
    {first second : AuthorizationCode} (happened : .authorized value first ∈ events)
    (again : .authorized value second ∈ events) : first = second := by
  cases event_of_key history.authorizedOnce happened again rfl rfl
  rfl

theorem exchanged_unique (history : History server hashed events)
    (happened : .exchanged value first ∈ events) (again : .exchanged value second ∈ events) :
    first = second := by
  cases event_of_key history.exchangedOnce happened again rfl rfl
  rfl

/-- The tokens of one grant share their client and the deadline of their family. -/
theorem same_grant (history : History server hashed events)
    (injective : Set.InjOn server.library.sha256 hashed) (descends : Descends events value pair)
    (otherwise : Descends events other second)
    (same : pair.refreshMetadata.grantId = second.refreshMetadata.grantId) :
    pair.refreshMetadata.clientId = second.refreshMetadata.clientId ∧
      pair.refreshMetadata.familyExpiresAt = second.refreshMetadata.familyExpiresAt := by
  obtain rfl := history.grant_unique injective descends otherwise same
  obtain ⟨code, first, authorized, exchanged, both⟩ := history.lineage descends
  obtain ⟨_, _, reauthorized, reexchanged, others⟩ := history.lineage otherwise
  obtain rfl := history.authorized_unique authorized reauthorized
  obtain rfl := history.exchanged_unique exchanged reexchanged
  exact ⟨both.2.clientId.trans others.2.clientId.symm,
    both.2.family.trans others.2.family.symm⟩

/-- The tokens of a pair share everything but their expiry. -/
theorem alike (history : History server hashed events) (descends : Descends events value pair) :
    pair.accessMetadata.clientId = pair.refreshMetadata.clientId ∧
      pair.accessMetadata.grantId = pair.refreshMetadata.grantId ∧
      pair.accessMetadata.registrationEpoch = pair.refreshMetadata.registrationEpoch ∧
      pair.accessMetadata.familyExpiresAt = pair.refreshMetadata.familyExpiresAt := by
  obtain ⟨_, _, -, -, both⟩ := history.lineage descends
  exact ⟨both.1.clientId.trans both.2.clientId.symm, both.1.grantId.trans both.2.grantId.symm,
    both.1.epoch.trans both.2.epoch.symm, both.1.family.trans both.2.family.symm⟩

/-! ### New events -/

/-- What a new event must meet for the history to stay consistent. -/
structure Extends (server : OAuthServer) (hashed : Set (List UInt8)) (events : List Event)
    (event : Event) : Prop where
  hashes : ∀ value ∈ event.drawn, Hashes server.library hashed value
  epoch : ∀ epoch, event.registeredEpoch = some epoch →
    epoch ∉ events.filterMap Event.registeredEpoch
  removed : ∀ clientId epoch, event = .unregistered clientId epoch →
    epoch ∈ events.filterMap Event.registeredEpoch
  authorized : ∀ value, event.authorizedCode = some value →
    value ∉ events.filterMap Event.authorizedCode
  access : ∀ value, event.issuedAccess = some value →
    value ∉ events.filterMap Event.issuedAccess
  issued : ∀ value, event.issuedRefresh = some value →
    value ∉ events.filterMap Event.issuedRefresh
  exchanged : ∀ value, event.exchangedCode = some value →
    value ∉ events.filterMap Event.exchangedCode
  refreshed : ∀ value, event.refreshedToken = some value →
    value ∉ events.filterMap Event.refreshedToken
  origin : ∀ value pair, event = .exchanged value pair →
    ∃ code, .authorized value code ∈ events ∧ pair.Both (TokenOf server value code pair)
  rotation : ∀ value pair, event = .refreshed value pair →
    ∃ code parent, Descends events code parent ∧ parent.refreshValue = value ∧
      pair.Both (Narrows parent.refreshMetadata)

theorem extend (history : History server hashed events) {event : Event}
    (meets : Extends server hashed events event) : History server hashed (event :: events) where
  hashes value listed := by
    rw [List.flatMap_cons, List.mem_append] at listed
    rcases listed with new | earlier
    · exact meets.hashes value new
    · exact history.hashes value earlier
  epochsOnce := nodup_keys_cons history.epochsOnce meets.epoch
  removed clientId epoch happened := by
    have grows := ((List.sublist_cons_self event events).filterMap Event.registeredEpoch).subset
    rcases List.mem_cons.mp happened with same | earlier
    · exact grows (meets.removed clientId epoch same.symm)
    · exact grows (history.removed clientId epoch earlier)
  authorizedOnce := nodup_keys_cons history.authorizedOnce meets.authorized
  accessOnce := nodup_keys_cons history.accessOnce meets.access
  issuedOnce := nodup_keys_cons history.issuedOnce meets.issued
  exchangedOnce := nodup_keys_cons history.exchangedOnce meets.exchanged
  refreshedOnce := nodup_keys_cons history.refreshedOnce meets.refreshed
  origin value pair happened := by
    have source : ∃ code, .authorized value code ∈ events ∧
        pair.Both (TokenOf server value code pair) := by
      rcases List.mem_cons.mp happened with same | earlier
      · exact meets.origin value pair same.symm
      · exact history.origin value pair earlier
    obtain ⟨code, authorized, both⟩ := source
    exact ⟨code, List.mem_cons_of_mem _ authorized, both⟩
  rotation value pair happened := by
    have source : ∃ code parent, Descends events code parent ∧ parent.refreshValue = value ∧
        pair.Both (Narrows parent.refreshMetadata) := by
      rcases List.mem_cons.mp happened with same | earlier
      · exact meets.rotation value pair same.symm
      · exact history.rotation value pair earlier
    obtain ⟨code, parent, descends, rest⟩ := source
    exact ⟨code, parent, descends.cons _, rest⟩

theorem register (history : History server hashed events) (clientId : String)
    (distinct : epoch ∉ events.filterMap Event.registeredEpoch) :
    History server hashed (.registered clientId epoch :: events) := by
  refine history.extend ⟨?_, ?_, nofun, nofun, nofun, nofun, nofun, nofun, nofun, nofun⟩
  · simp [Event.drawn]
  · rintro _ ⟨⟩
    exact distinct

theorem unregister (history : History server hashed events) (clientId : String)
    (known : epoch ∈ events.filterMap Event.registeredEpoch) :
    History server hashed (.unregistered clientId epoch :: events) := by
  refine history.extend ⟨?_, nofun, ?_, nofun, nofun, nofun, nofun, nofun, nofun, nofun⟩
  · simp [Event.drawn]
  · rintro _ _ ⟨⟩
    exact known

theorem authorize (history : History server hashed events) {code : AuthorizationCode}
    (unused : value ∉ events.flatMap Event.drawn) (hashes : Hashes server.library hashed value) :
    History server hashed (.authorized value code :: events) := by
  refine history.extend ⟨?_, nofun, nofun, ?_, nofun, nofun, nofun, nofun, nofun, nofun⟩
  · simpa [Event.drawn] using hashes
  · rintro _ ⟨⟩ listed
    obtain ⟨event, happened, carries⟩ := List.mem_filterMap.mp listed
    cases event with
    | authorized other code =>
      obtain rfl := Option.some.inj carries
      exact unused (authorized_drawn happened)
    | _ => contradiction

/-- A pair of tokens that were not handed out before. -/
structure FreshPair (server : OAuthServer) (hashed : Set (List UInt8)) (events : List Event)
    (pair : PreparedTokenPair) : Prop where
  accessHashes : Hashes server.library hashed pair.accessValue
  refreshHashes : Hashes server.library hashed pair.refreshValue
  unusedAccess : pair.accessValue ∉ events.flatMap Event.drawn
  unusedRefresh : pair.refreshValue ∉ events.flatMap Event.drawn

/-- What is handed out with a pair was drawn. -/
theorem drawn_of_key {key : PreparedTokenPair → String}
    (listed : value ∈ events.filterMap fun event => event.issuedPair.map key)
    (draws : ∀ {event pair}, Event.issuedPair event = some pair → key pair ∈ event.drawn) :
    value ∈ events.flatMap Event.drawn := by
  obtain ⟨event, happened, carries⟩ := List.mem_filterMap.mp listed
  obtain ⟨pair, issues, rfl⟩ := Option.map_eq_some_iff.mp carries
  exact List.mem_flatMap.mpr ⟨event, happened, draws issues⟩

theorem exchange (history : History server hashed events) {code : AuthorizationCode}
    (authorized : .authorized value code ∈ events)
    (unexchanged : ∀ other, .exchanged value other ∉ events)
    (fresh : FreshPair server hashed events pair)
    (both : pair.Both (TokenOf server value code pair)) :
    History server hashed (.exchanged value pair :: events) := by
  refine history.extend ⟨?_, nofun, nofun, nofun, ?_, ?_, ?_, nofun, ?_, nofun⟩
  · simpa [Event.drawn] using ⟨fresh.accessHashes, fresh.refreshHashes⟩
  · rintro _ ⟨⟩ listed
    exact fresh.unusedAccess (drawn_of_key listed fun issues => (Event.drawn_of_issued issues).1)
  · rintro _ ⟨⟩ listed
    exact fresh.unusedRefresh (drawn_of_key listed fun issues => (Event.drawn_of_issued issues).2)
  · rintro _ ⟨⟩ listed
    obtain ⟨event, happened, carries⟩ := List.mem_filterMap.mp listed
    cases event with
    | exchanged other issued =>
      obtain rfl := Option.some.inj carries
      exact unexchanged issued happened
    | _ => contradiction
  · rintro _ _ ⟨⟩
    exact ⟨code, authorized, both⟩

theorem refresh (history : History server hashed events) (descends : Descends events code parent)
    (presented : parent.refreshValue = value)
    (unrefreshed : ∀ other, .refreshed value other ∉ events)
    (fresh : FreshPair server hashed events pair)
    (narrows : pair.Both (Narrows parent.refreshMetadata)) :
    History server hashed (.refreshed value pair :: events) := by
  refine history.extend ⟨?_, nofun, nofun, nofun, ?_, ?_, nofun, ?_, nofun, ?_⟩
  · simpa [Event.drawn] using ⟨fresh.accessHashes, fresh.refreshHashes⟩
  · rintro _ ⟨⟩ listed
    exact fresh.unusedAccess (drawn_of_key listed fun issues => (Event.drawn_of_issued issues).1)
  · rintro _ ⟨⟩ listed
    exact fresh.unusedRefresh (drawn_of_key listed fun issues => (Event.drawn_of_issued issues).2)
  · rintro _ ⟨⟩ listed
    obtain ⟨event, happened, carries⟩ := List.mem_filterMap.mp listed
    cases event with
    | refreshed other issued =>
      obtain rfl := Option.some.inj carries
      exact unrefreshed issued happened
    | _ => contradiction
  · rintro _ _ ⟨⟩
    exact ⟨code, parent, descends, presented, narrows⟩

end History

end FastMcp.OAuth
