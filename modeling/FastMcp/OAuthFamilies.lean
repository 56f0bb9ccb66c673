import FastMcp.OAuthServer
import FastMcp.OrderedMaps

/-! # Markers and families

What the bounded table of markers does to the markers that guard a family, and
what the revocation of a family removes. A guard is never evicted, and the
capacity check before a rotation makes room for the guard that it inserts.
-/

namespace FastMcp.OAuth

open ByteRecords MachineWords OrderedMaps Outcomes

namespace OAuthServerState

/-! ## Clean-up -/

variable {state : OAuthServerState} {now : Nat} {digest : CredentialDigest}

theorem cleanup_codes {code : AuthorizationCode} :
    (state.cleanupExpiredAt now).authorizationCodes[digest]? = some code ↔
      state.authorizationCodes[digest]? = some code ∧ now < code.expiresAt := by
  rw [cleanupExpiredAt, getElem?_filter_eq_some, decide_eq_true_iff]

theorem cleanup_access {token : StoredOAuthToken} :
    (state.cleanupExpiredAt now).accessTokens[digest]? = some token ↔
      state.accessTokens[digest]? = some token ∧ now < token.expiresAt := by
  rw [cleanupExpiredAt, getElem?_filter_eq_some, decide_eq_true_iff]

theorem cleanup_refresh {token : StoredOAuthToken} :
    (state.cleanupExpiredAt now).refreshTokens[digest]? = some token ↔
      state.refreshTokens[digest]? = some token ∧ now < token.expiresAt := by
  rw [cleanupExpiredAt, getElem?_filter_eq_some, decide_eq_true_iff]

theorem cleanup_revoked {tombstone : RevocationTombstone} :
    (state.cleanupExpiredAt now).revokedTokens[digest]? = some tombstone ↔
      state.revokedTokens[digest]? = some tombstone ∧ now < tombstone.expiresAt := by
  rw [cleanupExpiredAt, getElem?_filter_eq_some, decide_eq_true_iff]

@[simp]
theorem cleanup_clients (state : OAuthServerState) (now : Nat) :
    (state.cleanupExpiredAt now).clients = state.clients :=
  rfl

/-! ## Guards -/

/-- A marker guards a token value against replay until an instant. -/
def Guarding (markers : DigestMap RevocationTombstone) (digest : CredentialDigest)
    (clientId : String) (grantId : OAuthGrantId) (deadline : Nat) : Prop :=
  ∃ marker, markers[digest]? = some marker ∧ marker.replayGuard = true ∧
    marker.clientId = clientId ∧ marker.grantId = grantId ∧ deadline ≤ marker.expiresAt

variable {config : OAuthServerConfig} {walks : Walks} {state : OAuthServerState} {now : Nat}
  {digest token : CredentialDigest} {tombstone : RevocationTombstone} {clientId : String}
  {grantId : OAuthGrantId} {deadline : Nat}

variable {markers : List (CredentialDigest × RevocationTombstone)}
  {evictable : RevocationTombstone → Bool} {next : OAuthServerState} {marker : RevocationTombstone}

theorem oldest_mem {position : CredentialDigest → Nat}
    (picked : oldest position markers = some digest) : ∃ marker, (digest, marker) ∈ markers := by
  obtain ⟨⟨found, marker⟩, least, rfl⟩ := Option.map_eq_some_iff.mp picked
  exact ⟨marker, List.argmin_mem least⟩

theorem oldest_isSome (position : CredentialDigest → Nat)
    {marker : CredentialDigest × RevocationTombstone} (listed : marker ∈ markers) :
    ∃ digest, oldest position markers = some digest := by
  rw [← Option.isSome_iff_exists, oldest, Option.isSome_map, Option.isSome_iff_ne_none]
  intro noMinimum
  rw [List.argmin_eq_none.mp noMinimum] at listed
  contradiction

/-- An eviction removes one marker that may be evicted. -/
theorem evictOldest_eq_some (evicted : state.evictOldest walks evictable = some next) :
    ∃ digest marker, state.revokedTokens[digest]? = some marker ∧ evictable marker = true ∧
      next = { state with revokedTokens := state.revokedTokens.erase digest } := by
  obtain ⟨digest, picked, rfl⟩ := Option.map_eq_some_iff.mp evicted
  obtain ⟨marker, listed⟩ := oldest_mem picked
  obtain ⟨member, may⟩ := List.mem_filter.mp listed
  exact ⟨digest, marker, Std.ExtTreeMap.mem_toList_iff_getElem?_eq_some.mp member, may, rfl⟩

theorem evictOldest_isSome (walks : Walks) (state : OAuthServerState)
    (evictable : RevocationTombstone → Bool)
    (present : (state.revokedTokens.toList.any fun marker => evictable marker.2) = true) :
    ∃ next, state.evictOldest walks evictable = some next := by
  obtain ⟨marker, member, may⟩ := List.any_eq_true.mp present
  have listed : marker ∈ state.revokedTokens.toList.filter fun marker => evictable marker.2 :=
    List.mem_filter.mpr ⟨member, may⟩
  obtain ⟨digest, picked⟩ := oldest_isSome (walks.tombstones state.revokedTokens) listed
  rw [evictOldest, picked]
  exact ⟨_, rfl⟩

/-- Some markers that do not guard were removed. -/
structure Evicts (before after : DigestMap RevocationTombstone) : Prop where
  fewer : after.size ≤ before.size
  kept : ∀ (digest : CredentialDigest) (marker : RevocationTombstone),
    after[digest]? = some marker → before[digest]? = some marker
  guards : ∀ (digest : CredentialDigest) (marker : RevocationTombstone),
    before[digest]? = some marker → marker.replayGuard = true → after[digest]? = some marker

theorem Evicts.refl (markers : DigestMap RevocationTombstone) : Evicts markers markers :=
  ⟨le_rfl, fun _ _ present => present, fun _ _ present _ => present⟩

theorem Evicts.trans {first second third : DigestMap RevocationTombstone}
    (earlier : Evicts first second) (later : Evicts second third) : Evicts first third where
  fewer := later.fewer.trans earlier.fewer
  kept digest marker present := earlier.kept digest marker (later.kept digest marker present)
  guards digest marker present guard :=
    later.guards digest marker (earlier.guards digest marker present guard) guard

theorem Evicts.erase {markers : DigestMap RevocationTombstone}
    (present : markers[digest]? = some marker) (unguarded : marker.replayGuard = false) :
    Evicts markers (markers.erase digest) where
  fewer := Std.ExtTreeMap.size_erase_le
  kept _ _ found := (getElem?_erase_eq_some.mp found).2
  guards other found listed guard := by
    refine getElem?_erase_eq_some.mpr ⟨?_, listed⟩
    rintro rfl
    rw [present] at listed
    obtain rfl := Option.some.inj listed
    rw [unguarded] at guard
    contradiction

/-- An eviction in a table that is not overfull makes room. -/
theorem evictOldest_evicts
    (unguarded : ∀ marker, evictable marker = true → marker.replayGuard = false)
    (evicted : state.evictOldest walks evictable = some next) :
    next = { state with revokedTokens := next.revokedTokens } ∧
      Evicts state.revokedTokens next.revokedTokens ∧
      next.revokedTokens.size + 1 = state.revokedTokens.size := by
  obtain ⟨digest, marker, present, may, rfl⟩ := evictOldest_eq_some evicted
  exact ⟨rfl, .erase present (unguarded marker may), size_erase_add_one present⟩

/-- What the insertion of a marker does to the table: it may evict markers that do not guard,
and then merges, inserts or drops the marker. -/
theorem insertTombstone_cases (config : OAuthServerConfig) (walks : Walks)
    (state : OAuthServerState) (token : CredentialDigest) (tombstone : RevocationTombstone)
    (now : Nat) :
    ∃ kept, Evicts state.revokedTokens kept ∧
      (state.insertTombstoneBounded config walks token tombstone now =
          { state with revokedTokens := kept } ∨
        (∃ existing, state.revokedTokens[token]? = some existing ∧
          state.insertTombstoneBounded config walks token tombstone now =
            { state with
              revokedTokens := state.revokedTokens.insert token { existing with
                replayGuard := existing.replayGuard || tombstone.replayGuard
                expiresAt := max existing.expiresAt tombstone.expiresAt } }) ∨
        (state.revokedTokens[token]? = none ∧
          (state.revokedTokens.size ≤ config.maxRevocationTombstones →
            kept.size < config.maxRevocationTombstones) ∧
          state.insertTombstoneBounded config walks token tombstone now =
            { state with revokedTokens := kept.insert token tombstone })) := by
  rw [insertTombstoneBounded]
  split
  · exact ⟨_, .refl _, .inl rfl⟩
  · cases found : state.revokedTokens[token]? with
    | some existing => exact ⟨_, .refl _, .inr (.inl ⟨existing, rfl, rfl⟩)⟩
    | none =>
      dsimp only
      generalize forClient : (if state.revocationTombstoneCountForClient tombstone.clientId ≥
          config.maxRevocationTombstonesPerClient then
        state.evictOldest walks fun entry =>
          entry.clientId = tombstone.clientId && !entry.replayGuard
        else some state) = clientStage
      have client : ∀ next, clientStage = some next →
          next = { state with revokedTokens := next.revokedTokens } ∧
            Evicts state.revokedTokens next.revokedTokens := by
        rintro next rfl
        split at forClient
        · obtain ⟨same, evicts, -⟩ := evictOldest_evicts (by simp) forClient
          exact ⟨same, evicts⟩
        · obtain rfl := Option.some.inj forClient
          exact ⟨rfl, .refl _⟩
      cases clientStage with
      | none => exact ⟨_, .refl _, .inl rfl⟩
      | some next =>
        obtain ⟨same, evicts⟩ := client next rfl
        rw [Option.bind_some]
        split
        · rename_i roomy forAll
          refine ⟨roomy.revokedTokens, ?_⟩
          split at forAll
          · obtain ⟨unchanged, further, smaller⟩ := evictOldest_evicts (by simp) forAll
            refine ⟨evicts.trans further, .inr (.inr ⟨rfl, fun bound => ?_, ?_⟩)⟩
            · have fewer := evicts.fewer
              omega
            · rw [unchanged, same]
          · rename_i roomyEnough
            obtain rfl := Option.some.inj forAll
            refine ⟨evicts, .inr (.inr ⟨rfl, fun _ => Nat.not_le.mp roomyEnough, ?_⟩)⟩
            rw [same]
        · refine ⟨next.revokedTokens, evicts, .inl ?_⟩
          exact same

/-- The marker of a rotated token is inserted when the capacity check passed. -/
theorem insertTombstone_inserts (live : now < tombstone.expiresAt)
    (limits : 1 ≤ config.maxRevocationTombstones ∧ 1 ≤ config.maxRevocationTombstonesPerClient)
    (bound : state.revokedTokens.size ≤ config.maxRevocationTombstones)
    (absent : state.revokedTokens[token]? = none)
    (clientRoom : config.maxRevocationTombstonesPerClient ≤
        state.revocationTombstoneCountForClient tombstone.clientId →
      (state.revokedTokens.toList.any fun marker =>
        marker.2.clientId = tombstone.clientId && !marker.2.replayGuard) = true)
    (room : config.maxRevocationTombstones ≤ state.revokedTokens.size →
      (state.revokedTokens.toList.any fun marker => !marker.2.replayGuard) = true) :
    (state.insertTombstoneBounded config walks token tombstone now).revokedTokens[token]? =
      some tombstone := by
  rw [insertTombstoneBounded, if_neg (by omega), absent]
  dsimp only
  split
  · simp
  · rename_i dropped
    exfalso
    by_cases full : config.maxRevocationTombstonesPerClient ≤
        state.revocationTombstoneCountForClient tombstone.clientId
    · obtain ⟨next, evicted⟩ := evictOldest_isSome walks state
        (fun entry => entry.clientId = tombstone.clientId && !entry.replayGuard) (clientRoom full)
      obtain ⟨-, -, smaller⟩ := evictOldest_evicts (by simp) evicted
      rw [if_pos full, evicted, Option.bind_some, if_neg (by omega)] at dropped
      contradiction
    · rw [if_neg full, Option.bind_some] at dropped
      split at dropped
      · rename_i crowded
        obtain ⟨next, evicted⟩ := evictOldest_isSome walks state
          (fun entry => !entry.replayGuard) (room crowded)
        rw [evicted] at dropped
        contradiction
      · contradiction

/-- The insertion of a marker touches nothing but the table. -/
theorem insertTombstone_frame {Value : Type} (field : OAuthServerState → Value)
    (independent : ∀ state markers, field { state with revokedTokens := markers } = field state) :
    field (state.insertTombstoneBounded config walks token tombstone now) = field state := by
  obtain ⟨kept, -, same | ⟨existing, -, same⟩ | ⟨-, -, same⟩⟩ :=
    insertTombstone_cases config walks state token tombstone now
  · rw [same, independent]
  · rw [same, independent]
  · rw [same, independent]

theorem insertTombstone_size (bound : state.revokedTokens.size ≤ config.maxRevocationTombstones) :
    (state.insertTombstoneBounded config walks token tombstone now).revokedTokens.size ≤
      config.maxRevocationTombstones := by
  obtain ⟨kept, evicts, same | ⟨existing, present, same⟩ | ⟨-, room, same⟩⟩ :=
    insertTombstone_cases config walks state token tombstone now
  · rw [same]
    exact evicts.fewer.trans bound
  · rw [same]
    have member : token ∈ state.revokedTokens :=
      Std.ExtTreeMap.mem_iff_isSome_getElem?.mpr (by simp [present])
    dsimp only
    rwa [Std.ExtTreeMap.size_insert, if_pos (Std.ExtTreeMap.contains_iff_mem.mpr member)]
  · rw [same]
    exact Std.ExtTreeMap.size_insert_le.trans (room bound)

theorem insertTombstone_guarding
    (guarding : Guarding state.revokedTokens digest clientId grantId deadline) :
    Guarding (state.insertTombstoneBounded config walks token tombstone now).revokedTokens digest
      clientId grantId deadline := by
  obtain ⟨marker, present, guard, client, grant, late⟩ := guarding
  obtain ⟨kept, evicts, same | ⟨existing, found, same⟩ | ⟨fresh, -, same⟩⟩ :=
    insertTombstone_cases config walks state token tombstone now
  · rw [same]
    exact ⟨marker, evicts.guards digest marker present guard, guard, client, grant, late⟩
  · rw [same]
    by_cases hit : digest = token
    · subst hit
      rw [present] at found
      obtain rfl := Option.some.inj found
      refine ⟨_, Std.ExtTreeMap.getElem?_insert_self, ?_, client, grant, ?_⟩
      · simp [guard]
      · exact late.trans (le_max_left _ _)
    · exact ⟨marker, getElem?_insert_eq_some.mpr (.inr ⟨hit, present⟩), guard, client, grant, late⟩
  · rw [same]
    have other : digest ≠ token := by
      rintro rfl
      rw [present] at fresh
      contradiction
    exact ⟨marker, getElem?_insert_eq_some.mpr
      (.inr ⟨other, evicts.guards digest marker present guard⟩), guard, client, grant, late⟩

/-! ## Families -/

section Retiring

variable (remove : OAuthServerState → CredentialDigest → OAuthServerState)
  {members : List (CredentialDigest × Nat)}

/-- What neither a removal nor a marker touches, a retirement does not touch. -/
theorem retireMembers_frame {Value : Type} (field : OAuthServerState → Value)
    (removed : ∀ state digest, field (remove state digest) = field state)
    (independent : ∀ state markers, field { state with revokedTokens := markers } = field state) :
    field (retireMembers config walks remove grantId clientId now members state) =
      field state := by
  induction members generalizing state with
  | nil => rfl
  | cons member members ih =>
    obtain ⟨digest, expiresAt⟩ := member
    rw [retireMembers, ih, insertTombstone_frame field independent, removed]

/-- A retirement removes the listed tokens. -/
theorem retireMembers_tokens (tokens : OAuthServerState → DigestMap StoredOAuthToken)
    (removed : ∀ state digest, tokens (remove state digest) = (tokens state).erase digest)
    (independent : ∀ state markers, tokens { state with revokedTokens := markers } = tokens state)
    {digest : CredentialDigest} {token : StoredOAuthToken} :
    (tokens (retireMembers config walks remove grantId clientId now members state))[digest]? =
        some token ↔
      (tokens state)[digest]? = some token ∧ digest ∉ members.map Prod.fst := by
  induction members generalizing state with
  | nil => simp [retireMembers]
  | cons member members ih =>
    obtain ⟨listed, expiresAt⟩ := member
    rw [retireMembers, ih, insertTombstone_frame tokens independent, removed,
      getElem?_erase_eq_some, List.map_cons, List.mem_cons, not_or]
    constructor
    · rintro ⟨⟨other, present⟩, rest⟩
      exact ⟨present, other, rest⟩
    · rintro ⟨present, other, rest⟩
      exact ⟨⟨other, present⟩, rest⟩

/-- What every insertion of a marker keeps true of the table, a retirement keeps true. -/
theorem retireMembers_markers (holds : DigestMap RevocationTombstone → Prop)
    (removed : ∀ state digest, (remove state digest).revokedTokens = state.revokedTokens)
    (inserted : ∀ (state : OAuthServerState) (token : CredentialDigest)
      (tombstone : RevocationTombstone), holds state.revokedTokens →
        holds (state.insertTombstoneBounded config walks token tombstone now).revokedTokens)
    (initially : holds state.revokedTokens) :
    holds (retireMembers config walks remove grantId clientId now members state).revokedTokens := by
  induction members generalizing state with
  | nil => exact initially
  | cons member members ih =>
    obtain ⟨digest, expiresAt⟩ := member
    refine ih (inserted _ _ _ ?_)
    rw [removed]
    exact initially

end Retiring

theorem mem_familyMembers {tokens : DigestMap StoredOAuthToken} {token : StoredOAuthToken}
    (present : tokens[digest]? = some token) :
    digest ∈ (familyMembers walks tokens grantId clientId).map Prod.fst ↔
      token.clientId = clientId ∧ token.grantId = grantId := by
  have listed : ∀ other, (digest, other) ∈ tokens.toList ↔ other = token := by
    intro other
    rw [Std.ExtTreeMap.mem_toList_iff_getElem?_eq_some, present, Option.some.injEq, eq_comm]
  simp only [familyMembers, List.mem_map, List.mem_insertionSort, List.mem_filter, Prod.exists,
    Bool.and_eq_true, decide_eq_true_eq, Prod.mk.injEq]
  constructor
  · rintro ⟨_, _, ⟨_, other, ⟨member, client, grant⟩, rfl, rfl⟩, rfl⟩
    obtain rfl := (listed other).mp member
    exact ⟨client, grant⟩
  · rintro ⟨client, grant⟩
    exact ⟨digest, token.expiresAt,
      ⟨digest, token, ⟨(listed token).mpr rfl, client, grant⟩, rfl, rfl⟩, rfl⟩

section Revocation

variable (config walks state grantId clientId now)

/-- The revocation of a family removes its access tokens and no others. -/
theorem revokeGrantFamily_access {digest : CredentialDigest} {token : StoredOAuthToken} :
    (state.revokeGrantFamily config walks grantId clientId now).accessTokens[digest]? =
        some token ↔
      state.accessTokens[digest]? = some token ∧
        ¬ (token.clientId = clientId ∧ token.grantId = grantId) := by
  rw [revokeGrantFamily,
    retireMembers_frame removeRefresh accessTokens (fun _ _ => rfl) (fun _ _ => rfl),
    retireMembers_tokens removeAccess accessTokens (fun _ _ => rfl) (fun _ _ => rfl)]
  exact and_congr_right fun present => not_congr (mem_familyMembers present)

theorem revokeGrantFamily_refresh {digest : CredentialDigest} {token : StoredOAuthToken} :
    (state.revokeGrantFamily config walks grantId clientId now).refreshTokens[digest]? =
        some token ↔
      state.refreshTokens[digest]? = some token ∧
        ¬ (token.clientId = clientId ∧ token.grantId = grantId) := by
  rw [revokeGrantFamily,
    retireMembers_tokens removeRefresh refreshTokens (fun _ _ => rfl) (fun _ _ => rfl),
    retireMembers_frame removeAccess refreshTokens (fun _ _ => rfl) (fun _ _ => rfl)]
  exact and_congr_right fun present => not_congr (mem_familyMembers present)

theorem revokeGrantFamily_frame {Value : Type} (field : OAuthServerState → Value)
    (independent : ∀ state access refresh markers, field { state with
      accessTokens := access
      refreshTokens := refresh
      revokedTokens := markers } = field state) :
    field (state.revokeGrantFamily config walks grantId clientId now) = field state := by
  rw [revokeGrantFamily,
    retireMembers_frame removeRefresh field (fun state _ => independent state _ _ _)
      (fun state _ => independent state _ _ _),
    retireMembers_frame removeAccess field (fun state _ => independent state _ _ _)
      (fun state _ => independent state _ _ _)]
  exact independent state _ _ _

variable {config walks state grantId clientId now}

theorem revokeGrantFamily_size
    (bound : state.revokedTokens.size ≤ config.maxRevocationTombstones) :
    (state.revokeGrantFamily config walks grantId clientId now).revokedTokens.size ≤
      config.maxRevocationTombstones := by
  let fits := fun markers : DigestMap RevocationTombstone =>
    markers.size ≤ config.maxRevocationTombstones
  refine retireMembers_markers removeRefresh fits (fun _ _ => rfl)
    (fun _ _ _ => insertTombstone_size)
    (retireMembers_markers removeAccess fits (fun _ _ => rfl)
      (fun _ _ _ => insertTombstone_size) ?_)
  exact Std.ExtTreeMap.size_filter_le_size.trans bound

/-- The guards of other families are kept. -/
theorem revokeGrantFamily_guarding {otherClient : String} {otherGrant : OAuthGrantId}
    (other : ¬ (otherClient = clientId ∧ otherGrant = grantId))
    (guarding : Guarding state.revokedTokens digest otherClient otherGrant deadline) :
    Guarding (state.revokeGrantFamily config walks grantId clientId now).revokedTokens digest
      otherClient otherGrant deadline := by
  let guarded := fun markers : DigestMap RevocationTombstone =>
    Guarding markers digest otherClient otherGrant deadline
  refine retireMembers_markers removeRefresh guarded (fun _ _ => rfl)
    (fun _ _ _ => insertTombstone_guarding)
    (retireMembers_markers removeAccess guarded (fun _ _ => rfl)
      (fun _ _ _ => insertTombstone_guarding) ?_)
  obtain ⟨marker, present, guard, rfl, rfl, late⟩ := guarding
  refine ⟨marker, getElem?_filter_eq_some.mpr ⟨present, ?_⟩, guard, rfl, rfl, late⟩
  simpa [guardsFamily, guard] using not_and_or.mp other

end Revocation

/-! ## Rotation -/

/-- The markers of a client are as many after their deadlines were aligned. -/
theorem align_count (state : OAuthServerState) (grantId : OAuthGrantId)
    (clientId otherClient : String) (deadline : Nat) :
    (state.alignReplayGuardsWithFamilyDeadline grantId clientId
        deadline).revocationTombstoneCountForClient otherClient =
      state.revocationTombstoneCountForClient otherClient := by
  simp only [revocationTombstoneCountForClient, alignReplayGuardsWithFamilyDeadline]
  rw [← Std.ExtTreeMap.size_map (t := state.revokedTokens.filter fun _ tombstone =>
    tombstone.clientId = otherClient) (f := fun _ tombstone =>
      if guardsFamily grantId clientId tombstone then { tombstone with expiresAt := deadline }
      else tombstone)]
  congr 1
  refine Std.ExtTreeMap.ext_getElem? fun digest => ?_
  rw [Std.ExtTreeMap.getElem?_filter', Std.ExtTreeMap.getElem?_map, Std.ExtTreeMap.getElem?_map,
    Std.ExtTreeMap.getElem?_filter']
  cases state.revokedTokens[digest]? with
  | none => rfl
  | some marker =>
    simp only [Option.map_some, Option.filter_some]
    have same : (if guardsFamily grantId clientId marker then
        { marker with expiresAt := deadline } else marker).clientId = marker.clientId := by
      split <;> rfl
    rw [same]
    split <;> rfl

theorem align_present (grantId : OAuthGrantId) (clientId : String) (deadline : Nat)
    (present : state.revokedTokens[digest]? = some marker) :
    (state.alignReplayGuardsWithFamilyDeadline grantId clientId deadline).revokedTokens[digest]? =
      some (if guardsFamily grantId clientId marker then { marker with expiresAt := deadline }
        else marker) := by
  rw [alignReplayGuardsWithFamilyDeadline, Std.ExtTreeMap.getElem?_map, present]
  rfl

theorem align_markers (state : OAuthServerState) (grantId : OAuthGrantId) (clientId : String)
    (deadline : Nat) (wanted : RevocationTombstone → Bool)
    (independent : ∀ marker expiresAt, wanted { marker with expiresAt := expiresAt } =
      wanted marker)
    (present : (state.revokedTokens.toList.any fun marker => wanted marker.2) = true) :
    ((state.alignReplayGuardsWithFamilyDeadline grantId clientId
      deadline).revokedTokens.toList.any fun marker => wanted marker.2) = true := by
  obtain ⟨⟨digest, marker⟩, listed, may⟩ := List.any_eq_true.mp present
  have found := align_present grantId clientId deadline
    (Std.ExtTreeMap.mem_toList_iff_getElem?_eq_some.mp listed)
  refine List.any_eq_true.mpr
    ⟨_, Std.ExtTreeMap.mem_toList_iff_getElem?_eq_some.mpr found, ?_⟩
  dsimp only
  split
  · rw [independent]
    exact may
  · exact may

theorem align_guarding {family : OAuthGrantId} {owner : String} {limit : Nat}
    (guarding : Guarding state.revokedTokens digest clientId grantId limit)
    (fits : clientId = owner → grantId = family → limit ≤ deadline) :
    Guarding (state.alignReplayGuardsWithFamilyDeadline family owner deadline).revokedTokens digest
      clientId grantId limit := by
  obtain ⟨marker, present, guard, rfl, rfl, late⟩ := guarding
  refine ⟨_, align_present family owner deadline present, ?_⟩
  split
  · rename_i same
    simp only [guardsFamily, Bool.and_eq_true, decide_eq_true_eq] at same
    exact ⟨guard, rfl, rfl, fits same.1.2 same.2⟩
  · exact ⟨guard, rfl, rfl, late⟩

end OAuthServerState

end FastMcp.OAuth
