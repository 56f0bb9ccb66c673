import FastMcp.FinalResultCacheFences
import FastMcp.TransitionRuns

/-! # Runs of the final result cache

A run is any sequence of cache operations. The run keeps a history of what was
asked and answered, newest event first, so that a served result can be traced
to the insertion and to the captured generation it rests on. The main theorem
says that nothing fenced or expired is ever served.
-/

namespace FastMcp.ClientCache

open MachineWords TransitionRuns

variable {Payload : Type}

/-- One finished operation with its arguments and its answer. -/
inductive CacheEvent (Payload : Type) where
  | began (resultSet : FinalCacheResultSet) (token : FinalCacheGeneration)
  | inserted (key : FinalCacheKey) (token : FinalCacheGeneration) (result : CoreResult Payload)
      (receipt : Nat) (outcome : FinalCacheInsert)
  | lookedUp (key : FinalCacheKey) (now : Nat) (answer : FinalCacheLookup Payload)
  | invalidated (resultSet : FinalCacheResultSet)
  | cleared
  | enabledSet (before after : Bool)
deriving DecidableEq, Repr

/-- The events after which nothing captured earlier for a class may be used: an
invalidation of the class, a clear, and a change of the enabled flag. -/
def CacheEvent.Fences : CacheEvent Payload → FinalCacheGenerationSet → Prop
  | .invalidated resultSet, generationSet => resultSet.generationSet = generationSet
  | .cleared, _ => True
  | .enabledSet before after, _ => before ≠ after
  | .began _ _, _ | .inserted _ _ _ _ _, _ | .lookedUp _ _ _, _ => False

/-- A cache with everything that happened to it, newest event first. -/
structure CacheWorld (Payload : Type) where
  cache : FinalResultCache Payload
  history : List (CacheEvent Payload)

def CacheWorld.initial (capacity maxBytes : Nat) : CacheWorld Payload :=
  ⟨FinalResultCache.withLimits capacity maxBytes, []⟩

/-- One operation on the cache. A generation can only be obtained from
`beginFetch`, and between operations the hash table may change its iteration
order. -/
inductive CacheStep (environment : CacheEnvironment Payload) :
    CacheWorld Payload → CacheWorld Payload → Prop
  | beginFetch (world : CacheWorld Payload) (resultSet : FinalCacheResultSet) :
      CacheStep environment world
        ⟨world.cache, .began resultSet (world.cache.beginFetch resultSet) :: world.history⟩
  | insertIfCurrentAt (world : CacheWorld Payload) (key : FinalCacheKey)
      (token : FinalCacheGeneration) (result : CoreResult Payload) (receipt : Nat)
      (issued : ∃ resultSet, .began resultSet token ∈ world.history) :
      CacheStep environment world
        ⟨(world.cache.insertIfCurrentAt environment key token result receipt).2,
          .inserted key token result receipt
            (world.cache.insertIfCurrentAt environment key token result receipt).1 ::
            world.history⟩
  | lookupAt (world : CacheWorld Payload) (key : FinalCacheKey) (now : Nat) :
      CacheStep environment world
        ⟨(world.cache.lookupAt key now).2,
          .lookedUp key now (world.cache.lookupAt key now).1 :: world.history⟩
  | invalidateResultSet (world : CacheWorld Payload) (resultSet : FinalCacheResultSet) :
      CacheStep environment world
        ⟨world.cache.invalidateResultSet resultSet, .invalidated resultSet :: world.history⟩
  | clear (world : CacheWorld Payload) :
      CacheStep environment world ⟨world.cache.clear, .cleared :: world.history⟩
  | setEnabled (world : CacheWorld Payload) (enabled : Bool) :
      CacheStep environment world
        ⟨world.cache.setEnabled enabled,
          .enabledSet world.cache.enabled (world.cache.setEnabled enabled).enabled ::
            world.history⟩
  | reorder (world : CacheWorld Payload) (entries : EntryMap Payload)
      (reordered : entries.entries.Perm world.cache.entries.entries) :
      CacheStep environment world ⟨{ world.cache with entries := entries }, world.history⟩

/-- A captured generation is behind the counters, or it is current and nothing
has fenced its class since it was captured. -/
def TokenSound (cache : FinalResultCache Payload) (since : List (CacheEvent Payload))
    (token : FinalCacheGeneration) : Prop :=
  cache.Overtaken token ∨ cache.Current token ∧ ∀ event ∈ since, ¬ event.Fences token.resultSet

/-- An entry was stored for its key by an insertion whose generation had been
captured before, and expires when its time to live ends. -/
def EntrySound (history : List (CacheEvent Payload)) (key : FinalCacheKey)
    (entry : FinalCacheEntry Payload) : Prop :=
  ∃ later earlier ttl scope ttlMs,
    history = later ++
      .inserted key entry.generation entry.result entry.receipt .stored :: earlier ∧
    (∃ resultSet, .began resultSet entry.generation ∈ earlier) ∧
    finalCacheHints entry.result = some (ttl, scope) ∧ ttl.tryAsMillis = some ttlMs ∧
    entry.expiresAt = entry.receipt + ttlMs * 1000000

/-- What every reachable cache satisfies. -/
structure CacheInvariant (world : CacheWorld Payload) : Prop where
  disabled : world.cache.epochExhausted = true → world.cache.enabled = false
  tokens : ∀ since older resultSet token,
    world.history = since ++ .began resultSet token :: older →
      token.resultSet = resultSet.generationSet ∧ TokenSound world.cache since token
  entries : ∀ key entry, world.cache.entries.lookup key = some entry →
    EntrySound world.history key entry

theorem EntrySound.cons {history : List (CacheEvent Payload)} {key : FinalCacheKey}
    {entry : FinalCacheEntry Payload} (sound : EntrySound history key entry)
    (event : CacheEvent Payload) : EntrySound (event :: history) key entry := by
  obtain ⟨later, earlier, ttl, scope, ttlMs, split, rest⟩ := sound
  exact ⟨event :: later, earlier, ttl, scope, ttlMs, by rw [split]; rfl, rest⟩

variable {before : CacheWorld Payload} {cache after : FinalResultCache Payload}
  {event : CacheEvent Payload} {since : List (CacheEvent Payload)} {token : FinalCacheGeneration}

/-- Tokens captured earlier stay sound when each of them does, and a new event
that captures nothing adds no token. -/
theorem tokens_cons (invariant : CacheInvariant before)
    (silent : ∀ resultSet token, event ≠ .began resultSet token)
    (kept : ∀ token since, TokenSound before.cache since token →
      TokenSound cache (event :: since) token) (since older : List (CacheEvent Payload))
    (resultSet : FinalCacheResultSet) (token : FinalCacheGeneration)
    (split : event :: before.history = since ++ .began resultSet token :: older) :
    token.resultSet = resultSet.generationSet ∧ TokenSound cache since token := by
  cases since with
  | nil => exact absurd (List.cons.inj split).1 (silent resultSet token)
  | cons head since =>
    obtain ⟨rfl, rest⟩ := List.cons.inj split
    obtain ⟨sameClass, sound⟩ := invariant.tokens since older resultSet token rest
    exact ⟨sameClass, kept token since sound⟩

theorem TokenSound.mono {before : FinalResultCache Payload}
    (kept : FinalResultCache.KeepsFence before after) (sound : TokenSound before since token) :
    TokenSound after since token :=
  sound.imp kept.overtaken fun ⟨current, silent⟩ => ⟨kept.current current, silent⟩

theorem TokenSound.keepsFence {before : FinalResultCache Payload}
    (kept : FinalResultCache.KeepsFence before after)
    (quiet : ∀ generationSet, ¬ event.Fences generationSet) (sound : TokenSound before since token) :
    TokenSound after (event :: since) token := by
  refine (sound.mono kept).imp_right fun ⟨current, silent⟩ => ⟨current, ?_⟩
  intro other member
  rcases List.mem_cons.mp member with rfl | older
  · exact quiet _
  · exact silent other older

theorem TokenSound.fencesAll {before : FinalResultCache Payload} (event : CacheEvent Payload)
    (fenced : FinalResultCache.FencesAll before after) (sound : TokenSound before since token) :
    TokenSound after (event :: since) token :=
  .inl (fenced.overtaken (sound.imp_right And.left))

theorem TokenSound.invalidateResultSet (resultSet : FinalCacheResultSet)
    (sound : TokenSound cache since token) :
    TokenSound (cache.invalidateResultSet resultSet) (.invalidated resultSet :: since) token := by
  rcases sound with overtaken | ⟨current, silent⟩
  · exact .inl (FinalResultCache.invalidateResultSet_overtaken (.inl overtaken))
  · by_cases same : token.resultSet = resultSet.generationSet
    · exact .inl (FinalResultCache.invalidateResultSet_overtaken (.inr ⟨current, same⟩))
    · refine (FinalResultCache.invalidateResultSet_current current same).imp_right
        fun current => ⟨current, fun event member => ?_⟩
      rcases List.mem_cons.mp member with rfl | older
      · exact fun sameClass => same sameClass.symm
      · exact silent event older

/-- A cache that shows only entries of the cache before it keeps them sound. -/
theorem entries_of_trims (invariant : CacheInvariant before) (trimmed : before.cache.Trims cache)
    (event : CacheEvent Payload) (key : FinalCacheKey) (entry : FinalCacheEntry Payload)
    (found : cache.entries.lookup key = some entry) :
    EntrySound (event :: before.history) key entry :=
  (invariant.entries key entry (trimmed.entries key entry found)).cons event

theorem disabled_of_trims {before : FinalResultCache Payload}
    (disabled : before.epochExhausted = true → before.enabled = false)
    (trimmed : before.Trims after) : after.epochExhausted = true → after.enabled = false := by
  rw [trimmed.epochExhausted, trimmed.enabled]
  exact disabled

theorem CacheInvariant.trims (invariant : CacheInvariant before)
    (trimmed : before.cache.Trims cache)
    (silent : ∀ resultSet token, event ≠ .began resultSet token)
    (quiet : ∀ generationSet, ¬ event.Fences generationSet) :
    CacheInvariant ⟨cache, event :: before.history⟩ where
  disabled := disabled_of_trims invariant.disabled trimmed
  tokens := tokens_cons invariant silent fun _ _ sound => sound.keepsFence trimmed.keepsFence quiet
  entries := entries_of_trims invariant trimmed event

theorem CacheInvariant.beginFetch (invariant : CacheInvariant before)
    (resultSet : FinalCacheResultSet) :
    CacheInvariant
      ⟨before.cache, .began resultSet (before.cache.beginFetch resultSet) :: before.history⟩ where
  disabled := invariant.disabled
  tokens := by
    intro since older other token split
    cases since with
    | nil =>
      obtain ⟨same, -⟩ := List.cons.inj split
      obtain ⟨rfl, rfl⟩ := CacheEvent.began.inj same
      refine ⟨rfl, ?_⟩
      cases exhausted : before.cache.epochExhausted with
      | false =>
        exact .inr ⟨FinalResultCache.beginFetch_current exhausted resultSet, by simp⟩
      | true => exact .inl (FinalResultCache.beginFetch_overtaken exhausted resultSet)
    | cons head since =>
      obtain ⟨rfl, rest⟩ := List.cons.inj split
      obtain ⟨sameClass, sound⟩ := invariant.tokens since older other token rest
      exact ⟨sameClass, sound.keepsFence ⟨rfl, rfl, rfl⟩ fun _ fences => fences⟩
  entries := entries_of_trims invariant (.refl _) _

theorem CacheInvariant.insertIfCurrentAt (invariant : CacheInvariant before)
    (environment : CacheEnvironment Payload) (key : FinalCacheKey) (token : FinalCacheGeneration)
    (result : CoreResult Payload) (receipt : Nat)
    (issued : ∃ resultSet, .began resultSet token ∈ before.history) :
    CacheInvariant
      ⟨(before.cache.insertIfCurrentAt environment key token result receipt).2,
        .inserted key token result receipt
          (before.cache.insertIfCurrentAt environment key token result receipt).1 ::
          before.history⟩ := by
  rcases FinalResultCache.insertIfCurrentAt_cases environment before.cache key token result receipt
    with trimmed | ⟨stored, kept, enabled, ttl, scope, ttlMs, encodedBytes, hints, millis, entries⟩
  · exact invariant.trims trimmed (by simp) fun _ fences => fences
  · refine ⟨?_, ?_, ?_⟩
    · rw [kept.epochExhausted, enabled]
      exact invariant.disabled
    · exact tokens_cons invariant (by simp)
        fun _ _ sound => sound.keepsFence kept fun _ fences => fences
    · intro other entry found
      rcases entries other entry found with ⟨rfl, rfl⟩ | older
      · exact ⟨[], before.history, ttl, scope, ttlMs, by rw [stored]; rfl, issued, hints, millis,
          rfl⟩
      · exact (invariant.entries other entry older).cons _

theorem CacheInvariant.invalidateResultSet (invariant : CacheInvariant before)
    (resultSet : FinalCacheResultSet) :
    CacheInvariant
      ⟨before.cache.invalidateResultSet resultSet, .invalidated resultSet :: before.history⟩ where
  disabled := FinalResultCache.invalidateResultSet_disabled invariant.disabled resultSet
  tokens := tokens_cons invariant (by simp) fun _ _ sound => sound.invalidateResultSet resultSet
  entries key entry found :=
    (invariant.entries key entry
      (FinalResultCache.invalidateResultSet_entries before.cache resultSet key entry found)).cons _

theorem CacheInvariant.clear (invariant : CacheInvariant before) :
    CacheInvariant ⟨before.cache.clear, .cleared :: before.history⟩ where
  disabled := FinalResultCache.clear_disabled invariant.disabled
  tokens := tokens_cons invariant (by simp)
    fun _ _ sound => sound.fencesAll _ (FinalResultCache.clear_fencesAll before.cache)
  entries key entry found := by
    rw [FinalResultCache.clear_entries, AList.lookup_empty] at found
    contradiction

theorem CacheInvariant.setEnabled (invariant : CacheInvariant before) (enabled : Bool) :
    CacheInvariant
      ⟨before.cache.setEnabled enabled,
        .enabledSet before.cache.enabled (before.cache.setEnabled enabled).enabled ::
          before.history⟩ := by
  rcases FinalResultCache.setEnabled_cases invariant.disabled enabled
    with ⟨fenced, emptied⟩ | ⟨same, trimmed⟩
  · refine ⟨FinalResultCache.setEnabled_disabled before.cache enabled,
      tokens_cons invariant (by simp) fun _ _ sound => sound.fencesAll _ fenced, ?_⟩
    intro key entry found
    change (before.cache.setEnabled enabled).entries.lookup key = some entry at found
    rw [emptied, AList.lookup_empty] at found
    contradiction
  · exact invariant.trims trimmed (by simp) fun _ fences => fences same.symm

theorem CacheInvariant.reorder (invariant : CacheInvariant before) (entries : EntryMap Payload)
    (reordered : entries.entries.Perm before.cache.entries.entries) :
    CacheInvariant ⟨{ before.cache with entries := entries }, before.history⟩ where
  disabled := invariant.disabled
  tokens since older resultSet token split := by
    obtain ⟨sameClass, sound⟩ := invariant.tokens since older resultSet token split
    have kept : before.cache.KeepsFence { before.cache with entries := entries } :=
      ⟨rfl, rfl, rfl⟩
    exact ⟨sameClass, sound.mono kept⟩
  entries key entry found := by
    refine invariant.entries key entry ?_
    rw [← AList.perm_lookup reordered]
    exact found

theorem cacheInvariant_initial (capacity maxBytes : Nat) :
    CacheInvariant (CacheWorld.initial capacity maxBytes : CacheWorld Payload) where
  disabled exhausted := by cases exhausted
  tokens since older resultSet token split := by simp [CacheWorld.initial] at split
  entries key entry found := by
    simp [CacheWorld.initial, FinalResultCache.withLimits] at found

theorem cacheInvariant_step {environment : CacheEnvironment Payload} {after : CacheWorld Payload}
    (invariant : CacheInvariant before) (stepped : CacheStep environment before after) :
    CacheInvariant after := by
  cases stepped with
  | beginFetch resultSet => exact invariant.beginFetch resultSet
  | insertIfCurrentAt key token result receipt issued =>
    exact invariant.insertIfCurrentAt environment key token result receipt issued
  | lookupAt key now =>
    exact invariant.trims (FinalResultCache.lookupAt_trims before.cache key now) (by simp)
      fun _ fences => fences
  | invalidateResultSet resultSet => exact invariant.invalidateResultSet resultSet
  | clear => exact invariant.clear
  | setEnabled enabled => exact invariant.setEnabled enabled
  | reorder entries reordered => exact invariant.reorder entries reordered

theorem cacheInvariant_of_reachable {environment : CacheEnvironment Payload}
    {capacity maxBytes : Nat} {world : CacheWorld Payload}
    (reached : Reachable (CacheStep environment) (.initial capacity maxBytes) world) :
    CacheInvariant world :=
  reached.invariant (cacheInvariant_initial capacity maxBytes)
    fun _ _ invariant stepped => cacheInvariant_step invariant stepped

/-- The result was stored for exactly the key looked up. The generation it was
stored under had been captured before, for a result set of the key's class, and
wherever it was captured, neither an invalidation of that class nor a clear nor
a change of the enabled flag has happened since. The time to live counted from
the receipt has not ended. -/
def ServedUnfenced (world : CacheWorld Payload) (key : FinalCacheKey) (now : Nat)
    (result : CoreResult Payload) : Prop :=
  ∃ later earlier token receipt ttl scope ttlMs,
    world.history = later ++ .inserted key token result receipt .stored :: earlier ∧
    (∃ resultSet, .began resultSet token ∈ earlier) ∧
    (∀ between older resultSet, earlier = between ++ .began resultSet token :: older →
      resultSet.generationSet = key.resultSet.generationSet ∧
      ∀ event ∈ later ++ between, ¬ event.Fences key.resultSet.generationSet) ∧
    finalCacheHints result = some (ttl, scope) ∧ ttl.tryAsMillis = some ttlMs ∧
    now < receipt + ttlMs * 1000000

/-- In every run, a fresh answer is neither fenced nor expired. -/
theorem lookupAt_fresh_unfenced {environment : CacheEnvironment Payload}
    {capacity maxBytes : Nat} {world : CacheWorld Payload} {key : FinalCacheKey} {now : Nat}
    {result : CoreResult Payload}
    (reached : Reachable (CacheStep environment) (.initial capacity maxBytes) world)
    (fresh : (world.cache.lookupAt key now).1 = .fresh result) :
    ServedUnfenced world key now result := by
  have invariant := cacheInvariant_of_reachable reached
  obtain ⟨enabled, entry, found, current, unexpired, rfl⟩ :=
    FinalResultCache.lookupAt_fresh fresh
  obtain ⟨later, earlier, ttl, scope, ttlMs, split, issued, hints, millis, expiry⟩ :=
    invariant.entries key entry found
  have usable : world.cache.epochExhausted = false := by
    cases exhausted : world.cache.epochExhausted with
    | false => rfl
    | true => simp [invariant.disabled exhausted] at enabled
  have notOvertaken : ¬ world.cache.Overtaken entry.generation := by
    rw [current]
    exact (FinalResultCache.beginFetch_current usable key.resultSet).not_overtaken
  refine ⟨later, earlier, entry.generation, entry.receipt, ttl, scope, ttlMs, split, issued, ?_,
    hints, millis, expiry ▸ unexpired⟩
  rintro between older resultSet rfl
  obtain ⟨sameClass, sound⟩ := invariant.tokens
    (later ++ .inserted key entry.generation entry.result entry.receipt .stored :: between)
    older resultSet entry.generation (by simp [split])
  have classEq : entry.generation.resultSet = key.resultSet.generationSet := by
    rw [current]
    rfl
  refine ⟨sameClass.symm.trans classEq, fun event member => ?_⟩
  rw [← classEq]
  refine (sound.resolve_left notOvertaken).2 event ?_
  rcases List.mem_append.mp member with inLater | inBetween
  · exact List.mem_append_left _ inLater
  · exact List.mem_append_right _ (List.mem_cons_of_mem _ inBetween)

def sampleEnvironment : CacheEnvironment Unit :=
  ⟨u64Max, fun _ => some ""⟩

def sampleKey : FinalCacheKey :=
  ⟨"stdio", "2026-07-28", "", "", "tools/list", "", none, 0, 0, 0, 0, "", .tools⟩

def sampleResult : CoreResult Unit :=
  .final (.toolsList ⟨⟨"5"⟩, .privateScope⟩ ())

/-- A cache that has fetched and stored one page of tools. -/
def sampleWorld : CacheWorld Unit :=
  let cache : FinalResultCache Unit := .withLimits 1 1000
  let token := cache.beginFetch .tools
  let answer := cache.insertIfCurrentAt sampleEnvironment sampleKey token sampleResult 7
  ⟨answer.2, [.inserted sampleKey token sampleResult 7 answer.1, .began .tools token]⟩

theorem sampleWorld_reachable :
    Reachable (CacheStep sampleEnvironment) (.initial 1 1000) sampleWorld :=
  (Reachable.start.extend (.beginFetch _ .tools)).extend
    (.insertIfCurrentAt _ sampleKey _ sampleResult 7 ⟨.tools, List.mem_cons_self⟩)

theorem lookupAt_fresh_unfenced_sample :
    (sampleWorld.cache.lookupAt sampleKey 8).1 = .fresh sampleResult ∧
      ServedUnfenced sampleWorld sampleKey 8 sampleResult := by
  have fresh : (sampleWorld.cache.lookupAt sampleKey 8).1 = .fresh sampleResult := by decide
  exact ⟨fresh, lookupAt_fresh_unfenced sampleWorld_reachable fresh⟩

end FastMcp.ClientCache
