import FastMcp.FinalResultCache

/-! # Operations of the final result cache

Each operation takes the cache and returns its answer with the next cache.
Operations that only change the cache return the cache alone.
-/

namespace FastMcp.ClientCache

open MachineWords

variable {Payload : Type}

namespace FinalResultCache

/-- An enabled cache with clamped entry and byte budgets. -/
def withLimits (capacity maxBytes : Nat) : FinalResultCache Payload where
  enabled := true
  capacity := max 1 (min capacity maxFinalCacheCapacity)
  maxBytes := max 1 (min maxBytes maxFinalCacheMaxBytes)
  retainedBytes := 0
  entries := ∅
  generations := ∅
  epoch := 0
  epochExhausted := false
  stats := {}

/-- The current revision of a generation class. -/
def revision (cache : FinalResultCache Payload) (generationSet : FinalCacheGenerationSet) : Nat :=
  (cache.generations.lookup generationSet).getD 0

def generation (cache : FinalResultCache Payload) (resultSet : FinalCacheResultSet) : Nat :=
  cache.revision resultSet.generationSet

/-- Removes every retained entry and moves the epoch. A cache whose epoch
cannot move any more is disabled for good. -/
def clear (cache : FinalResultCache Payload) : FinalResultCache Payload :=
  let emptied := { cache with entries := ∅, retainedBytes := 0 }
  match checkedAdd u64Max cache.epoch 1 with
  | some epoch => { emptied with epoch := epoch }
  | none => { emptied with epochExhausted := true, enabled := false }

/-- Enables or disables the cache, clearing it when the setting changes. -/
def setEnabled (cache : FinalResultCache Payload) (enabled : Bool) : FinalResultCache Payload :=
  let cleared := if cache.enabled ≠ enabled then cache.clear else cache
  { cleared with enabled := enabled && !cleared.epochExhausted }

/-- Captures the generation of a result set before a request begins. -/
def beginFetch (cache : FinalResultCache Payload) (resultSet : FinalCacheResultSet) :
    FinalCacheGeneration where
  epoch := cache.epoch
  revision := cache.generation resultSet
  resultSet := resultSet.generationSet

/-- Drops the entry of one key and its bytes. -/
def removeEntry (cache : FinalResultCache Payload) (key : FinalCacheKey) :
    FinalResultCache Payload :=
  match cache.entries.lookup key with
  | none => cache
  | some removed =>
    { cache with
      entries := cache.entries.erase key
      retainedBytes := cache.retainedBytes - removed.encodedBytes }

def countMiss (cache : FinalResultCache Payload) : FinalResultCache Payload :=
  { cache with
    stats := { cache.stats with misses := saturatingAdd u64Max cache.stats.misses 1 } }

def countStale (cache : FinalResultCache Payload) : FinalResultCache Payload :=
  { cache with stats := { cache.stats with stale := saturatingAdd u64Max cache.stats.stale 1 } }

def countHit (cache : FinalResultCache Payload) : FinalResultCache Payload :=
  { cache with stats := { cache.stats with hits := saturatingAdd u64Max cache.stats.hits 1 } }

def countInvalidation (cache : FinalResultCache Payload) : FinalResultCache Payload :=
  { cache with
    stats :=
      { cache.stats with invalidations := saturatingAdd u64Max cache.stats.invalidations 1 } }

/-- Looks up one page together with its generation and scope. -/
def lookupPageAt (cache : FinalResultCache Payload) (key : FinalCacheKey) (now : Nat) :
    FinalCachePageLookup Payload × FinalResultCache Payload :=
  if !cache.enabled then (.miss .disabled, cache.countMiss)
  else
    match cache.entries.lookup key with
    | none => (.miss .absent, cache.countMiss)
    | some entry =>
      if entry.generation ≠ cache.beginFetch key.resultSet then
        (.miss .invalidated, (cache.removeEntry key).countMiss)
      else if now ≥ entry.expiresAt then
        (.miss .stale, (cache.removeEntry key).countMiss.countStale)
      else
        (.fresh ⟨entry.result, entry.generation, entry.scope⟩, cache.countHit)

/-- Looks up one complete result at the supplied instant. -/
def lookupAt (cache : FinalResultCache Payload) (key : FinalCacheKey) (now : Nat) :
    FinalCacheLookup Payload × FinalResultCache Payload :=
  match cache.lookupPageAt key now with
  | (.fresh page, next) => (.fresh page.result, next)
  | (.miss reason, next) => (.miss reason, next)

/-- The first entry, in iteration order, whose receipt no other entry precedes. -/
def oldest : List (Sigma fun _ : FinalCacheKey => FinalCacheEntry Payload) → Option FinalCacheKey
  | [] => none
  | first :: rest =>
    some (rest.foldl
      (fun best candidate => if candidate.2.receipt < best.2.receipt then candidate else best)
      first).1

/-- Evicts the entry with the oldest receipt, if there is an entry. -/
def evictOldest (cache : FinalResultCache Payload) : Option (FinalResultCache Payload) := do
  let key ← oldest cache.entries.entries
  let removed := cache.removeEntry key
  return { removed with
    stats := { removed.stats with evictions := saturatingAdd u64Max removed.stats.evictions 1 } }

/-- Whether a new entry of the given size needs an eviction first. -/
def isFull (cache : FinalResultCache Payload) (encodedBytes : Nat) : Bool :=
  cache.entries.entries.length ≥ cache.capacity ||
    cache.retainedBytes > cache.maxBytes - encodedBytes

/-- Evicts entries until a new one fits and says whether it does. Every round
removes an entry, so the number of entries is enough fuel. -/
def evictUntilFits (encodedBytes : Nat) :
    Nat → FinalResultCache Payload → Bool × FinalResultCache Payload
  | 0, cache => (!cache.isFull encodedBytes, cache)
  | fuel + 1, cache =>
    if cache.isFull encodedBytes then
      match cache.evictOldest with
      | some smaller => evictUntilFits encodedBytes fuel smaller
      | none => (false, cache)
    else (true, cache)

/-- Retains a fetched result only when its captured generation is current. -/
def insertIfCurrentAt (environment : CacheEnvironment Payload) (cache : FinalResultCache Payload)
    (key : FinalCacheKey) (captured : FinalCacheGeneration) (result : CoreResult Payload)
    (receipt : Nat) : FinalCacheInsert × FinalResultCache Payload :=
  if !cache.enabled ∨ captured ≠ cache.beginFetch key.resultSet then
    (.invalidatedDuringFetch, cache)
  else
    match finalCacheHints result with
    | none => (.notCacheable, cache)
    | some (ttl, scope) =>
      match ttl.tryAsMillis with
      | none => (.expiryOutOfRange, cache)
      | some ttlMs =>
        if ttlMs = 0 then (.immediatelyStale, cache)
        else
          match checkedAdd environment.instantMax receipt (ttlMs * 1000000) with
          | none => (.expiryOutOfRange, cache)
          | some expiresAt =>
            match environment.encode result with
            | none => (.oversized, cache)
            | some encoded =>
              let encodedBytes := saturatingAdd usizeMax key.estimatedBytes encoded.utf8ByteSize
              if encodedBytes > cache.maxBytes then (.oversized, cache)
              else
                let replaced := cache.removeEntry key
                match evictUntilFits encodedBytes replaced.entries.entries.length replaced with
                | (false, emptied) => (.oversized, emptied)
                | (true, fitting) =>
                  (.stored, { fitting with
                    entries := fitting.entries.insert key
                      ⟨result, scope, captured, receipt, expiresAt, encodedBytes⟩
                    retainedBytes := saturatingAdd usizeMax fitting.retainedBytes encodedBytes
                    stats := { fitting.stats with
                      fills := saturatingAdd u64Max fitting.stats.fills 1 } })

/-- Keeps the entries whose key satisfies a test. -/
def retainKeys (test : FinalCacheKey → Bool) (entries : EntryMap Payload) : EntryMap Payload where
  entries := entries.entries.filter fun entry => test entry.1
  nodupKeys := entries.nodupKeys.sublist List.filter_sublist

def recountRetainedBytes (cache : FinalResultCache Payload) : FinalResultCache Payload :=
  { cache with
    retainedBytes := cache.entries.entries.foldl
      (fun total entry => saturatingAdd usizeMax total entry.2.encodedBytes) 0 }

/-- The keys that survive an invalidation. Exact resources fall together. -/
def survivesInvalidation (resultSet : FinalCacheResultSet) (key : FinalCacheKey) : Bool :=
  match resultSet with
  | .resource _ => !key.resultSet.isResource
  | _ => key.resultSet ≠ resultSet

/-- Advances a result-set generation and removes its entries. A revision that
cannot move any more restarts all revisions behind a new epoch. -/
def invalidateResultSet (cache : FinalResultCache Payload) (resultSet : FinalCacheResultSet) :
    FinalResultCache Payload :=
  match checkedAdd u64Max (cache.generation resultSet) 1 with
  | none => { cache.clear with generations := ∅ }.countInvalidation
  | some generation =>
    { cache with
      generations := cache.generations.insert resultSet.generationSet generation
      entries := retainKeys (survivesInvalidation resultSet) cache.entries
    }.recountRetainedBytes.countInvalidation

end FinalResultCache

end FastMcp.ClientCache
