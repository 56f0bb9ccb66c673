import FastMcp.IntegerText
import FastMcp.MachineWords
import Mathlib.Data.List.AList

/-! # The client's cache of final complete results

One client keeps a bounded map from complete request identities to the results
the server returned for them. An entry may be served while its time to live
lasts and while the generation captured before its request was sent is still
the current one. Generations have three parts: a lifecycle epoch that moves
when the cache is cleared or switched, a revision that moves when a result set
is invalidated, and the class of that result set.
-/

namespace FastMcp.ClientCache

open MachineWords IntegerText

/-- A nonnegative integer JSON token, kept with its spelling. -/
structure CacheTtl where
  lexeme : String
deriving DecidableEq, Repr

/-- Splits a text at the first character that satisfies a test. -/
def splitOnce (separator : Char → Bool) (text : List Char) : Option (List Char × List Char) :=
  match text.dropWhile (fun character => !separator character) with
  | [] => none
  | _ :: after => some (text.takeWhile (fun character => !separator character), after)

/-- The digits of an integer with its decimal point moved by `shift` places. -/
def shiftedDigits (digits : List Char) (shift : Int) : Option (List Char) :=
  if 0 ≤ shift then
    if digits.length + shift.toNat > 20 then none
    else some (digits ++ List.replicate shift.toNat '0')
  else
    let trimmed := shift.natAbs
    if digits.length < trimmed then none
    else
      let length := digits.length - trimmed
      if (digits.drop length).all (· == '0') then some (digits.take length) else none

/-- Reads a time to live as a number of milliseconds of 64 bits. -/
def cacheTtlRuntimeMillis (lexeme : List Char) : Option Nat := do
  let unsigned := match lexeme with
    | '-' :: rest => rest
    | _ => lexeme
  let (mantissa, exponent) :=
    (splitOnce (fun character => character == 'e' || character == 'E') unsigned).getD
      (unsigned, ['0'])
  let exponent ← parseSigned 10 128 exponent
  let (whole, fraction) := (splitOnce (· == '.') mantissa).getD (mantissa, [])
  let digits := whole ++ fraction
  if !digits.any (fun digit => '1' ≤ digit && digit ≤ '9') then some 0
  else
    let shift := exponent - (fraction.length : Int)
    if shift < -(2 ^ 127) then none
    else
      let integerDigits ← shiftedDigits digits shift
      let normalized := integerDigits.dropWhile (· == '0')
      if normalized.isEmpty then some 0
      else if normalized.length > 20 then none
      else parseUnsigned 10 u64Max normalized

/-- The number of milliseconds a time to live denotes, if the clock can hold it. -/
def CacheTtl.tryAsMillis (ttl : CacheTtl) : Option Nat :=
  cacheTtlRuntimeMillis ttl.lexeme.toList

/-- The peer's statement on who may share a result. -/
inductive CacheScope where
  | publicScope
  | privateScope
deriving DecidableEq, Repr

/-- The cache members of a cacheable result payload. -/
structure CacheHints where
  ttlMs : CacheTtl
  cacheScope : CacheScope
deriving DecidableEq, Repr

/-- The cache hints of a server discovery result. -/
structure DiscoverCacheHints where
  ttlMs : CacheTtl
  isPublic : Bool
deriving DecidableEq, Repr

/-- A complete result of the final protocol. The members that the cache never
looks into are a payload of any type. -/
inductive FinalCoreResult (Payload : Type) where
  | discover (hints : DiscoverCacheHints) (payload : Payload)
  | completion (payload : Payload)
  | toolsList (hints : CacheHints) (payload : Payload)
  | toolsCall (payload : Payload)
  | toolsCallTask (payload : Payload)
  | toolsCallInputRequired (payload : Payload)
  | resourcesList (hints : CacheHints) (payload : Payload)
  | resourceTemplatesList (hints : CacheHints) (payload : Payload)
  | resourcesRead (hints : CacheHints) (payload : Payload)
  | resourcesReadInputRequired (payload : Payload)
  | promptsList (hints : CacheHints) (payload : Payload)
  | promptsGet (payload : Payload)
  | promptsGetInputRequired (payload : Payload)
  | subscriptionsListen (payload : Payload)
deriving DecidableEq, Repr

/-- A result of either protocol era. -/
inductive CoreResult (Payload : Type) where
  | legacy (payload : Payload)
  | final (result : FinalCoreResult Payload)
deriving DecidableEq, Repr

/-- The time to live and scope of a cacheable final result. -/
def finalCacheHints {Payload : Type} : CoreResult Payload → Option (CacheTtl × CacheScope)
  | .legacy _ => none
  | .final result =>
    match result with
    | .discover hints _ =>
      some (hints.ttlMs, if hints.isPublic then .publicScope else .privateScope)
    | .toolsList hints _ | .resourcesList hints _ | .resourceTemplatesList hints _
    | .resourcesRead hints _ | .promptsList hints _ => some (hints.ttlMs, hints.cacheScope)
    | .completion _ | .toolsCall _ | .toolsCallTask _ | .toolsCallInputRequired _
    | .resourcesReadInputRequired _ | .promptsGet _ | .promptsGetInputRequired _
    | .subscriptionsListen _ => none

/-- The result set whose generation controls a cached complete result. -/
inductive FinalCacheResultSet where
  | serverDiscovery
  | tools
  | resources
  | resourceTemplates
  | prompts
  | resource (uri : String)
deriving DecidableEq, Repr

/-- The generation classes. All exact resources share one class, so a peer
cannot grow the generation map by naming new resources. -/
inductive FinalCacheGenerationSet where
  | serverDiscovery
  | tools
  | resources
  | resourceTemplates
  | prompts
  | resource
deriving DecidableEq, Repr

def FinalCacheResultSet.generationSet : FinalCacheResultSet → FinalCacheGenerationSet
  | .serverDiscovery => .serverDiscovery
  | .tools => .tools
  | .resources => .resources
  | .resourceTemplates => .resourceTemplates
  | .prompts => .prompts
  | .resource _ => .resource

def FinalCacheResultSet.isResource : FinalCacheResultSet → Bool
  | .resource _ => true
  | _ => false

/-- The complete client-side identity of one cacheable final request. -/
structure FinalCacheKey where
  endpointConfiguration : String
  protocolVersion : String
  normalizedCapabilities : String
  extensionSettings : String
  method : String
  semanticProjection : String
  cursor : Option String
  policyRevision : Nat
  extensionRevision : Nat
  representationPolicyRevision : Nat
  limitsPolicyRevision : Nat
  partitionKey : String
  resultSet : FinalCacheResultSet
deriving DecidableEq, Repr

/-- The byte estimate of a key: its texts, one byte and the URI for the result
set, and four 64-bit revisions. -/
def FinalCacheKey.estimatedBytes (key : FinalCacheKey) : Nat :=
  let resultSetBytes := match key.resultSet with
    | .resource uri => saturatingAdd usizeMax 1 uri.utf8ByteSize
    | _ => 1
  [key.protocolVersion.utf8ByteSize, key.normalizedCapabilities.utf8ByteSize,
    key.extensionSettings.utf8ByteSize, key.method.utf8ByteSize,
    key.semanticProjection.utf8ByteSize, (key.cursor.map String.utf8ByteSize).getD 0,
    key.partitionKey.utf8ByteSize, resultSetBytes, 8 * 4].foldl
    (saturatingAdd usizeMax) key.endpointConfiguration.utf8ByteSize

/-- The generation captured before a request is sent. -/
structure FinalCacheGeneration where
  epoch : Nat
  revision : Nat
  resultSet : FinalCacheGenerationSet
deriving DecidableEq, Repr

/-- Why a lookup did not return a fresh result. -/
inductive FinalCacheMiss where
  | disabled
  | absent
  | stale
  | invalidated
deriving DecidableEq, Repr

/-- Result of attempting to retain a fetched result. -/
inductive FinalCacheInsert where
  | stored
  | notCacheable
  | immediatelyStale
  | invalidatedDuringFetch
  | expiryOutOfRange
  | oversized
deriving DecidableEq, Repr

/-- Aggregate counters of one cache. -/
structure FinalCacheStats where
  hits : Nat := 0
  misses : Nat := 0
  stale : Nat := 0
  fills : Nat := 0
  invalidations : Nat := 0
  evictions : Nat := 0
deriving DecidableEq, Repr

/-- A retained result. Instants are nanoseconds of the monotonic clock. -/
structure FinalCacheEntry (Payload : Type) where
  result : CoreResult Payload
  scope : CacheScope
  generation : FinalCacheGeneration
  receipt : Nat
  expiresAt : Nat
  encodedBytes : Nat
deriving DecidableEq, Repr

/-- One retained page with the generation and scope it was stored under. -/
structure FinalCachePage (Payload : Type) where
  result : CoreResult Payload
  generation : FinalCacheGeneration
  scope : CacheScope
deriving DecidableEq, Repr

inductive FinalCachePageLookup (Payload : Type) where
  | fresh (page : FinalCachePage Payload)
  | miss (reason : FinalCacheMiss)
deriving DecidableEq, Repr

/-- Result of looking up a final complete result. -/
inductive FinalCacheLookup (Payload : Type) where
  | fresh (result : CoreResult Payload)
  | miss (reason : FinalCacheMiss)
deriving DecidableEq, Repr

/-- What the cache needs from outside: the last instant the clock can represent
and the encoder of results. -/
structure CacheEnvironment (Payload : Type) where
  instantMax : Nat
  encode : CoreResult Payload → Option String

abbrev EntryMap (Payload : Type) := AList fun _ : FinalCacheKey => FinalCacheEntry Payload

abbrev GenerationMap := AList fun _ : FinalCacheGenerationSet => Nat

/-- The cache of one client. The list order of a map stands for the order in
which its hash table is iterated. -/
structure FinalResultCache (Payload : Type) where
  enabled : Bool
  capacity : Nat
  maxBytes : Nat
  retainedBytes : Nat
  entries : EntryMap Payload
  generations : GenerationMap
  epoch : Nat
  epochExhausted : Bool
  stats : FinalCacheStats

def maxFinalCacheCapacity : Nat := 10000

def maxFinalCacheMaxBytes : Nat := 128 * 1024 * 1024

end FastMcp.ClientCache
