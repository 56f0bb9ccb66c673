import FastMcp.ByteText
import FastMcp.EntryTotals
import FastMcp.MachineWords

/-! # The response cache of the server

The cache keeps encoded responses under keys, a list of its keys in the order of
their last use, and the total size of its entries. An entry that would exceed the
number of entries or their total size displaces the entries that were not used
for longest.

An operation reads the clock whenever it asks whether an entry has expired, so the
sweep over all entries takes a reading for each of them.
-/

namespace FastMcp.ResponseCache

open ByteText EntryTotals MachineWords

/-- What is counted for an entry besides its payload. -/
def cacheEntryMetadataBytes : Nat := 512

inductive ProtocolEra where
  | modern2026
  | legacy2024
deriving DecidableEq, Repr

inductive CacheEntryBinding where
  | ordinary
  | discovery (era : ProtocolEra) (generation : Nat)
deriving DecidableEq, Repr

/-- The digests of a request for lookups, for invalidation and of its partition. -/
structure CacheKey (Digest : Type) where
  requestDigest : Digest
  invalidationDigest : Digest
  partitionDigest : Digest
  binding : CacheEntryBinding
deriving DecidableEq, Repr

/-- A response with its expiration time. Every entry is made by `newEncoded`. -/
structure CacheEntry where
  encoded : Bytes
  expiresAt : Nat
  sizeBytes : Nat
  size_eq : sizeBytes = encoded.length + cacheEntryMetadataBytes
deriving DecidableEq

namespace CacheEntry

def newEncoded (instantMax now : Nat) (encoded : Bytes) (ttl : Nat) : Option CacheEntry :=
  if ttl = 0 then none
  else
    (checkedAdd instantMax now ttl).bind fun expiresAt =>
      if encoded.length + cacheEntryMetadataBytes ≤ usizeMax then
        some ⟨encoded, expiresAt, encoded.length + cacheEntryMetadataBytes, rfl⟩
      else none

/-- An entry for a value whose encoding is within a limit. -/
def new {Value : Type} (encodeJsonBounded : Value → Nat → Option Bytes) (instantMax now : Nat)
    (value : Value) (ttl maxSizeBytes : Nat) : Option CacheEntry :=
  (encodeJsonBounded value maxSizeBytes).bind fun encoded => newEncoded instantMax now encoded ttl

def isExpired (entry : CacheEntry) (now : Nat) : Bool := entry.expiresAt ≤ now

end CacheEntry

/-- Encoded responses under limits on their number, their total size and the size of each. -/
structure LruCache (Digest : Type) where
  entries : AList fun _ : CacheKey Digest => CacheEntry
  /-- the keys, the least recently used one first -/
  order : List (CacheKey Digest)
  maxEntries : Nat
  maxSizeBytes : Nat
  maxItemSize : Nat
  currentSizeBytes : Nat

/-- How the insertion of an entry ends. -/
inductive EntryInsert where
  | refused
  | failedClosed
  | inserted
deriving DecidableEq, Repr

namespace LruCache

variable {Digest Value : Type} [DecidableEq Digest]

def new (maxEntries maxSizeBytes maxItemSize : Nat) : LruCache Digest :=
  ⟨∅, [], maxEntries, maxSizeBytes, maxItemSize, 0⟩

def remove (cache : LruCache Digest) (key : CacheKey Digest) : LruCache Digest :=
  match cache.entries.lookup key with
  | none => cache
  | some entry =>
    { cache with
      entries := cache.entries.erase key
      currentSizeBytes := cache.currentSizeBytes - entry.sizeBytes
      order := cache.order.erase key }

def getEncoded (cache : LruCache Digest) (key : CacheKey Digest) (now : Nat) :
    Option Bytes × LruCache Digest :=
  match cache.entries.lookup key with
  | none => (none, cache)
  | some entry =>
    if entry.isExpired now then (none, cache.remove key)
    else
      -- the key moves to the end
      let order := if key ∈ cache.order then cache.order.erase key ++ [key] else cache.order
      (some entry.encoded, { cache with order })

/-- The size that remains when the entries that fail a test are taken off one by one. -/
def retainedSize (keep : CacheKey Digest → CacheEntry → Bool) (cache : LruCache Digest) : Nat :=
  cache.entries.entries.foldl
    (fun size entry => if keep entry.1 entry.2 then size else size - entry.2.sizeBytes)
    cache.currentSizeBytes

/-- Drops the entries whose key satisfies a test. -/
def removeKeys (drop : CacheKey Digest → Bool) (cache : LruCache Digest) : LruCache Digest :=
  { cache with
    entries := retain (fun key _ => !drop key) cache.entries
    order := cache.order.filter fun key => !drop key
    currentSizeBytes := cache.retainedSize fun key _ => !drop key }

def removeInvalidationDigest (cache : LruCache Digest) (invalidationDigest : Digest) :
    LruCache Digest :=
  cache.removeKeys fun key => key.invalidationDigest = invalidationDigest

def removeDiscoveryEntries (cache : LruCache Digest) : LruCache Digest :=
  cache.removeKeys fun key => key.binding ≠ .ordinary

/-- Drops the entries that have expired when the sweep comes to them. -/
def evictExpired (cache : LruCache Digest) (now : CacheKey Digest → Nat) : LruCache Digest :=
  let entries := retain (fun key entry => !entry.isExpired (now key)) cache.entries
  { cache with
    entries := entries
    order := cache.order.filter fun key => (entries.lookup key).isSome
    currentSizeBytes := cache.retainedSize fun key entry => !entry.isExpired (now key) }

def clear (cache : LruCache Digest) : LruCache Digest :=
  { cache with entries := ∅, order := [], currentSizeBytes := 0 }

/-- Whether an entry of this size needs an eviction first. -/
def isFull (cache : LruCache Digest) (sizeBytes : Nat) : Bool :=
  cache.entries.entries.length ≥ cache.maxEntries ||
    (checkedAdd usizeMax cache.currentSizeBytes sizeBytes).all fun size => size > cache.maxSizeBytes

/-- Evicts the first keys of the order, which is given, until an entry of this size fits, or says
that it does not fit although nothing is left. -/
def evictOldest (sizeBytes : Nat) :
    List (CacheKey Digest) → LruCache Digest → Bool × LruCache Digest
  | [], cache => (!cache.isFull sizeBytes, cache)
  | oldestKey :: order, cache =>
    if cache.isFull sizeBytes then
      match cache.entries.lookup oldestKey with
      | none => evictOldest sizeBytes order { cache with order }
      | some oldEntry =>
        evictOldest sizeBytes order
          { cache with
            order := order
            entries := cache.entries.erase oldestKey
            currentSizeBytes := cache.currentSizeBytes - oldEntry.sizeBytes }
    else (true, cache)

/-- The cache without expired entries and without an entry of the key. -/
def prepared (cache : LruCache Digest) (key : CacheKey Digest) (now : CacheKey Digest → Nat) :
    LruCache Digest :=
  let swept := cache.evictExpired now
  if (swept.entries.lookup key).isSome then swept.remove key else swept

def insertEntry (cache : LruCache Digest) (key : CacheKey Digest) (entry : CacheEntry)
    (now : CacheKey Digest → Nat) : EntryInsert × LruCache Digest :=
  if cache.maxEntries = 0 ∨ cache.maxSizeBytes = 0 ∨ entry.encoded.length > cache.maxItemSize ∨
      entry.sizeBytes > cache.maxSizeBytes then
    (.refused, cache)
  else
    match evictOldest entry.sizeBytes (cache.prepared key now).order (cache.prepared key now) with
    | (false, emptied) => (.failedClosed, emptied)
    | (true, fitting) =>
      match checkedAdd usizeMax fitting.currentSizeBytes entry.sizeBytes with
      | none => (.failedClosed, fitting)
      | some newSize =>
        if newSize > fitting.maxSizeBytes ∨
            fitting.entries.entries.length ≥ fitting.maxEntries then
          (.failedClosed, fitting)
        else
          (.inserted, { fitting with
            currentSizeBytes := newSize
            entries := fitting.entries.insert key entry
            order := fitting.order ++ [key] })

/-- The clock readings of one insertion: when the entry is made, and when the sweep comes to the
entries. -/
structure Readings (Digest : Type) where
  instantMax : Nat
  made : Nat
  swept : CacheKey Digest → Nat

def insertMade (cache : LruCache Digest) (key : CacheKey Digest) (entry : Option CacheEntry)
    (readings : Readings Digest) : EntryInsert × LruCache Digest :=
  match entry with
  | none => (.refused, cache)
  | some entry => cache.insertEntry key entry readings.swept

def insert (encodeJsonBounded : Value → Nat → Option Bytes) (cache : LruCache Digest)
    (key : CacheKey Digest) (value : Value) (ttl : Nat) (readings : Readings Digest) :
    EntryInsert × LruCache Digest :=
  let admissionLimit := min cache.maxItemSize (cache.maxSizeBytes - cacheEntryMetadataBytes)
  cache.insertMade key
    (CacheEntry.new encodeJsonBounded readings.instantMax readings.made value ttl admissionLimit)
    readings

def insertEncoded (cache : LruCache Digest) (key : CacheKey Digest) (encoded : Bytes) (ttl : Nat)
    (readings : Readings Digest) : EntryInsert × LruCache Digest :=
  if encoded.length > cache.maxItemSize then (.refused, cache)
  else
    cache.insertMade key (CacheEntry.newEncoded readings.instantMax readings.made encoded ttl)
      readings

end LruCache

end FastMcp.ResponseCache
