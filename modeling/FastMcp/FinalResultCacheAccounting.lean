import FastMcp.EntryTotals
import FastMcp.FinalResultCacheRuns

/-! # The budgets of the final result cache

The cache counts the bytes of its entries. The count is exact in every run, so
neither the number of entries nor their bytes exceed the budgets. An insertion
first drops the previous entry of its key and then the oldest entries, one at a
time, until the new one fits. Since it fits into an empty cache, this never ends
in between.
-/

namespace FastMcp.ClientCache

open EntryTotals MachineWords TransitionRuns

variable {Payload : Type}

namespace FinalResultCache

variable {cache smaller : FinalResultCache Payload} {key : FinalCacheKey}
  {entry : FinalCacheEntry Payload} {encodedBytes : Nat}

/-- The bytes of all retained entries. -/
def entryBytes (cache : FinalResultCache Payload) : Nat :=
  total FinalCacheEntry.encodedBytes cache.entries

/-- The counters are exact and within their budgets. -/
structure Accounted (cache : FinalResultCache Payload) : Prop where
  bytes : cache.retainedBytes = cache.entryBytes
  count_le : cache.entries.entries.length ≤ cache.capacity
  bytes_le : cache.retainedBytes ≤ cache.maxBytes
  capacity_pos : 0 < cache.capacity
  maxBytes_le : cache.maxBytes ≤ usizeMax

/-- Two caches with the same budgets, entries and count of bytes. -/
structure SameEntries (cache other : FinalResultCache Payload) : Prop where
  entries : other.entries = cache.entries
  retainedBytes : other.retainedBytes = cache.retainedBytes
  capacity : other.capacity = cache.capacity
  maxBytes : other.maxBytes = cache.maxBytes

theorem Accounted.same (accounted : Accounted cache) {other : FinalResultCache Payload}
    (same : SameEntries cache other) : Accounted other := by
  obtain ⟨entries, retainedBytes, capacity, maxBytes⟩ := same
  refine ⟨?_, ?_, ?_, ?_, ?_⟩
  · rw [retainedBytes, entryBytes, entries]
    exact accounted.bytes
  · rw [entries, capacity]
    exact accounted.count_le
  · rw [retainedBytes, maxBytes]
    exact accounted.bytes_le
  · rw [capacity]
    exact accounted.capacity_pos
  · rw [maxBytes]
    exact accounted.maxBytes_le

/-- Fewer entries with an exact count of their bytes. -/
theorem Accounted.fewer (accounted : Accounted cache) {entries : EntryMap Payload} {bytes : Nat}
    (counted : bytes = total FinalCacheEntry.encodedBytes entries)
    (less : bytes ≤ cache.retainedBytes)
    (fewer : entries.entries.length ≤ cache.entries.entries.length) :
    Accounted { cache with entries := entries, retainedBytes := bytes } :=
  ⟨counted, fewer.trans accounted.count_le, less.trans accounted.bytes_le, accounted.capacity_pos,
    accounted.maxBytes_le⟩

theorem Accounted.removeEntry (accounted : Accounted cache) (key : FinalCacheKey) :
    Accounted (cache.removeEntry key) := by
  unfold FinalResultCache.removeEntry
  split
  · exact accounted
  · rename_i removed found
    obtain ⟨bytes, length⟩ := @total_erase _ _ FinalCacheEntry.encodedBytes _ _ _ _ found
    have counted := accounted.bytes
    unfold entryBytes at counted
    exact accounted.fewer (by omega) (by omega) (by omega)

/-! ## Eviction -/

/-- One entry after another is evicted while the cache is full, each the oldest at its time. -/
inductive Evicts (encodedBytes : Nat) : FinalResultCache Payload → FinalResultCache Payload → Prop
  | done (cache : FinalResultCache Payload) (fits : cache.isFull encodedBytes = false) :
    Evicts encodedBytes cache cache
  | evict {cache smaller last : FinalResultCache Payload} (key : FinalCacheKey)
    (entry : FinalCacheEntry Payload) (full : cache.isFull encodedBytes = true)
    (found : cache.entries.lookup key = some entry)
    (isOldest : ∀ other kept, cache.entries.lookup other = some kept → entry.receipt ≤ kept.receipt)
    (removed : SameEntries (cache.removeEntry key) smaller)
    (rest : Evicts encodedBytes smaller last) : Evicts encodedBytes cache last

theorem Evicts.fits {last : FinalResultCache Payload} (evicts : Evicts encodedBytes cache last) :
    last.isFull encodedBytes = false := by
  induction evicts with
  | done cache fits => exact fits
  | evict _ _ _ _ _ _ _ ih => exact ih

/-- Going through a list for an item of the least rank. -/
theorem foldl_least {Item : Type} (rank : Item → Nat) (first : Item) (rest : List Item) :
    let least := rest.foldl (fun best item => if rank item < rank best then item else best) first
    least ∈ first :: rest ∧ ∀ other ∈ first :: rest, rank least ≤ rank other := by
  induction rest generalizing first with
  | nil => simp
  | cons next rest ih =>
    simp only [List.foldl_cons]
    by_cases earlier : rank next < rank first
    · rw [if_pos earlier]
      obtain ⟨listed, least⟩ := ih next
      refine ⟨List.mem_cons_of_mem _ listed, fun other isListed => ?_⟩
      rcases List.mem_cons.mp isListed with rfl | later
      · exact (least next List.mem_cons_self).trans earlier.le
      · exact least other later
    · rw [if_neg earlier]
      obtain ⟨listed, least⟩ := ih first
      refine ⟨?_, fun other isListed => ?_⟩
      · rcases List.mem_cons.mp listed with same | later
        · rw [same]
          exact List.mem_cons_self
        · exact List.mem_cons_of_mem _ (List.mem_cons_of_mem _ later)
      · rcases List.mem_cons.mp isListed with rfl | later
        · exact least other List.mem_cons_self
        · rcases List.mem_cons.mp later with rfl | later
          · exact (least first List.mem_cons_self).trans (not_lt.mp earlier)
          · exact least other (List.mem_cons_of_mem _ later)

theorem maxBytes_removeEntry (cache : FinalResultCache Payload) (key : FinalCacheKey) :
    (cache.removeEntry key).maxBytes = cache.maxBytes := by
  unfold removeEntry
  split <;> rfl

theorem Evicts.maxBytes {last : FinalResultCache Payload} (evicts : Evicts encodedBytes cache last) :
    last.maxBytes = cache.maxBytes := by
  induction evicts with
  | done => rfl
  | evict key _ _ _ _ removed _ ih => rw [ih, removed.maxBytes, maxBytes_removeEntry]

theorem evictOldest_spec (nonempty : cache.entries.entries ≠ []) :
    ∃ key entry smaller, cache.evictOldest = .some smaller ∧
      cache.entries.lookup key = .some entry ∧
      (∀ other kept, cache.entries.lookup other = .some kept → entry.receipt ≤ kept.receipt) ∧
      SameEntries (cache.removeEntry key) smaller := by
  cases isEntries : cache.entries.entries with
  | nil => contradiction
  | cons first rest =>
    obtain ⟨listed, least⟩ := foldl_least
      (fun entry : Sigma fun _ : FinalCacheKey => FinalCacheEntry Payload => entry.2.receipt)
      first rest
    generalize isBest : rest.foldl _ first = best at listed least
    have isOldest : oldest cache.entries.entries = .some best.1 := by
      rw [isEntries, oldest, ← isBest]
    rw [← isEntries] at listed least
    obtain ⟨smaller, evicted, same⟩ : ∃ smaller, cache.evictOldest = .some smaller ∧
        SameEntries (cache.removeEntry best.1) smaller := by
      rw [evictOldest, isOldest]
      exact ⟨_, rfl, rfl, rfl, rfl, rfl⟩
    exact ⟨best.1, best.2, smaller, evicted, AList.mem_lookup_iff.mpr listed,
      fun other kept found => least ⟨other, kept⟩ (AList.mem_lookup_iff.mp found), same⟩

/-- Eviction ends in a cache that has room. -/
theorem evictUntilFits_evicts (accounted : Accounted cache) {fuel : Nat}
    (enough : cache.entries.entries.length ≤ fuel) :
    ∃ last, evictUntilFits encodedBytes fuel cache = (true, last) ∧
      Evicts encodedBytes cache last ∧ Accounted last := by
  have room {cache : FinalResultCache Payload} (accounted : Accounted cache)
      (empty : cache.entries.entries = []) : cache.isFull encodedBytes = false := by
    have bytes := accounted.bytes
    have positive := accounted.capacity_pos
    rw [entryBytes, total, empty, List.map_nil, List.sum_nil] at bytes
    simp [isFull, empty, bytes, positive.ne']
  induction fuel generalizing cache with
  | zero =>
    have fits := room accounted (List.eq_nil_of_length_eq_zero (Nat.le_zero.mp enough))
    exact ⟨cache, by rw [evictUntilFits, fits]; rfl, .done cache fits, accounted⟩
  | succ fuel ih =>
    rw [evictUntilFits]
    by_cases full : cache.isFull encodedBytes = true
    · have nonempty : cache.entries.entries ≠ [] := by
        intro empty
        rw [room accounted empty] at full
        contradiction
      obtain ⟨key, entry, smaller, evicted, found, isOldest, removed⟩ := evictOldest_spec nonempty
      rw [if_pos full, evicted]
      have shorter : smaller.entries.entries.length ≤ fuel := by
        have length := (@total_erase _ _ FinalCacheEntry.encodedBytes _ _ _ _ found).2
        rw [removed.entries, FinalResultCache.removeEntry, found]
        simp only
        omega
      obtain ⟨last, isLast, evicts, lastAccounted⟩ :=
        ih ((accounted.removeEntry key).same removed) shorter
      exact ⟨last, isLast, .evict key entry full found isOldest removed evicts, lastAccounted⟩
    · rw [if_neg full]
      exact ⟨cache, rfl, .done cache (Bool.eq_false_iff.mpr full), accounted⟩

/-! ## The operations -/

theorem Accounted.lookupAt (accounted : Accounted cache) (key : FinalCacheKey) (now : Nat) :
    Accounted (cache.lookupAt key now).2 := by
  have removed := accounted.removeEntry key
  have page : Accounted (cache.lookupPageAt key now).2 := by
    unfold lookupPageAt
    repeat' split
    all_goals first
      | exact accounted.same ⟨rfl, rfl, rfl, rfl⟩
      | exact removed.same ⟨rfl, rfl, rfl, rfl⟩
  unfold FinalResultCache.lookupAt
  split <;> simp_all

theorem Accounted.clear (accounted : Accounted cache) : Accounted cache.clear := by
  have emptied : Accounted { cache with entries := ∅, retainedBytes := 0 } :=
    accounted.fewer rfl (Nat.zero_le _) (Nat.zero_le _)
  unfold FinalResultCache.clear
  split <;> exact emptied.same ⟨rfl, rfl, rfl, rfl⟩

theorem Accounted.invalidateResultSet (accounted : Accounted cache)
    (resultSet : FinalCacheResultSet) : Accounted (cache.invalidateResultSet resultSet) := by
  unfold FinalResultCache.invalidateResultSet
  split
  · exact accounted.clear.same ⟨rfl, rfl, rfl, rfl⟩
  · -- the recount does not saturate since the sum was within the budget before
    have recount (entries : List (Sigma fun _ : FinalCacheKey => FinalCacheEntry Payload))
        (start : Nat) (small : start + (entries.map fun entry => entry.2.encodedBytes).sum ≤
          usizeMax) : entries.foldl (fun total entry => saturatingAdd usizeMax total
            entry.2.encodedBytes) start =
          start + (entries.map fun entry => entry.2.encodedBytes).sum := by
      induction entries generalizing start with
      | nil => rfl
      | cons entry entries ih =>
        rw [List.map_cons, List.sum_cons] at small ⊢
        have added : saturatingAdd usizeMax start entry.2.encodedBytes =
            start + entry.2.encodedBytes := min_eq_left (by omega)
        rw [List.foldl_cons, added, ih _ (by omega)]
        omega
    have bytesEq := accounted.bytes
    have small := accounted.bytes_le
    have representable := accounted.maxBytes_le
    unfold entryBytes at bytesEq
    let kept := retainKeys (survivesInvalidation resultSet) cache.entries
    have less : total FinalCacheEntry.encodedBytes kept ≤
        total FinalCacheEntry.encodedBytes cache.entries :=
      Nat.le.intro (total_retain (fun key _ => survivesInvalidation resultSet key) cache.entries)
    have counted := recount kept.entries 0
      (show 0 + total FinalCacheEntry.encodedBytes kept ≤ usizeMax by omega)
    rw [Nat.zero_add] at counted
    have fewer : kept.entries.length ≤ cache.entries.entries.length := List.length_filter_le _ _
    exact (accounted.fewer counted (counted.trans_le (less.trans_eq bytesEq.symm)) fewer).same
      ⟨rfl, rfl, rfl, rfl⟩

/-- What an insertion may do: store an entry after exactly as many evictions as it needs, or
nothing at all. -/
def Inserts (cache : FinalResultCache Payload) (key : FinalCacheKey) (receipt : Nat)
    (answer : FinalCacheInsert × FinalResultCache Payload) : Prop :=
  answer.1 ≠ .stored ∧ answer.2 = cache ∨
    answer.1 = .stored ∧ ∃ entry last, entry.receipt = receipt ∧
      Evicts entry.encodedBytes (cache.removeEntry key) last ∧
      answer.2.entries = last.entries.insert key entry ∧
      answer.2.retainedBytes = last.retainedBytes + entry.encodedBytes

theorem Accounted.insertIfCurrentAt (accounted : Accounted cache)
    (environment : CacheEnvironment Payload) (key : FinalCacheKey)
    (captured : FinalCacheGeneration) (result : CoreResult Payload) (receipt : Nat) :
    Accounted (cache.insertIfCurrentAt environment key captured result receipt).2 ∧
      Inserts cache key receipt
        (cache.insertIfCurrentAt environment key captured result receipt) := by
  have unchanged {outcome : FinalCacheInsert} (other : outcome ≠ .stored) :
      Accounted cache ∧ Inserts cache key receipt (outcome, cache) :=
    ⟨accounted, .inl ⟨other, rfl⟩⟩
  unfold FinalResultCache.insertIfCurrentAt
  split
  · exact unchanged (by decide)
  split
  · exact unchanged (by decide)
  split
  · exact unchanged (by decide)
  split
  · exact unchanged (by decide)
  split
  · exact unchanged (by decide)
  split
  · exact unchanged (by decide)
  rename_i encoded _
  simp only
  split
  · exact unchanged (by decide)
  rename_i small
  generalize saturatingAdd usizeMax key.estimatedBytes encoded.utf8ByteSize = encodedBytes at small ⊢
  obtain ⟨last, isLast, evicts, lastAccounted⟩ := @evictUntilFits_evicts _
    (cache.removeEntry key) encodedBytes (accounted.removeEntry key) _ (Nat.le_refl _)
  have absent : last.entries.lookup key = none := by
    have trimmed := evictUntilFits_trims encodedBytes
      (cache.removeEntry key).entries.entries.length (cache.removeEntry key)
    rw [isLast] at trimmed
    refine Option.eq_none_iff_forall_ne_some.mpr fun entry found => ?_
    have remains := trimmed.entries key entry found
    unfold FinalResultCache.removeEntry at remains
    split at remains
    · rename_i missing
      rw [missing] at remains
      contradiction
    · simp at remains
  have fits := evicts.fits
  have sameBudget := evicts.maxBytes.trans (maxBytes_removeEntry cache key)
  simp only [isFull, Bool.or_eq_false_iff, decide_eq_false_iff_not, not_le, not_lt] at fits
  have representable := lastAccounted.maxBytes_le
  have sum : saturatingAdd usizeMax last.retainedBytes encodedBytes =
      last.retainedBytes + encodedBytes := min_eq_left (by omega)
  rw [isLast]
  simp only [sum]
  refine ⟨⟨?_, ?_, ?_, lastAccounted.capacity_pos, representable⟩,
    .inr ⟨rfl, _, last, rfl, evicts, rfl, rfl⟩⟩
  · rw [entryBytes, (total_insert absent _).1, lastAccounted.bytes, entryBytes, Nat.add_comm]
  · rw [(@total_insert _ _ FinalCacheEntry.encodedBytes _ _ _ absent _).2]
    exact fits.1
  · simp only
    omega

end FinalResultCache

/-- In every run, the counters of the cache are exact and within their budgets, and an insertion
changes nothing unless it stores its result, for which it evicts the oldest entries, and only as
many as it needs. -/
theorem reachable_accounted {environment : CacheEnvironment Payload} {capacity maxBytes : Nat}
    {world : CacheWorld Payload}
    (reached : Reachable (CacheStep environment) (.initial capacity maxBytes) world) :
    world.cache.Accounted ∧ ∀ key captured result receipt, world.cache.Inserts key receipt
      (world.cache.insertIfCurrentAt environment key captured result receipt) := by
  have initially : (CacheWorld.initial capacity maxBytes : CacheWorld Payload).cache.Accounted := by
    refine ⟨rfl, Nat.zero_le _, Nat.zero_le _, ?_, ?_⟩
    · exact Nat.lt_of_lt_of_le Nat.one_pos (le_max_left _ _)
    · simp only [CacheWorld.initial, FinalResultCache.withLimits, maxFinalCacheMaxBytes, usizeMax]
      omega
  have kept : ∀ before next : CacheWorld Payload, before.cache.Accounted →
      CacheStep environment before next → next.cache.Accounted := by
    intro before next accounted step
    cases step with
    | beginFetch resultSet => exact accounted
    | insertIfCurrentAt key token result receipt _ =>
      exact (accounted.insertIfCurrentAt environment key token result receipt).1
    | lookupAt key now => exact accounted.lookupAt key now
    | invalidateResultSet resultSet => exact accounted.invalidateResultSet resultSet
    | clear => exact accounted.clear
    | setEnabled enabled =>
      have cleared := accounted.clear
      unfold FinalResultCache.setEnabled
      split
      · exact cleared.same ⟨rfl, rfl, rfl, rfl⟩
      · exact accounted.same ⟨rfl, rfl, rfl, rfl⟩
    | reorder entries reordered =>
      refine ⟨accounted.bytes.trans (total_perm reordered.symm), ?_, accounted.bytes_le,
        accounted.capacity_pos, accounted.maxBytes_le⟩
      exact reordered.length_eq.trans_le accounted.count_le
  have accounted := reached.invariant initially kept
  exact ⟨accounted, fun key captured result receipt =>
    (accounted.insertIfCurrentAt environment key captured result receipt).2⟩

def secondKey : FinalCacheKey :=
  { sampleKey with cursor := some "2" }

/-- The budgets hold in a cache for one page, where a second page takes the place of the first. -/
theorem sampleWorld_accounted :
    let answer := sampleWorld.cache.insertIfCurrentAt sampleEnvironment secondKey
      (sampleWorld.cache.beginFetch .tools) sampleResult 8
    sampleWorld.cache.entries.keys = [sampleKey] ∧ answer.1 = .stored ∧
      answer.2.entries.keys = [secondKey] ∧ sampleWorld.cache.Accounted ∧
      sampleWorld.cache.Inserts secondKey 8 answer := by
  obtain ⟨accounted, inserts⟩ := reachable_accounted sampleWorld_reachable
  exact ⟨by decide, by decide, by decide, accounted, inserts secondKey _ sampleResult 8⟩

end FastMcp.ClientCache
