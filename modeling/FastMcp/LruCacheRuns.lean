import FastMcp.LruCache
import FastMcp.TransitionRuns

/-! # Runs of the response cache

Whatever is done with a cache, its list of keys and its count of bytes agree with
its entries, and neither bound is exceeded. The keys are in the order of their last
use, so an insertion that has to make room keeps the most recently used entries,
as many as fit.
-/

namespace FastMcp.ResponseCache

open ByteText EntryTotals MachineWords TransitionRuns

variable {Digest Value : Type} [DecidableEq Digest]

namespace LruCache

variable {cache last : LruCache Digest} {key : CacheKey Digest} {sizeBytes : Nat}

/-- The list of keys and the count of bytes agree with the entries, within the bounds. -/
structure Consistent (cache : LruCache Digest) : Prop where
  once : cache.order.Nodup
  listed : ∀ key, key ∈ cache.order ↔ (cache.entries.lookup key).isSome
  size_eq : cache.currentSizeBytes = total CacheEntry.sizeBytes cache.entries
  count_le : cache.entries.entries.length ≤ cache.maxEntries
  size_le : cache.currentSizeBytes ≤ cache.maxSizeBytes
  maxSize_le : cache.maxSizeBytes ≤ usizeMax

/-! ## Entries are dropped -/

theorem Consistent.remove (consistent : Consistent cache) (key : CacheKey Digest) :
    Consistent (cache.remove key) := by
  unfold LruCache.remove
  split
  · exact consistent
  · rename_i entry found
    obtain ⟨size, length⟩ := @total_erase _ _ CacheEntry.sizeBytes _ _ _ _ found
    have sizeEq := consistent.size_eq
    have count := consistent.count_le
    have bound := consistent.size_le
    refine ⟨consistent.once.erase key, fun other => ?_, ?_, ?_, ?_, consistent.maxSize_le⟩
    · rw [consistent.once.mem_erase_iff, consistent.listed other]
      by_cases same : other = key
      · subst same
        simp
      · simp [same, AList.lookup_erase_ne same]
    · simp only
      omega
    · simp only
      omega
    · simp only
      omega

theorem retainedSize_eq (consistent : Consistent cache)
    (keep : CacheKey Digest → CacheEntry → Bool) :
    cache.retainedSize keep = total CacheEntry.sizeBytes (retain keep cache.entries) := by
  have taken (entries : List (Sigma fun _ : CacheKey Digest => CacheEntry)) (start : Nat) :
      entries.foldl (fun size entry =>
        if keep entry.1 entry.2 then size else size - entry.2.sizeBytes) start =
        start - ((entries.filter fun entry => !keep entry.1 entry.2).map
          fun entry => entry.2.sizeBytes).sum := by
    induction entries generalizing start with
    | nil => rfl
    | cons entry entries ih =>
      rw [List.foldl_cons, ih]
      by_cases kept : keep entry.1 entry.2 = true
      · simp [kept]
      · simp [kept, Nat.sub_sub]
  have parts := @total_retain _ _ CacheEntry.sizeBytes keep cache.entries
  rw [retainedSize, taken, consistent.size_eq, ← parts]
  exact Nat.add_sub_cancel _ _

/-- The entries that satisfy a test are kept, and the order is reduced to them. -/
theorem Consistent.retain (consistent : Consistent cache)
    (keep : CacheKey Digest → CacheEntry → Bool) {order : List (CacheKey Digest)}
    (once : order.Nodup) (listed : ∀ key, key ∈ order ↔
      ((EntryTotals.retain keep cache.entries).lookup key).isSome) :
    Consistent { cache with
      entries := EntryTotals.retain keep cache.entries
      order := order
      currentSizeBytes := cache.retainedSize keep } := by
  have parts := @total_retain _ _ CacheEntry.sizeBytes keep cache.entries
  have sizeEq := consistent.size_eq
  refine ⟨once, listed, retainedSize_eq consistent keep,
    (length_retain_le keep cache.entries).trans consistent.count_le, ?_, consistent.maxSize_le⟩
  refine le_trans ?_ consistent.size_le
  rw [sizeEq, ← parts]
  exact (retainedSize_eq consistent keep).trans_le (Nat.le_add_right _ _)

theorem Consistent.removeKeys (consistent : Consistent cache) (drop : CacheKey Digest → Bool) :
    Consistent (cache.removeKeys drop) := by
  refine consistent.retain _ (consistent.once.filter _) fun key => ?_
  rw [List.mem_filter, consistent.listed key]
  simp only [Option.isSome_iff_exists, lookup_retain]
  tauto

theorem Consistent.evictExpired (consistent : Consistent cache) (now : CacheKey Digest → Nat) :
    Consistent (cache.evictExpired now) := by
  refine consistent.retain _ (consistent.once.filter _) fun key => ?_
  rw [List.mem_filter, consistent.listed key]
  refine and_iff_right_of_imp fun kept => ?_
  obtain ⟨entry, found⟩ := Option.isSome_iff_exists.mp kept
  exact Option.isSome_of_eq_some (lookup_retain.mp found).1

theorem Consistent.clear (consistent : Consistent cache) : Consistent cache.clear :=
  ⟨.nil, by simp [LruCache.clear], rfl, Nat.zero_le _, Nat.zero_le _, consistent.maxSize_le⟩

theorem Consistent.getEncoded (consistent : Consistent cache) (key : CacheKey Digest) (now : Nat) :
    Consistent (cache.getEncoded key now).2 := by
  unfold LruCache.getEncoded
  split
  · exact consistent
  · split
    · exact consistent.remove key
    · rename_i entry found _
      have isListed : key ∈ cache.order := (consistent.listed key).mpr (by simp [found])
      rw [if_pos isListed]
      have reordered : (cache.order.erase key ++ [key]).Perm cache.order :=
        (List.perm_append_singleton _ _).trans (List.perm_cons_erase isListed).symm
      exact ⟨reordered.nodup_iff.mpr consistent.once,
        fun other => reordered.mem_iff.trans (consistent.listed other), consistent.size_eq,
        consistent.count_le, consistent.size_le, consistent.maxSize_le⟩

/-! ## Room for an entry -/

/-- Some keys leave room for one more entry. -/
def Fits (cache : LruCache Digest) (sizeBytes : Nat) (keys : List (CacheKey Digest)) : Prop :=
  keys.length < cache.maxEntries ∧
    (keys.map (weightAt CacheEntry.sizeBytes cache.entries)).sum + sizeBytes ≤ cache.maxSizeBytes

theorem isFull_eq_false_iff (consistent : Consistent cache) :
    cache.isFull sizeBytes = false ↔ Fits cache sizeBytes cache.order := by
  have representable := consistent.maxSize_le
  rw [Fits, ← total_eq_sum consistent.once consistent.listed, ← consistent.size_eq,
    ← length_eq consistent.once consistent.listed]
  simp only [isFull, Bool.or_eq_false_iff, decide_eq_false_iff_not, not_le, and_congr_right_iff]
  intro _
  unfold checkedAdd
  split
  · simp
  · simp
    omega

omit [DecidableEq Digest] in
theorem room_of_isFull (room : cache.isFull sizeBytes = false) :
    cache.entries.entries.length < cache.maxEntries ∧
      checkedAdd usizeMax cache.currentSizeBytes sizeBytes =
        some (cache.currentSizeBytes + sizeBytes) ∧
      cache.currentSizeBytes + sizeBytes ≤ cache.maxSizeBytes := by
  simp only [isFull, Bool.or_eq_false_iff, decide_eq_false_iff_not, not_le] at room
  obtain ⟨count, size⟩ := room
  unfold checkedAdd at size ⊢
  split at size
  · rename_i representable
    rw [if_pos representable]
    exact ⟨count, rfl, by simpa using size⟩
  · contradiction

/-- The cache after an eviction keeps the longest end of its order that leaves room. -/
structure Evicted (sizeBytes : Nat) (cache last : LruCache Digest) : Prop where
  consistent : Consistent last
  isSuffix : last.order <:+ cache.order
  fits : Fits cache sizeBytes last.order
  longest : ∀ keys, keys <:+ cache.order → Fits cache sizeBytes keys →
    keys.length ≤ last.order.length
  kept : ∀ key ∈ last.order, last.entries.lookup key = cache.entries.lookup key
  room : last.isFull sizeBytes = false
  maxEntries : last.maxEntries = cache.maxEntries
  maxSizeBytes : last.maxSizeBytes = cache.maxSizeBytes

theorem Evicted.done (consistent : Consistent cache) (room : cache.isFull sizeBytes = false) :
    Evicted sizeBytes cache cache :=
  ⟨consistent, List.suffix_refl _, (isFull_eq_false_iff consistent).mp room,
    fun _ isSuffix _ => isSuffix.length_le, fun _ _ => rfl, room, rfl, rfl⟩

theorem evictOldest_evicted (consistent : Consistent cache) (slots : 0 < cache.maxEntries)
    (small : sizeBytes ≤ cache.maxSizeBytes) :
    ∃ last, evictOldest sizeBytes cache.order cache = (true, last) ∧
      Evicted sizeBytes cache last := by
  generalize isOrder : cache.order = order
  induction order generalizing cache with
  | nil =>
    have room : cache.isFull sizeBytes = false := by
      rw [isFull_eq_false_iff consistent, isOrder]
      exact ⟨slots, by simpa using small⟩
    exact ⟨cache, by rw [evictOldest, room]; rfl, .done consistent room⟩
  | cons oldestKey order ih =>
    rw [evictOldest]
    split
    · rename_i full
      have isListed : oldestKey ∈ cache.order := by rw [isOrder]; exact List.mem_cons_self
      obtain ⟨entry, found⟩ := Option.isSome_iff_exists.mp ((consistent.listed _).mp isListed)
      obtain ⟨isNew, -⟩ := List.nodup_cons.mp (isOrder ▸ consistent.once)
      have smaller := consistent.remove oldestKey
      simp only [LruCache.remove, found, isOrder, List.erase_cons_head] at smaller
      obtain ⟨last, isLast, evicted⟩ := ih smaller slots small rfl
      simp only [found]
      refine ⟨last, isLast, ?_⟩
      have same {other : CacheKey Digest} (listed : other ∈ order) :
          (cache.entries.erase oldestKey).lookup other = cache.entries.lookup other :=
        AList.lookup_erase_ne fun same => isNew (same ▸ listed)
      have fitsAlike {keys : List (CacheKey Digest)} (isSuffix : keys <:+ order) :
          Fits { cache with
            order := order
            entries := cache.entries.erase oldestKey
            currentSizeBytes := cache.currentSizeBytes - entry.sizeBytes } sizeBytes keys ↔
          Fits cache sizeBytes keys := by
        have weights : keys.map (weightAt CacheEntry.sizeBytes (cache.entries.erase oldestKey)) =
            keys.map (weightAt CacheEntry.sizeBytes cache.entries) :=
          List.map_congr_left fun other listed => by
            rw [weightAt, weightAt, same (isSuffix.subset listed)]
        rw [Fits, Fits, weights]
      refine ⟨evicted.consistent, ?_, (fitsAlike evicted.isSuffix).mp evicted.fits,
        fun keys isSuffix fits => ?_, fun other listed => ?_, evicted.room, evicted.maxEntries,
        evicted.maxSizeBytes⟩
      · rw [isOrder]
        exact evicted.isSuffix.trans (List.suffix_cons _ _)
      · rw [isOrder] at isSuffix
        rcases List.suffix_cons_iff.mp isSuffix with rfl | isSuffix
        · rw [← isOrder, ← isFull_eq_false_iff consistent, full] at fits
          contradiction
        · exact evicted.longest keys isSuffix ((fitsAlike isSuffix).mpr fits)
      · rw [evicted.kept other listed]
        exact same (evicted.isSuffix.subset listed)
    · rename_i notFull
      exact ⟨cache, rfl, .done consistent (Bool.eq_false_iff.mpr notFull)⟩

/-! ## Insertion -/

/-- An entry that the size and configuration checks admit. -/
def Admissible (cache : LruCache Digest) (entry : CacheEntry) : Prop :=
  0 < cache.maxEntries ∧ entry.encoded.length ≤ cache.maxItemSize ∧
    entry.sizeBytes ≤ cache.maxSizeBytes

/-- The other keys whose entries have not expired when the sweep comes to them, in order. -/
def others (cache : LruCache Digest) (key : CacheKey Digest) (now : CacheKey Digest → Nat) :
    List (CacheKey Digest) :=
  cache.order.filter fun other =>
    other ≠ key && (cache.entries.lookup other).any fun entry => !entry.isExpired (now other)

/-- The cache after an insertion has the new entry and, besides it, the entries of the longest end
of the other keys that leaves room for it. -/
structure Inserted (cache : LruCache Digest) (key : CacheKey Digest) (entry : CacheEntry)
    (now : CacheKey Digest → Nat) (next : LruCache Digest) : Prop where
  consistent : Consistent next
  stored : next.entries.lookup key = some entry
  kept : ∃ kept, next.order = kept ++ [key] ∧ kept <:+ cache.others key now ∧
    Fits cache entry.sizeBytes kept ∧
    (∀ keys, keys <:+ cache.others key now → Fits cache entry.sizeBytes keys →
      keys.length ≤ kept.length) ∧
    ∀ other ∈ kept, next.entries.lookup other = cache.entries.lookup other

/-- The cache when the sweep is over and the previous entry of the key is gone. -/
structure Prepared (cache : LruCache Digest) (key : CacheKey Digest) (now : CacheKey Digest → Nat)
    (prepared : LruCache Digest) : Prop where
  consistent : Consistent prepared
  order : prepared.order = cache.others key now
  alike : ∀ other ∈ cache.others key now,
    prepared.entries.lookup other = cache.entries.lookup other
  maxEntries : prepared.maxEntries = cache.maxEntries
  maxSizeBytes : prepared.maxSizeBytes = cache.maxSizeBytes

theorem prepared_spec (consistent : Consistent cache) (key : CacheKey Digest)
    (now : CacheKey Digest → Nat) : Prepared cache key now (cache.prepared key now) := by
  have swept := consistent.evictExpired now
  have isOrder : (cache.evictExpired now).order.filter (· ≠ key) = cache.others key now := by
    simp only [LruCache.evictExpired, lookup_retain_eq_filter, List.filter_filter,
      Option.isSome_filter, others, ne_eq, decide_not]
  have alike : ∀ other ∈ cache.others key now, other ≠ key ∧
      (cache.evictExpired now).entries.lookup other = cache.entries.lookup other := by
    intro other isOther
    obtain ⟨different, live⟩ := Bool.and_eq_true_iff.mp (List.mem_filter.mp isOther).2
    refine ⟨of_decide_eq_true different, ?_⟩
    simp only [LruCache.evictExpired, lookup_retain_eq_filter]
    cases found : cache.entries.lookup other with
    | none => rfl
    | some entry =>
      rw [found] at live
      exact Option.filter_some_pos live
  unfold LruCache.prepared
  simp only
  split
  · rename_i present
    obtain ⟨entry, found⟩ := Option.isSome_iff_exists.mp present
    have removed := swept.remove key
    simp only [LruCache.remove, found] at removed ⊢
    refine ⟨removed, ?_, fun other isOther => ?_, rfl, rfl⟩
    · rw [swept.once.erase_eq_filter, ← isOrder]
      refine List.filter_congr fun other _ => ?_
      by_cases same : other = key <;> simp [same]
    · rw [AList.lookup_erase_ne (alike other isOther).1, (alike other isOther).2]
  · rename_i absent
    refine ⟨swept, ?_, fun other isOther => (alike other isOther).2, rfl, rfl⟩
    rw [← isOrder, eq_comm, List.filter_eq_self]
    intro other isListed
    rw [decide_eq_true_eq]
    rintro rfl
    exact absent ((swept.listed other).mp isListed)

theorem insertEntry_inserted (consistent : Consistent cache) {entry : CacheEntry}
    (admissible : Admissible cache entry) (now : CacheKey Digest → Nat) :
    ∃ next, cache.insertEntry key entry now = (.inserted, next) ∧
      Inserted cache key entry now next := by
  obtain ⟨slots, item, size⟩ := admissible
  have metadata := entry.size_eq
  unfold cacheEntryMetadataBytes at metadata
  unfold insertEntry
  rw [if_neg (by omega)]
  have prepared := prepared_spec consistent key now
  obtain ⟨last, isLast, evicted⟩ := @evictOldest_evicted _ _ (cache.prepared key now)
    entry.sizeBytes prepared.consistent (prepared.maxEntries ▸ slots) (prepared.maxSizeBytes ▸ size)
  obtain ⟨count, sum, within⟩ := room_of_isFull evicted.room
  rw [isLast]
  simp only [sum]
  rw [if_neg (by omega)]
  have isSuffix : last.order <:+ cache.others key now := prepared.order ▸ evicted.isSuffix
  have isNew : key ∉ last.order := by
    intro isListed
    simpa [others] using (List.mem_filter.mp (isSuffix.subset isListed)).2
  have absent : last.entries.lookup key = none := by
    rw [← Option.not_isSome_iff_eq_none, ← evicted.consistent.listed key]
    exact isNew
  have fitsAlike {keys : List (CacheKey Digest)} (isEnd : keys <:+ cache.others key now) :
      Fits (cache.prepared key now) entry.sizeBytes keys ↔ Fits cache entry.sizeBytes keys := by
    have weights : keys.map (weightAt CacheEntry.sizeBytes (cache.prepared key now).entries) =
        keys.map (weightAt CacheEntry.sizeBytes cache.entries) :=
      List.map_congr_left fun other listed => by
        rw [weightAt, weightAt, prepared.alike other (isEnd.subset listed)]
    rw [Fits, Fits, weights, prepared.maxEntries, prepared.maxSizeBytes]
  obtain ⟨totalSize, length⟩ := @total_insert _ _ CacheEntry.sizeBytes _ _ _ absent entry
  have sizeEq := evicted.consistent.size_eq
  refine ⟨_, rfl, ⟨?_, fun other => ?_, ?_, ?_, within, evicted.consistent.maxSize_le⟩,
    AList.lookup_insert _, last.order, rfl, isSuffix, (fitsAlike isSuffix).mp evicted.fits,
    fun keys isEnd fits => ?_, fun other isListed => ?_⟩
  · rw [List.nodup_append_comm]
    exact List.nodup_cons.mpr ⟨isNew, evicted.consistent.once⟩
  · rw [List.mem_append, List.mem_singleton, evicted.consistent.listed other]
    by_cases same : other = key
    · subst same
      simp
    · simp [same, AList.lookup_insert_ne same]
  · simp only
    omega
  · simp only
    omega
  · exact evicted.longest keys (prepared.order.symm ▸ isEnd) ((fitsAlike isEnd).mpr fits)
  · have different : other ≠ key := fun same => isNew (same ▸ isListed)
    rw [AList.lookup_insert_ne different, evicted.kept other isListed,
      prepared.alike other (isSuffix.subset isListed)]

/-- An entry that is not admitted changes nothing. -/
theorem insertEntry_refused {entry : CacheEntry} (inadmissible : ¬ Admissible cache entry)
    (now : CacheKey Digest → Nat) : cache.insertEntry key entry now = (.refused, cache) := by
  unfold Admissible at inadmissible
  unfold insertEntry
  rw [if_pos (by omega)]

/-- An insertion does not end half way, and changes nothing unless it stores its entry. -/
def Settles (cache : LruCache Digest) (answer : EntryInsert × LruCache Digest) : Prop :=
  answer.1 ≠ .failedClosed ∧ (answer.1 ≠ .inserted → answer.2 = cache)

theorem Consistent.insertEntry (consistent : Consistent cache) (key : CacheKey Digest)
    (entry : CacheEntry) (now : CacheKey Digest → Nat) :
    Settles cache (cache.insertEntry key entry now) ∧
      ((cache.insertEntry key entry now).1 = .inserted →
        Inserted cache key entry now (cache.insertEntry key entry now).2) := by
  by_cases admissible : Admissible cache entry
  · obtain ⟨next, isNext, inserted⟩ := @insertEntry_inserted _ _ _ key consistent _ admissible now
    rw [isNext]
    exact ⟨⟨nofun, fun other => absurd rfl other⟩, fun _ => inserted⟩
  · rw [insertEntry_refused admissible now]
    exact ⟨⟨nofun, fun _ => rfl⟩, nofun⟩

end LruCache

/-! ## Runs -/

/-- A cache and the keys that were inserted or found in it, the latest first. -/
structure World (Digest : Type) where
  cache : LruCache Digest
  uses : List (CacheKey Digest)

/-- A key is used when an entry is inserted under it. -/
def World.inserted (world : World Digest) (key : CacheKey Digest)
    (answer : EntryInsert × LruCache Digest) : World Digest :=
  ⟨answer.2, if answer.1 = .inserted then key :: world.uses else world.uses⟩

/-- One call on the cache. -/
inductive Operates (encodeJsonBounded : Value → Nat → Option Bytes) :
    World Digest → World Digest → Prop
  | getEncoded (world : World Digest) (key : CacheKey Digest) (now : Nat) :
    Operates encodeJsonBounded world ⟨(world.cache.getEncoded key now).2,
      if (world.cache.getEncoded key now).1.isSome then key :: world.uses else world.uses⟩
  | insert (world : World Digest) (key : CacheKey Digest) (value : Value) (ttl : Nat)
    (readings : LruCache.Readings Digest) : Operates encodeJsonBounded world
      (world.inserted key (world.cache.insert encodeJsonBounded key value ttl readings))
  | insertEncoded (world : World Digest) (key : CacheKey Digest) (encoded : Bytes) (ttl : Nat)
    (readings : LruCache.Readings Digest) : Operates encodeJsonBounded world
      (world.inserted key (world.cache.insertEncoded key encoded ttl readings))
  | remove (world : World Digest) (key : CacheKey Digest) :
    Operates encodeJsonBounded world ⟨world.cache.remove key, world.uses⟩
  | removeInvalidationDigest (world : World Digest) (invalidationDigest : Digest) :
    Operates encodeJsonBounded world
      ⟨world.cache.removeInvalidationDigest invalidationDigest, world.uses⟩
  | removeDiscoveryEntries (world : World Digest) :
    Operates encodeJsonBounded world ⟨world.cache.removeDiscoveryEntries, world.uses⟩
  | evictExpired (world : World Digest) (now : CacheKey Digest → Nat) :
    Operates encodeJsonBounded world ⟨world.cache.evictExpired now, world.uses⟩
  | clear (world : World Digest) :
    Operates encodeJsonBounded world ⟨world.cache.clear, world.uses⟩

/-- Keys in the order of their last use. -/
def ByLastUse (uses order : List (CacheKey Digest)) : Prop :=
  order.Pairwise fun earlier later => uses.idxOf later < uses.idxOf earlier

theorem ByLastUse.use {uses order rest : List (CacheKey Digest)} {key : CacheKey Digest}
    (ordered : ByLastUse uses order) (isRest : rest.Sublist order) (absent : key ∉ rest) :
    ByLastUse (key :: uses) (rest ++ [key]) := by
  have since {other : CacheKey Digest} (listed : other ∈ rest) :
      (key :: uses).idxOf other = uses.idxOf other + 1 :=
    List.idxOf_cons_ne _ fun same => absent (same ▸ listed)
  refine List.pairwise_append.mpr ⟨?_, List.pairwise_singleton _ _, fun earlier listed later => ?_⟩
  · refine (ordered.sublist isRest).imp_of_mem fun isEarlier isLater before => ?_
    rw [since isEarlier, since isLater]
    omega
  · rw [List.mem_singleton]
    rintro rfl
    rw [since listed, List.idxOf_cons_self]
    omega

/-- What holds in every run. -/
structure World.Sound (world : World Digest) : Prop where
  consistent : world.cache.Consistent
  ordered : ByLastUse world.uses world.cache.order

namespace World.Sound

variable {world : World Digest} (sound : world.Sound)
include sound

/-- An insertion, whichever way the entry was made. -/
theorem inserted {key : CacheKey Digest} {answer : EntryInsert × LruCache Digest}
    (isAnswer : answer = (.refused, world.cache) ∨ ∃ entry now,
      answer = world.cache.insertEntry key entry now) :
    (world.inserted key answer).Sound ∧ LruCache.Settles world.cache answer := by
  rcases isAnswer with rfl | ⟨entry, now, rfl⟩
  · exact ⟨⟨sound.consistent, sound.ordered⟩, nofun, fun _ => rfl⟩
  · obtain ⟨settles, inserts⟩ := sound.consistent.insertEntry key entry now
    refine ⟨?_, settles⟩
    unfold World.inserted
    split
    · rename_i isInserted
      have inserted := inserts isInserted
      obtain ⟨kept, isOrder, isEnd, -⟩ := inserted.kept
      refine ⟨inserted.consistent, ?_⟩
      rw [isOrder]
      refine sound.ordered.use (isEnd.sublist.trans List.filter_sublist) fun isListed => ?_
      simpa [LruCache.others] using (List.mem_filter.mp (isEnd.subset isListed)).2
    · rename_i other
      rw [settles.2 other]
      exact ⟨sound.consistent, sound.ordered⟩

omit sound in
theorem insertMade_eq (cache : LruCache Digest) (key : CacheKey Digest)
    (made : Option CacheEntry) (readings : LruCache.Readings Digest) :
    cache.insertMade key made readings = (.refused, cache) ∨ ∃ entry now,
      cache.insertMade key made readings = cache.insertEntry key entry now := by
  cases made with
  | none => exact .inl rfl
  | some entry => exact .inr ⟨entry, readings.swept, rfl⟩

omit sound in
theorem insertEncoded_eq (cache : LruCache Digest) (key : CacheKey Digest) (encoded : Bytes)
    (ttl : Nat) (readings : LruCache.Readings Digest) :
    cache.insertEncoded key encoded ttl readings = (.refused, cache) ∨ ∃ entry now,
      cache.insertEncoded key encoded ttl readings = cache.insertEntry key entry now := by
  unfold LruCache.insertEncoded
  split
  · exact .inl rfl
  · exact insertMade_eq cache key _ readings

/-- A call that drops entries. -/
theorem fewer {cache : LruCache Digest} (consistent : cache.Consistent)
    (isRest : cache.order.Sublist world.cache.order) : World.Sound ⟨cache, world.uses⟩ :=
  ⟨consistent, sound.ordered.sublist isRest⟩

theorem remove (key : CacheKey Digest) : World.Sound ⟨world.cache.remove key, world.uses⟩ := by
  refine sound.fewer (sound.consistent.remove key) ?_
  unfold LruCache.remove
  split
  · exact List.Sublist.refl _
  · exact List.erase_sublist

theorem getEncoded (key : CacheKey Digest) (now : Nat) :
    World.Sound ⟨(world.cache.getEncoded key now).2,
      if (world.cache.getEncoded key now).1.isSome then key :: world.uses else world.uses⟩ := by
  have consistent := sound.consistent.getEncoded key now
  have removed := sound.remove key
  unfold LruCache.getEncoded at *
  split
  · exact sound
  · split
    · exact removed
    · rename_i entry found live
      have isListed : key ∈ world.cache.order := (sound.consistent.listed key).mpr (by simp [found])
      simp only [found, live, if_false, Bool.false_eq_true, isListed, if_true] at consistent ⊢
      refine ⟨consistent, sound.ordered.use List.erase_sublist ?_⟩
      exact sound.consistent.once.not_mem_erase

theorem operates {encodeJsonBounded : Value → Nat → Option Bytes} {next : World Digest}
    (operated : Operates encodeJsonBounded world next) : next.Sound := by
  cases operated with
  | getEncoded key now => exact sound.getEncoded key now
  | insert key value ttl readings =>
    exact (sound.inserted (insertMade_eq world.cache key _ readings)).1
  | insertEncoded key encoded ttl readings =>
    exact (sound.inserted (insertEncoded_eq world.cache key encoded ttl readings)).1
  | remove key => exact sound.remove key
  | removeInvalidationDigest digest =>
    exact sound.fewer (sound.consistent.removeKeys _) List.filter_sublist
  | removeDiscoveryEntries =>
    exact sound.fewer (sound.consistent.removeKeys _) List.filter_sublist
  | evictExpired now =>
    exact sound.fewer (sound.consistent.evictExpired now) List.filter_sublist
  | clear => exact sound.fewer sound.consistent.clear (List.nil_sublist _)

end World.Sound

variable {encodeJsonBounded : Value → Nat → Option Bytes} {maxEntries maxSizeBytes maxItemSize : Nat}
  {world : World Digest}

theorem sound_of_reachable (representable : maxSizeBytes ≤ usizeMax)
    (reached : Reachable (Operates encodeJsonBounded) ⟨.new maxEntries maxSizeBytes maxItemSize, []⟩
      world) : world.Sound := by
  refine reached.invariant ⟨?_, .nil⟩ fun _ _ sound operated => sound.operates operated
  exact ⟨.nil, by simp [LruCache.new], rfl, Nat.zero_le _, Nat.zero_le _, representable⟩

/-- In every run, the list of keys and the count of bytes agree with the entries within both
bounds, an entry that is not admitted changes nothing, and an insertion neither fails half way nor
changes anything unless it stores its entry. -/
theorem lruCache_consistent (representable : maxSizeBytes ≤ usizeMax)
    (reached : Reachable (Operates encodeJsonBounded) ⟨.new maxEntries maxSizeBytes maxItemSize, []⟩
      world) :
    world.cache.Consistent ∧
      (∀ key entry now, ¬ world.cache.Admissible entry →
        world.cache.insertEntry key entry now = (.refused, world.cache)) ∧
      (∀ key entry now, world.cache.Settles (world.cache.insertEntry key entry now)) ∧
      (∀ key value ttl readings,
        world.cache.Settles (world.cache.insert encodeJsonBounded key value ttl readings)) ∧
      ∀ key encoded ttl readings,
        world.cache.Settles (world.cache.insertEncoded key encoded ttl readings) := by
  have sound := sound_of_reachable representable reached
  refine ⟨sound.consistent, fun key entry now inadmissible => ?_, fun key entry now => ?_,
    fun key value ttl readings => ?_, fun key encoded ttl readings => ?_⟩
  · exact LruCache.insertEntry_refused inadmissible now
  · exact (sound.consistent.insertEntry key entry now).1
  · exact (sound.inserted (World.Sound.insertMade_eq world.cache key _ readings)).2
  · exact (sound.inserted (World.Sound.insertEncoded_eq world.cache key encoded ttl readings)).2

/-! ### A cache for two entries -/

def numberedKey (number : Nat) : CacheKey Nat := ⟨number, number, number, .ordinary⟩

/-- Two responses are stored one after the other, and the first one is looked up again. -/
def firstFound : World Nat :=
  let insert (number : Nat) (world : World Nat) : World Nat :=
    world.inserted (numberedKey number)
      (world.cache.insertEncoded (numberedKey number) [number.toUInt8] 5 ⟨usizeMax, 7, fun _ => 7⟩)
  let world := insert 1 (insert 0 ⟨.new 2 2000 100, []⟩)
  ⟨(world.cache.getEncoded (numberedKey 0) 8).2, numberedKey 0 :: world.uses⟩

theorem firstFound_reachable : Reachable (Operates fun (_ : Unit) _ => none)
    ⟨.new 2 2000 100, []⟩ firstFound :=
  ((Reachable.start.extend (.insertEncoded _ (numberedKey 0) [0] 5 _)).extend
    (.insertEncoded _ (numberedKey 1) [1] 5 _)).extend (.getEncoded _ (numberedKey 0) 8)

theorem firstFound_consistent : firstFound.cache.Consistent ∧
    firstFound.cache.order = [numberedKey 1, numberedKey 0] :=
  ⟨(lruCache_consistent (by decide) firstFound_reachable).1, by decide⟩

/-- In every run, the keys are in the order of their last use, and an admissible entry displaces
the least recently used of the other entries that are not expired, and only as many as it has
to. -/
theorem lruCache_evicts_least_recent (representable : maxSizeBytes ≤ usizeMax)
    (reached : Reachable (Operates encodeJsonBounded) ⟨.new maxEntries maxSizeBytes maxItemSize, []⟩
      world) :
    ByLastUse world.uses world.cache.order ∧ ∀ key entry now, world.cache.Admissible entry →
      ∃ next, world.cache.insertEntry key entry now = (.inserted, next) ∧
        world.cache.Inserted key entry now next := by
  have sound := sound_of_reachable representable reached
  exact ⟨sound.ordered, fun key entry now admissible =>
    LruCache.insertEntry_inserted sound.consistent admissible now⟩

/-- The next response takes the place of the second, and the first one is kept before it. -/
theorem firstFound_displaced :
    ∃ next, firstFound.cache.insertEntry (numberedKey 2) ⟨[2], 12, 513, rfl⟩ (fun _ => 8) =
      (.inserted, next) ∧ next.order = [numberedKey 0, numberedKey 2] ∧
        firstFound.cache.Inserted (numberedKey 2) ⟨[2], 12, 513, rfl⟩ (fun _ => 8) next := by
  obtain ⟨next, isNext, inserted⟩ := (lruCache_evicts_least_recent (by decide)
    firstFound_reachable).2 (numberedKey 2) ⟨[2], 12, 513, rfl⟩ (fun _ => 8)
      ⟨by decide, by decide, by decide⟩
  exact ⟨next, isNext, (congrArg (·.2.order) isNext).symm.trans (by decide), inserted⟩

/-! ## What a lookup finds -/

variable {key : CacheKey Digest} {entry : CacheEntry}

theorem LruCache.lookup_remove {cache : LruCache Digest} {removed : CacheKey Digest}
    (found : (cache.remove removed).entries.lookup key = some entry) :
    cache.entries.lookup key = some entry := by
  unfold LruCache.remove at found
  split at found
  · exact found
  · by_cases same : key = removed
    · subst same
      simp at found
    · rwa [AList.lookup_erase_ne same] at found

/-- An entry that is in the cache after an insertion was there before or is the new one. -/
theorem World.Sound.insertMade_origin (sound : world.Sound) {inserted : CacheKey Digest}
    {made : Option CacheEntry} {readings : LruCache.Readings Digest}
    (found : (world.cache.insertMade inserted made readings).2.entries.lookup key = some entry) :
    world.cache.entries.lookup key = some entry ∨ inserted = key ∧ made = some entry ∧
      (world.cache.insertMade inserted made readings).1 = .inserted := by
  cases made with
  | none => exact .inl found
  | some new =>
    change (world.cache.insertEntry inserted new readings.swept).2.entries.lookup key = _ at found
    obtain ⟨settles, inserts⟩ := sound.consistent.insertEntry inserted new readings.swept
    by_cases isInserted : (world.cache.insertEntry inserted new readings.swept).1 = .inserted
    · have after := inserts isInserted
      obtain ⟨kept, isOrder, -, -, -, same⟩ := after.kept
      have isListed := (after.consistent.listed key).mpr (Option.isSome_of_eq_some found)
      rw [isOrder, List.mem_append, List.mem_singleton] at isListed
      rcases isListed with isKept | rfl
      · exact .inl ((same key isKept).symm.trans found)
      · exact .inr ⟨rfl, after.stored.symm.trans found, isInserted⟩
    · rw [settles.2 isInserted] at found
      exact .inl found

theorem CacheEntry.newEncoded_eq_some {instantMax now ttl : Nat} {encoded : Bytes}
    (made : newEncoded instantMax now encoded ttl = some entry) :
    entry.encoded = encoded ∧ entry.expiresAt = now + ttl := by
  unfold newEncoded at made
  split at made
  · contradiction
  · obtain ⟨expiresAt, isSum, made⟩ := Option.bind_eq_some_iff.mp made
    split at made
    · obtain rfl := Option.some.inj made
      exact ⟨rfl, (checkedAdd_eq_some.mp isSum).1⟩
    · contradiction

/-- An insertion call that succeeds under the given key with the given response, which expires when
its time to live is over. -/
inductive Stores (encodeJsonBounded : Value → Nat → Option Bytes) (key : CacheKey Digest)
    (encoded : Bytes) (expiresAt : Nat) (world : World Digest) : World Digest → Prop
  | insert (value : Value) (ttl : Nat) (readings : LruCache.Readings Digest)
    (isEncoding : encodeJsonBounded value
      (min world.cache.maxItemSize (world.cache.maxSizeBytes - cacheEntryMetadataBytes)) =
        some encoded)
    (expires : expiresAt = readings.made + ttl)
    (succeeds : (world.cache.insert encodeJsonBounded key value ttl readings).1 = .inserted) :
    Stores encodeJsonBounded key encoded expiresAt world
      (world.inserted key (world.cache.insert encodeJsonBounded key value ttl readings))
  | insertEncoded (ttl : Nat) (readings : LruCache.Readings Digest)
    (expires : expiresAt = readings.made + ttl)
    (succeeds : (world.cache.insertEncoded key encoded ttl readings).1 = .inserted) :
    Stores encodeJsonBounded key encoded expiresAt world
      (world.inserted key (world.cache.insertEncoded key encoded ttl readings))

/-- Nothing is in the cache after a call that was not there before, unless the call stored it. -/
theorem World.Sound.origin (sound : world.Sound) {next : World Digest}
    (operated : Operates encodeJsonBounded world next)
    (found : next.cache.entries.lookup key = some entry) :
    world.cache.entries.lookup key = some entry ∨
      Stores encodeJsonBounded key entry.encoded entry.expiresAt world next := by
  cases operated with
  | getEncoded other now =>
    left
    unfold LruCache.getEncoded at found
    split at found
    · exact found
    · split at found
      · exact LruCache.lookup_remove found
      · exact found
  | insert other value ttl readings =>
    rcases sound.insertMade_origin found with inside | ⟨rfl, made, succeeds⟩
    · exact .inl inside
    · obtain ⟨encoded, isEncoding, made⟩ := Option.bind_eq_some_iff.mp made
      obtain ⟨rfl, expires⟩ := CacheEntry.newEncoded_eq_some made
      exact .inr (.insert value ttl readings isEncoding expires succeeds)
  | insertEncoded other encoded ttl readings =>
    by_cases long : encoded.length > world.cache.maxItemSize
    · rw [World.inserted, LruCache.insertEncoded, if_pos long] at found
      exact .inl found
    · have isMade : world.cache.insertEncoded other encoded ttl readings =
          world.cache.insertMade other
            (CacheEntry.newEncoded readings.instantMax readings.made encoded ttl) readings :=
        if_neg long
      rw [World.inserted, isMade] at found
      rcases sound.insertMade_origin found with inside | ⟨rfl, made, succeeds⟩
      · exact .inl inside
      · obtain ⟨rfl, expires⟩ := CacheEntry.newEncoded_eq_some made
        exact .inr (.insertEncoded ttl readings expires (isMade ▸ succeeds))
  | remove other => exact .inl (LruCache.lookup_remove found)
  | removeInvalidationDigest digest => exact .inl (lookup_retain.mp found).1
  | removeDiscoveryEntries => exact .inl (lookup_retain.mp found).1
  | evictExpired now => exact .inl (lookup_retain.mp found).1
  | clear => simp [LruCache.clear] at found

/-- One call of the run stored the entry of a key, and the cache has had it ever since. -/
def Stored (encodeJsonBounded : Value → Nat → Option Bytes) (initial world : World Digest)
    (key : CacheKey Digest) (entry : CacheEntry) : Prop :=
  ∃ before after, Reachable (Operates encodeJsonBounded) initial before ∧
    Stores encodeJsonBounded key entry.encoded entry.expiresAt before after ∧
    after.cache.entries.lookup key = some entry ∧
    Reachable (fun current next => Operates encodeJsonBounded current next ∧
      next.cache.entries.lookup key = some entry) after world

end FastMcp.ResponseCache
