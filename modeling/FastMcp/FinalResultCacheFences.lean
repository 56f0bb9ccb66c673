import FastMcp.FinalResultCacheOperations

/-! # What cache operations do to captured generations

Every operation either leaves the generations alone and only drops or replaces
entries, or moves the counters past what was captured before. The theorems
below say so once for each operation.
-/

namespace FastMcp.ClientCache

open MachineWords

variable {Payload : Type}

namespace FinalResultCache

/-- The second cache has the lifecycle state of the first and has only lost
entries. -/
structure Trims (before after : FinalResultCache Payload) : Prop where
  enabled : after.enabled = before.enabled
  epoch : after.epoch = before.epoch
  epochExhausted : after.epochExhausted = before.epochExhausted
  generations : after.generations = before.generations
  entries : ∀ key entry,
    after.entries.lookup key = some entry → before.entries.lookup key = some entry

theorem Trims.refl (cache : FinalResultCache Payload) : Trims cache cache :=
  ⟨rfl, rfl, rfl, rfl, fun _ _ found => found⟩

theorem Trims.trans {first second third : FinalResultCache Payload}
    (left : Trims first second) (right : Trims second third) : Trims first third where
  enabled := right.enabled.trans left.enabled
  epoch := right.epoch.trans left.epoch
  epochExhausted := right.epochExhausted.trans left.epochExhausted
  generations := right.generations.trans left.generations
  entries key entry found := left.entries key entry (right.entries key entry found)

theorem stats_trims (cache : FinalResultCache Payload) (stats : FinalCacheStats) :
    Trims cache { cache with stats := stats } :=
  ⟨rfl, rfl, rfl, rfl, fun _ _ found => found⟩

theorem removeEntry_trims (cache : FinalResultCache Payload) (key : FinalCacheKey) :
    Trims cache (cache.removeEntry key) := by
  unfold removeEntry
  split
  · exact Trims.refl cache
  · refine ⟨rfl, rfl, rfl, rfl, fun other entry found => ?_⟩
    by_cases same : other = key
    · subst same
      simp at found
    · simpa [AList.lookup_erase_ne same] using found

variable {cache before after : FinalResultCache Payload} {token : FinalCacheGeneration}

theorem evictOldest_trims {smaller : FinalResultCache Payload}
    (evicted : cache.evictOldest = some smaller) : Trims cache smaller := by
  simp only [evictOldest, Option.bind_eq_bind, Option.bind_eq_some_iff] at evicted
  obtain ⟨key, -, rest⟩ := evicted
  have removed := removeEntry_trims cache key
  cases Option.some.inj rest
  exact ⟨removed.enabled, removed.epoch, removed.epochExhausted, removed.generations,
    removed.entries⟩

theorem evictUntilFits_trims (encodedBytes fuel : Nat) (cache : FinalResultCache Payload) :
    Trims cache (evictUntilFits encodedBytes fuel cache).2 := by
  induction fuel generalizing cache with
  | zero => exact Trims.refl cache
  | succ fuel ih =>
    rw [evictUntilFits]
    split
    · split
      · rename_i smaller evicted
        exact (evictOldest_trims evicted).trans (ih smaller)
      · exact Trims.refl cache
    · exact Trims.refl cache

theorem lookupPageAt_trims (cache : FinalResultCache Payload) (key : FinalCacheKey) (now : Nat) :
    Trims cache (cache.lookupPageAt key now).2 := by
  unfold lookupPageAt
  split
  · exact stats_trims cache _
  · split
    · exact stats_trims cache _
    · split
      · exact (removeEntry_trims cache key).trans (stats_trims _ _)
      · split
        · exact ((removeEntry_trims cache key).trans (stats_trims _ _)).trans
            (stats_trims _ _)
        · exact stats_trims cache _

theorem lookupAt_trims (cache : FinalResultCache Payload) (key : FinalCacheKey) (now : Nat) :
    Trims cache (cache.lookupAt key now).2 := by
  have trimmed := lookupPageAt_trims cache key now
  unfold lookupAt
  split <;> simp_all

variable {key : FinalCacheKey} {resultSet : FinalCacheResultSet}

/-- A fresh answer comes from a retained entry that is current and not expired. -/
theorem lookupAt_fresh {now : Nat} {result : CoreResult Payload}
    (fresh : (cache.lookupAt key now).1 = .fresh result) :
    cache.enabled = true ∧ ∃ entry, cache.entries.lookup key = some entry ∧
      entry.generation = cache.beginFetch key.resultSet ∧ now < entry.expiresAt ∧
      entry.result = result := by
  unfold lookupAt lookupPageAt at fresh
  cases enabled : cache.enabled with
  | false => simp [enabled] at fresh
  | true =>
    cases found : cache.entries.lookup key with
    | none => simp [enabled, found] at fresh
    | some entry =>
      simp only [enabled, found, Bool.not_true, Bool.false_eq_true, if_false] at fresh
      by_cases current : entry.generation = cache.beginFetch key.resultSet
      · by_cases expired : now ≥ entry.expiresAt
        · simp [current, expired] at fresh
        · simp only [current, expired, ne_eq, not_true_eq_false, if_false,
            FinalCacheLookup.fresh.injEq] at fresh
          exact ⟨rfl, entry, rfl, current, Nat.lt_of_not_le expired, fresh⟩
      · simp [current] at fresh

/-- The captured generation is the current one of its class and the epoch can
still move. -/
structure Current (cache : FinalResultCache Payload) (token : FinalCacheGeneration) : Prop where
  epoch : token.epoch = cache.epoch
  revision : token.revision = cache.revision token.resultSet
  usable : cache.epochExhausted = false

/-- The counters have moved past the captured generation, or can never move
again on a cache that is disabled for good. -/
def Overtaken (cache : FinalResultCache Payload) (token : FinalCacheGeneration) : Prop :=
  token.epoch < cache.epoch ∨
    token.epoch = cache.epoch ∧
      (cache.epochExhausted = true ∨ token.revision < cache.revision token.resultSet)

theorem Current.not_overtaken (current : Current cache token) : ¬ Overtaken cache token := by
  rintro (older | ⟨-, exhausted | older⟩)
  · exact absurd current.epoch (Nat.ne_of_lt older)
  · rw [current.usable] at exhausted
    contradiction
  · exact absurd current.revision (Nat.ne_of_lt older)

theorem beginFetch_current (usable : cache.epochExhausted = false)
    (resultSet : FinalCacheResultSet) :
    Current cache (cache.beginFetch resultSet) :=
  ⟨rfl, rfl, usable⟩

theorem beginFetch_overtaken (exhausted : cache.epochExhausted = true)
    (resultSet : FinalCacheResultSet) : Overtaken cache (cache.beginFetch resultSet) :=
  .inr ⟨rfl, .inl exhausted⟩

/-- The generations of every class are left as they are. -/
structure KeepsFence (before after : FinalResultCache Payload) : Prop where
  epoch : after.epoch = before.epoch
  epochExhausted : after.epochExhausted = before.epochExhausted
  generations : after.generations = before.generations

theorem Trims.keepsFence (trimmed : Trims before after) : KeepsFence before after :=
  ⟨trimmed.epoch, trimmed.epochExhausted, trimmed.generations⟩

theorem KeepsFence.current (kept : KeepsFence before after) (current : Current before token) :
    Current after token := by
  refine ⟨current.epoch.trans kept.epoch.symm, ?_, kept.epochExhausted.trans current.usable⟩
  rw [current.revision, revision, revision, kept.generations]

theorem KeepsFence.overtaken (kept : KeepsFence before after) (overtaken : Overtaken before token) :
    Overtaken after token := by
  simpa only [Overtaken, revision, kept.epoch, kept.epochExhausted, kept.generations]
    using overtaken

/-- Everything captured before is behind: the epoch moved or was exhausted. -/
def FencesAll (before after : FinalResultCache Payload) : Prop :=
  before.epoch < after.epoch ∨ before.epoch = after.epoch ∧ after.epochExhausted = true

theorem clear_fencesAll (cache : FinalResultCache Payload) : FencesAll cache cache.clear := by
  unfold clear
  split
  · rename_i epoch moved
    left
    change cache.epoch < epoch
    have := checkedAdd_eq_some.mp moved
    omega
  · exact .inr ⟨rfl, rfl⟩

theorem clear_entries (cache : FinalResultCache Payload) : cache.clear.entries = ∅ := by
  unfold clear
  split <;> rfl

theorem FencesAll.overtaken (fenced : FencesAll before after)
    (known : Overtaken before token ∨ Current before token) : Overtaken after token := by
  have notLater : token.epoch ≤ before.epoch := by
    rcases known with (older | ⟨same, -⟩) | current
    · exact Nat.le_of_lt older
    · exact Nat.le_of_eq same
    · exact Nat.le_of_eq current.epoch
  rcases fenced with moved | ⟨same, exhausted⟩
  · exact .inl (Nat.lt_of_le_of_lt notLater moved)
  · rcases Nat.lt_or_eq_of_le notLater with older | equal
    · exact .inl (same ▸ older)
    · exact .inr ⟨equal.trans same, .inl exhausted⟩

/-- What an invalidation does to the generations: it fences everything behind a
new epoch, or it moves the revision of its own class and no other. -/
theorem invalidateResultSet_cases (cache : FinalResultCache Payload)
    (resultSet : FinalCacheResultSet) :
    FencesAll cache (cache.invalidateResultSet resultSet) ∨
      (cache.invalidateResultSet resultSet).epoch = cache.epoch ∧
      (cache.invalidateResultSet resultSet).epochExhausted = cache.epochExhausted ∧
      (cache.invalidateResultSet resultSet).revision resultSet.generationSet =
        cache.revision resultSet.generationSet + 1 ∧
      ∀ other, other ≠ resultSet.generationSet →
        (cache.invalidateResultSet resultSet).revision other = cache.revision other := by
  unfold invalidateResultSet
  split
  · exact .inl (clear_fencesAll cache)
  · rename_i advanced moved
    refine .inr ⟨rfl, rfl, ?_, fun other different => ?_⟩
    · have next := (checkedAdd_eq_some.mp moved).1
      simpa [revision, countInvalidation, recountRetainedBytes, generation] using next
    · simp [revision, countInvalidation, recountRetainedBytes, AList.lookup_insert_ne different]

theorem invalidateResultSet_overtaken (known : Overtaken cache token ∨
      Current cache token ∧ token.resultSet = resultSet.generationSet) :
    Overtaken (cache.invalidateResultSet resultSet) token := by
  rcases invalidateResultSet_cases cache resultSet with fenced | ⟨epoch, exhausted, moved, others⟩
  · exact fenced.overtaken (known.imp_right And.left)
  · have notEarlier : cache.revision token.resultSet ≤
        (cache.invalidateResultSet resultSet).revision token.resultSet := by
      by_cases same : token.resultSet = resultSet.generationSet
      · rw [same, moved]
        omega
      · rw [others _ same]
    rcases known with (older | ⟨same, out | older⟩) | ⟨current, same⟩
    · exact .inl (epoch ▸ older)
    · exact .inr ⟨same.trans epoch.symm, .inl (exhausted.trans out)⟩
    · exact .inr ⟨same.trans epoch.symm, .inr (Nat.lt_of_lt_of_le older notEarlier)⟩
    · refine .inr ⟨current.epoch.trans epoch.symm, .inr ?_⟩
      rw [current.revision, same, moved]
      omega

theorem invalidateResultSet_current (current : Current cache token)
    (different : token.resultSet ≠ resultSet.generationSet) :
    Overtaken (cache.invalidateResultSet resultSet) token ∨
      Current (cache.invalidateResultSet resultSet) token := by
  rcases invalidateResultSet_cases cache resultSet with fenced | ⟨epoch, exhausted, -, others⟩
  · exact .inl (fenced.overtaken (.inr current))
  · exact .inr ⟨current.epoch.trans epoch.symm, current.revision.trans (others _ different).symm,
      exhausted.trans current.usable⟩

theorem clear_disabled (disabled : cache.epochExhausted = true → cache.enabled = false) :
    cache.clear.epochExhausted = true → cache.clear.enabled = false := by
  unfold clear
  split
  · exact disabled
  · exact fun _ => rfl

theorem invalidateResultSet_disabled
    (disabled : cache.epochExhausted = true → cache.enabled = false)
    (resultSet : FinalCacheResultSet) :
    (cache.invalidateResultSet resultSet).epochExhausted = true →
      (cache.invalidateResultSet resultSet).enabled = false := by
  unfold invalidateResultSet
  split
  · exact clear_disabled disabled
  · exact disabled

theorem setEnabled_disabled (cache : FinalResultCache Payload) (enabled : Bool) :
    (cache.setEnabled enabled).epochExhausted = true →
      (cache.setEnabled enabled).enabled = false := by
  intro exhausted
  change (enabled && !(cache.setEnabled enabled).epochExhausted) = false
  rw [exhausted]
  simp

theorem lookup_retainKeys {test : FinalCacheKey → Bool} {entries : EntryMap Payload}
    {entry : FinalCacheEntry Payload} (found : (retainKeys test entries).lookup key = some entry) :
    entries.lookup key = some entry := by
  have member := AList.mem_lookup_iff.mp (Option.mem_def.mpr found)
  exact Option.mem_def.mp (AList.mem_lookup_iff.mpr (List.mem_of_mem_filter member))

theorem invalidateResultSet_entries (cache : FinalResultCache Payload)
    (resultSet : FinalCacheResultSet) (key : FinalCacheKey) (entry : FinalCacheEntry Payload)
    (found : (cache.invalidateResultSet resultSet).entries.lookup key = some entry) :
    cache.entries.lookup key = some entry := by
  unfold invalidateResultSet at found
  split at found
  · simp [countInvalidation, clear_entries] at found
  · exact lookup_retainKeys found

/-- What an insertion can do: drop entries, or store exactly one new entry that
carries the captured generation and expires after its time to live. -/
theorem insertIfCurrentAt_cases (environment : CacheEnvironment Payload)
    (cache : FinalResultCache Payload) (key : FinalCacheKey) (captured : FinalCacheGeneration)
    (result : CoreResult Payload) (receipt : Nat) :
    let answer := insertIfCurrentAt environment cache key captured result receipt
    Trims cache answer.2 ∨
      answer.1 = .stored ∧ KeepsFence cache answer.2 ∧ answer.2.enabled = cache.enabled ∧
      ∃ ttl scope ttlMs encodedBytes,
        finalCacheHints result = some (ttl, scope) ∧ ttl.tryAsMillis = some ttlMs ∧
        ∀ other entry, answer.2.entries.lookup other = some entry →
          other = key ∧ entry =
            ⟨result, scope, captured, receipt, receipt + ttlMs * 1000000, encodedBytes⟩ ∨
          cache.entries.lookup other = some entry := by
  intro answer
  unfold answer insertIfCurrentAt
  split
  · exact .inl (Trims.refl cache)
  cases hints : finalCacheHints result with
  | none => exact .inl (Trims.refl cache)
  | some hint =>
    obtain ⟨ttl, scope⟩ := hint
    cases millis : ttl.tryAsMillis with
    | none => exact .inl (by simpa [millis] using Trims.refl cache)
    | some ttlMs =>
      simp only [millis]
      split
      · exact .inl (Trims.refl cache)
      split
      · exact .inl (Trims.refl cache)
      rename_i expiresAt expiry
      split
      · exact .inl (Trims.refl cache)
      rename_i encoded _
      split
      · exact .inl (Trims.refl cache)
      have fits := (removeEntry_trims cache key).trans
        (evictUntilFits_trims
          (saturatingAdd usizeMax key.estimatedBytes encoded.utf8ByteSize)
          (cache.removeEntry key).entries.entries.length (cache.removeEntry key))
      split
      · rename_i emptied evicted
        rw [evicted] at fits
        exact .inl fits
      · rename_i fitting evicted
        rw [evicted] at fits
        refine .inr ⟨rfl, ⟨fits.epoch, fits.epochExhausted, fits.generations⟩, fits.enabled,
          ttl, scope, ttlMs, saturatingAdd usizeMax key.estimatedBytes encoded.utf8ByteSize,
          rfl, millis, fun other entry found => ?_⟩
        by_cases same : other = key
        · subst same
          rw [← (checkedAdd_eq_some.mp expiry).1]
          exact .inl ⟨rfl, by simpa using found.symm⟩
        · exact .inr (fits.entries other entry (by simpa [AList.lookup_insert_ne same] using found))

theorem setEnabled_cases (disabled : cache.epochExhausted = true → cache.enabled = false)
    (enabled : Bool) :
    (FencesAll cache (cache.setEnabled enabled) ∧ (cache.setEnabled enabled).entries = ∅) ∨
      (cache.setEnabled enabled).enabled = cache.enabled ∧
        Trims cache (cache.setEnabled enabled) := by
  unfold setEnabled
  by_cases same : cache.enabled = enabled
  · subst same
    have kept : (cache.enabled && !cache.epochExhausted) = cache.enabled := by
      cases exhausted : cache.epochExhausted with
      | false => simp
      | true => simp [disabled exhausted]
    refine .inr ⟨by simpa using kept, ?_⟩
    simp only [ne_eq, not_true_eq_false, if_false]
    exact ⟨kept, rfl, rfl, rfl, fun _ _ found => found⟩
  · left
    simp only [ne_eq, same, not_false_eq_true, if_true]
    exact ⟨clear_fencesAll cache, clear_entries cache⟩

end FinalResultCache

end FastMcp.ClientCache
