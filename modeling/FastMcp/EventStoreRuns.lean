import FastMcp.EventStoreStreams
import FastMcp.Outcomes
import FastMcp.TransitionRuns

/-! # Runs of the event store

A run is a sequence of operations, and next to the store it keeps a log of all
events that were ever accepted. Every stream holds an end part of what the log
has for it, which is the reason for all that is true of the store: identifiers
are distinct because they are numbered along the log, and positions, counts and
sizes are kept by each operation.
-/

namespace FastMcp.ResumableStreams

open MachineWords OrderedMaps MapTotals Outcomes StreamEvents TransitionRuns

variable {Data : Type}

/-- The store and all events it has ever accepted. -/
structure World (Data : Type) where
  store : EventStore Data
  log : List (EventEntry Data)

/-- The calls that read or change the store. -/
inductive Step (encoding : Encoding Data) : World Data → World Data → Prop
  | stored {world} (streamId : StreamId) (data : Option Data) (readings : Readings) (id : EventId)
      (accepted : (world.store.storeEvent encoding streamId data readings).1 = .ok id) :
      Step encoding world ⟨(world.store.storeEvent encoding streamId data readings).2,
        world.log ++ [⟨id, streamId, data, readings.create⟩]⟩
  | refused {world} (streamId : StreamId) (data : Option Data) (readings : Readings)
      (error : EventStoreError)
      (rejected : (world.store.storeEvent encoding streamId data readings).1 = .error error) :
      Step encoding world
        { world with store := (world.store.storeEvent encoding streamId data readings).2 }
  | replayed {world} (streamId : StreamId) (afterId : Option EventId) (readings : Readings) :
      Step encoding world
        { world with store := (world.store.replayBounded streamId afterId readings).2 }
  | read {world} (streamId : StreamId) (afterId : Option EventId) (readings : Readings) :
      Step encoding world
        { world with store := (world.store.getEventsAfter streamId afterId readings).2 }
  | cleared {world} (streamId : StreamId) :
      Step encoding world { world with store := world.store.clearStream streamId }
  | cleaned {world} (readings : Readings) :
      Step encoding world { world with store := world.store.cleanupExpired readings }

/-- What is true of one stream. -/
structure StreamSound (encoding : Encoding Data) (config : EventStoreConfig)
    (log : List (EventEntry Data)) (streamId : StreamId) (stream : StreamEvents Data) : Prop where
  nonempty : stream.events ≠ []
  indexed : Indexes stream.index stream.events
  short : stream.events.length ≤ config.maxEventsPerStream
  measured : ∀ event ∈ stream.events,
    measureEventPayload encoding event.entry.data config.maxEventPayloadBytes =
      .ok event.payloadBytes
  retained : stream.events.map StoredEvent.entry <:+
    log.filter fun entry => entry.streamId = streamId

/-- Events are numbered along the log. -/
def Numbered (log : List (EventEntry Data)) : Prop :=
  ∀ (position : Nat) (entry : EventEntry Data), log[position]? = some entry →
    ∃ timestamp, entry.id = eventIdOf timestamp (position % 2 ^ 64)

/-- What is true of the store and its log. -/
structure Sound (encoding : Encoding Data) (world : World Data) : Prop where
  streams : ∀ (streamId : StreamId) (stream : StreamEvents Data),
    world.store.streams[streamId]? = some stream →
      StreamSound encoding world.store.config world.log streamId stream
  counted : world.store.eventCounter = world.log.length % 2 ^ 64
  numbered : Numbered world.log
  bounded : total (fun stream => payload stream.events) world.store.streams ≤
    world.store.config.maxTotalEventPayloadBytes
  few : world.store.streams.size ≤ world.store.config.maxStreams

/-! ## Distinct identifiers -/

variable {log : List (EventEntry Data)} {streamId : StreamId} {stream : StreamEvents Data}
  {encoding : Encoding Data} {world : World Data} {store : EventStore Data} {data : Option Data}
  {payloadBytes : Nat} {readings : Readings} {id : EventId} {entry : EventEntry Data}

theorem Numbered.nodup (numbered : Numbered log) (short : log.length ≤ 2 ^ 64) :
    (log.map EventEntry.id).Nodup := by
  rw [List.nodup_iff_getElem?_ne_getElem?]
  intro first second before inside same
  rw [List.length_map] at inside
  have firstInside : first < log.length := Nat.lt_trans before inside
  rw [List.getElem?_map, List.getElem?_map, List.getElem?_eq_getElem firstInside,
    List.getElem?_eq_getElem inside, Option.map_some, Option.map_some, Option.some.injEq] at same
  obtain ⟨firstTime, firstId⟩ := numbered first _ (List.getElem?_eq_getElem firstInside)
  obtain ⟨secondTime, secondId⟩ := numbered second _ (List.getElem?_eq_getElem inside)
  rw [firstId, secondId] at same
  have numbers := eventIdOf_counter same
  rw [Nat.mod_eq_of_lt (by omega), Nat.mod_eq_of_lt (by omega)] at numbers
  omega

theorem distinct_of_retained {events : List (StoredEvent Data)}
    (retained : events.map StoredEvent.entry <:+ log.filter fun entry => entry.streamId = streamId)
    (nodup : (log.map EventEntry.id).Nodup) : Distinct events := by
  have inLog : (events.map StoredEvent.entry).Sublist log :=
    retained.sublist.trans List.filter_sublist
  have ids : events.map (·.entry.id) = (events.map StoredEvent.entry).map EventEntry.id := by
    rw [List.map_map]
    rfl
  rw [Distinct, ids]
  exact nodup.sublist (inLog.map _)

/-! ## Cleaning up -/

variable {ttl : Option Nat} {reading : EventId → Instant} {streams : Streams Data}
  {before after : World Data}

theorem getElem?_cleanupStreams :
    (cleanupStreams ttl reading streams)[streamId]? = some stream ↔
      ∃ before, streams[streamId]? = some before ∧ stream = before.removeExpired ttl reading ∧
        stream.events ≠ [] := by
  rw [cleanupStreams, Std.ExtTreeMap.getElem?_filter', Option.filter_eq_some_iff]
  have same : (if ttl.isSome then streams.map fun _ stream => stream.removeExpired ttl reading
      else streams)[streamId]? = streams[streamId]?.map (·.removeExpired ttl reading) := by
    split
    · rw [Std.ExtTreeMap.getElem?_map]
    · rename_i endless
      have absent : ttl = none := by simpa using endless
      simp [absent, removeExpired]
  rw [same, Option.map_eq_some_iff]
  constructor
  · rintro ⟨⟨before, found, rfl⟩, filled⟩
    exact ⟨before, found, rfl, by simpa using filled⟩
  · rintro ⟨before, found, rfl, filled⟩
    exact ⟨⟨before, found, rfl⟩, by simpa using filled⟩

theorem size_cleanupStreams_le (ttl : Option Nat) (reading : EventId → Instant)
    (streams : Streams Data) : (cleanupStreams ttl reading streams).size ≤ streams.size := by
  refine Nat.le_trans Std.ExtTreeMap.size_filter_le_size ?_
  split
  · rw [Std.ExtTreeMap.size_map]
  · exact Nat.le_refl _

theorem total_cleanupStreams_le (ttl : Option Nat) (reading : EventId → Instant)
    (streams : Streams Data) :
    total (fun stream => payload stream.events) (cleanupStreams ttl reading streams) ≤
      total (fun stream => payload stream.events) streams := by
  refine total_le fun streamId => ?_
  cases found : (cleanupStreams ttl reading streams)[streamId]? with
  | none => simp [weightAt, found]
  | some stream =>
    obtain ⟨before, present, rfl, -⟩ := getElem?_cleanupStreams.mp found
    simp only [weightAt, found, present]
    exact payload_le_of_suffix (before.removeExpired_suffix ttl reading)

theorem StreamSound.removeExpired {config : EventStoreConfig}
    (sound : StreamSound encoding config log streamId stream)
    (nodup : (log.map EventEntry.id).Nodup)
    (nonempty : (stream.removeExpired ttl reading).events ≠ []) :
    StreamSound encoding config log streamId (stream.removeExpired ttl reading) := by
  have suffix := stream.removeExpired_suffix ttl reading
  have distinct := distinct_of_retained sound.retained nodup
  refine ⟨nonempty, removeExpired_indexes sound.indexed distinct, ?_, ?_, ?_⟩
  · exact Nat.le_trans suffix.length_le sound.short
  · exact fun event listed => sound.measured event (suffix.subset listed)
  · obtain ⟨front, parts⟩ := suffix
    refine List.IsSuffix.trans ⟨front.map StoredEvent.entry, ?_⟩ sound.retained
    rw [← List.map_append, parts]

theorem Sound.cleanup (sound : Sound encoding world) (short : world.log.length ≤ 2 ^ 64)
    (readings : Readings) :
    Sound encoding { world with store := world.store.cleanup readings } := by
  refine ⟨fun streamId stream found => ?_, sound.counted, sound.numbered, ?_, ?_⟩
  · obtain ⟨before, present, rfl, nonempty⟩ := getElem?_cleanupStreams.mp found
    exact (sound.streams streamId before present).removeExpired (sound.numbered.nodup short)
      nonempty
  · exact Nat.le_trans (total_cleanupStreams_le _ _ _) sound.bounded
  · exact Nat.le_trans (size_cleanupStreams_le _ _ _) sound.few

theorem Sound.clearStream (sound : Sound encoding world) (streamId : StreamId) :
    Sound encoding { world with store := world.store.clearStream streamId } := by
  refine ⟨fun other stream found => ?_, sound.counted, sound.numbered, ?_, ?_⟩
  · by_cases same : other = streamId
    · subst same
      simp [EventStore.clearStream] at found
    · rw [EventStore.clearStream, getElem?_erase_ne _ same] at found
      exact sound.streams other stream found
  · have erased := total_erase (fun stream => payload stream.events) world.store.streams streamId
    have bounded := sound.bounded
    simp only [EventStore.clearStream]
    omega
  · have few := sound.few
    simp only [EventStore.clearStream, Std.ExtTreeMap.size_erase]
    split <;> omega

/-! ## Accepting an event -/

/-- What an accepted event does to the store. -/
theorem admitEvent_eq_ok
    (accepted : (store.admitEvent streamId data payloadBytes readings).1 = .ok id) :
    ((store.streams[streamId]?).isSome ∨ store.streams.size < store.config.maxStreams) ∧
      id = eventIdOf readings.wall store.eventCounter ∧
      ∃ retained next, store.retainedPayloadBytes streamId payloadBytes = some retained ∧
        retained ≤ store.config.maxTotalEventPayloadBytes ∧
        ((store.streams[streamId]?).getD (.new Data)).push ⟨id, streamId, data, readings.create⟩
          payloadBytes store.config.maxEventsPerStream = .ok next ∧
        (store.admitEvent streamId data payloadBytes readings).2 =
          { store with
            eventCounter := (store.eventCounter + 1) % 2 ^ 64
            streams := store.streams.insert streamId next } := by
  unfold EventStore.admitEvent at accepted ⊢
  split at accepted
  · cases accepted
  rename_i room
  rw [if_neg room]
  cases sized : store.retainedPayloadBytes streamId payloadBytes with
  | none =>
    rw [sized] at accepted
    cases accepted
  | some retained =>
    simp only [sized] at accepted ⊢
    split at accepted
    · cases accepted
    rename_i fits
    rw [if_neg fits]
    cases pushed : ((store.streams[streamId]?).getD (.new Data)).push
        ⟨eventIdOf readings.wall store.eventCounter, streamId, data, readings.create⟩ payloadBytes
        store.config.maxEventsPerStream with
    | error error =>
      rw [pushed] at accepted
      cases accepted
    | ok next =>
      rw [pushed] at accepted
      cases Except.ok.inj accepted
      refine ⟨?_, rfl, retained, next, rfl, Nat.not_lt.mp fits, pushed, rfl⟩
      rcases not_and_or.mp room with present | space
      · exact .inl (by simpa using present)
      · exact .inr (Nat.not_le.mp space)

theorem totalPayloadBytes_eq_some {sum : Nat} (summed : totalPayloadBytes streams = some sum) :
    sum = total (fun stream => payload stream.events) streams := by
  have folded : ∀ (entries : List (StreamId × StreamEvents Data)) (start : Nat),
      entries.foldlM (fun total entry =>
        entry.2.totalPayloadBytes.bind fun bytes => checkedAdd usizeMax total bytes) start =
          some sum →
        sum = start + (entries.map fun entry => payload entry.2.events).sum := by
    intro entries
    induction entries with
    | nil =>
      intro start done
      cases Option.some.inj done
      simp
    | cons entry entries ih =>
      intro start done
      rw [List.foldlM_cons, Option.bind_eq_bind, Option.bind_eq_some_iff] at done
      obtain ⟨next, added, done⟩ := done
      obtain ⟨bytes, counted, added⟩ := Option.bind_eq_some_iff.mp added
      obtain ⟨rfl, -⟩ := checkedAdd_eq_some.mp added
      rw [ih _ done, sumPayloadBytes_eq_some counted]
      simp [Nat.add_assoc]
  have all := folded streams.toList 0 summed
  rwa [Nat.zero_add] at all

theorem retainedPayloadBytes_eq_some {retained : Nat}
    (sized : store.retainedPayloadBytes streamId payloadBytes = some retained) :
    ∃ evicted, (match store.streams[streamId]? with
        | none => some 0
        | some stream =>
          stream.prospectiveEvictedPayloadBytes store.config.maxEventsPerStream) = some evicted ∧
      retained + evicted =
        total (fun stream => payload stream.events) store.streams + payloadBytes := by
  obtain ⟨sum, summed, sized⟩ := Option.bind_eq_some_iff.mp sized
  obtain ⟨evicted, predicted, sized⟩ := Option.bind_eq_some_iff.mp sized
  obtain ⟨left, subtracted, added⟩ := Option.bind_eq_some_iff.mp sized
  obtain ⟨rfl, -⟩ := checkedAdd_eq_some.mp added
  split at subtracted
  on_goal 2 => cases subtracted
  rename_i enough
  cases Option.some.inj subtracted
  refine ⟨evicted, predicted, ?_⟩
  have whole := totalPayloadBytes_eq_some summed
  omega

theorem Numbered.concat (numbered : Numbered log) {timestamp : Nat}
    (named : entry.id = eventIdOf timestamp (log.length % 2 ^ 64)) : Numbered (log ++ [entry]) := by
  intro position other found
  rcases Nat.lt_trichotomy position log.length with inside | rfl | outside
  · rw [List.getElem?_append_left inside] at found
    exact numbered position other found
  · rw [List.getElem?_concat_length, Option.some.injEq] at found
    subst found
    exact ⟨timestamp, named⟩
  · rw [List.getElem?_eq_none (by simp; omega)] at found
    cases found

/-- The stream that an accepted event enters. -/
theorem StreamSound.push {next : StreamEvents Data}
    (streams : ∀ (streamId : StreamId) (stream : StreamEvents Data),
      store.streams[streamId]? = some stream →
        StreamSound encoding store.config log streamId stream)
    (nodup : ((log ++ [entry]).map EventEntry.id).Nodup)
    (measured : measureEventPayload encoding entry.data store.config.maxEventPayloadBytes =
      .ok payloadBytes)
    (pushed : ((store.streams[entry.streamId]?).getD (.new Data)).push entry payloadBytes
      store.config.maxEventsPerStream = .ok next) :
    StreamSound encoding store.config (log ++ [entry]) entry.streamId next := by
  obtain ⟨positive, events⟩ := push_eq_ok pushed
  generalize current : (store.streams[entry.streamId]?).getD (.new Data) = stream at pushed events
  -- An absent stream is an empty one, of which everything but being nonempty is true.
  have before : Indexes stream.index stream.events ∧
      (∀ event ∈ stream.events,
        measureEventPayload encoding event.entry.data store.config.maxEventPayloadBytes =
          .ok event.payloadBytes) ∧
      stream.events.map StoredEvent.entry <:+
        log.filter fun other => other.streamId = entry.streamId := by
    cases found : store.streams[entry.streamId]? with
    | none =>
      rw [found, Option.getD_none] at current
      subst current
      exact ⟨.nil, by simp [StreamEvents.new], by simp [StreamEvents.new]⟩
    | some present =>
      rw [found, Option.getD_some] at current
      subst current
      have sound := streams _ _ found
      exact ⟨sound.indexed, sound.measured, sound.retained⟩
  obtain ⟨indexed, measuredBefore, retainedBefore⟩ := before
  have retained : next.events.map StoredEvent.entry <:+
      (log ++ [entry]).filter fun other => other.streamId = entry.streamId := by
    have kept := (List.drop_suffix (stream.events.length + 1 - store.config.maxEventsPerStream)
      stream.events)
    obtain ⟨front, parts⟩ := kept
    obtain ⟨older, whole⟩ := retainedBefore
    refine ⟨older ++ front.map StoredEvent.entry, ?_⟩
    rw [events, List.filter_append, ← whole, List.map_append, List.append_assoc, ← List.append_assoc
      (front.map _), ← List.map_append, parts]
    simp
  have nodupBefore : (log.map EventEntry.id).Nodup := by
    rw [List.map_append] at nodup
    exact nodup.of_append_left
  refine ⟨by simp [events], ?_, ?_, ?_, retained⟩
  · exact push_indexes pushed indexed (distinct_of_retained retainedBefore nodupBefore)
      (distinct_of_retained retained nodup)
  · rw [events, List.length_append, List.length_drop, List.length_singleton]
    omega
  · intro event listed
    rw [events, List.mem_append] at listed
    rcases listed with old | new
    · exact measuredBefore event (List.mem_of_mem_drop old)
    · cases List.mem_singleton.mp new
      exact measured

theorem StreamSound.concat {config : EventStoreConfig}
    (sound : StreamSound encoding config log streamId stream)
    (different : entry.streamId ≠ streamId) :
    StreamSound encoding config (log ++ [entry]) streamId stream := by
  refine { sound with retained := ?_ }
  rw [List.filter_append]
  simpa [different] using sound.retained

theorem Sound.admit (sound : Sound encoding world) (short : world.log.length + 1 ≤ 2 ^ 64)
    (measured : measureEventPayload encoding data world.store.config.maxEventPayloadBytes =
      .ok payloadBytes)
    (accepted : (world.store.admitEvent streamId data payloadBytes readings).1 = .ok id) :
    Sound encoding ⟨(world.store.admitEvent streamId data payloadBytes readings).2,
      world.log ++ [⟨id, streamId, data, readings.create⟩]⟩ := by
  obtain ⟨room, rfl, retained, next, sized, fits, pushed, left⟩ := admitEvent_eq_ok accepted
  rw [left]
  have numbered : Numbered (world.log ++ [⟨eventIdOf readings.wall world.store.eventCounter,
      streamId, data, readings.create⟩]) :=
    sound.numbered.concat (congrArg (eventIdOf readings.wall) sound.counted)
  have nodup := numbered.nodup (by simpa using short)
  refine ⟨fun other stream found => ?_, ?_, numbered, ?_, ?_⟩
  · by_cases same : other = streamId
    · subst same
      rw [Std.ExtTreeMap.getElem?_insert_self, Option.some.injEq] at found
      subst found
      have entered := StreamSound.push sound.streams nodup measured pushed
      exact entered
    · rw [getElem?_insert_ne _ _ same] at found
      exact (sound.streams other stream found).concat (Ne.symm same)
  · simp [sound.counted]
  · obtain ⟨evicted, predicted, balance⟩ := retainedPayloadBytes_eq_some sized
    have inserted := total_insert (fun stream => payload stream.events) world.store.streams
      streamId next
    obtain ⟨-, events⟩ := push_eq_ok pushed
    -- What the prediction counts is what the eviction takes.
    have exchange : payload next.events + evicted =
        weightAt (fun stream => payload stream.events) world.store.streams streamId +
          payloadBytes := by
      cases found : world.store.streams[streamId]? with
      | none =>
        rw [found] at predicted events
        cases Option.some.inj predicted
        simp [events, weightAt, found, StreamEvents.new, payload]
      | some stream =>
        rw [found] at predicted events
        have taken := prospectiveEvictedPayloadBytes_eq_some predicted
        have parts := payload_take_add_drop stream.events
          (stream.events.length + 1 - world.store.config.maxEventsPerStream)
        rw [events, Option.getD_some, payload_append]
        simp only [weightAt, found]
        simp only [payload, List.map_cons, List.map_nil, List.sum_singleton] at parts taken ⊢
        omega
    dsimp only at inserted ⊢
    omega
  · have few := sound.few
    rw [Std.ExtTreeMap.size_insert]
    split
    · exact few
    · rename_i absent
      rcases room with present | space
      · rw [Std.ExtTreeMap.contains_eq_isSome_getElem?] at absent
        exact absurd present absent
      · exact space

/-! ## Every run -/

theorem Sound.storeEvent (sound : Sound encoding world) (short : world.log.length + 1 ≤ 2 ^ 64)
    (accepted : (world.store.storeEvent encoding streamId data readings).1 = .ok id) :
    Sound encoding ⟨(world.store.storeEvent encoding streamId data readings).2,
      world.log ++ [⟨id, streamId, data, readings.create⟩]⟩ := by
  unfold EventStore.storeEvent at accepted ⊢
  split at accepted
  · cases accepted
  rename_i admissible
  rw [if_neg admissible]
  split at accepted
  · cases accepted
  rename_i payloadBytes measured
  have cleaned := sound.cleanup (by omega) readings
  exact cleaned.admit short measured accepted

/-- A refused event leaves the store as it was or as cleaning up leaves it. -/
theorem storeEvent_refused {error : EventStoreError}
    (positive : 0 < store.config.maxEventsPerStream)
    (refused : (store.storeEvent encoding streamId data readings).1 = .error error) :
    (store.storeEvent encoding streamId data readings).2 = store ∨
      (store.storeEvent encoding streamId data readings).2 = store.cleanup readings := by
  unfold EventStore.storeEvent at refused ⊢
  split
  · exact .inl rfl
  rename_i admissible
  rw [if_neg admissible] at refused
  split
  · exact .inl rfl
  rename_i payloadBytes measured
  rw [measured] at refused
  right
  dsimp only at refused ⊢
  have samePositive : 0 < (store.cleanup readings).config.maxEventsPerStream := positive
  generalize store.cleanup readings = cleaned at refused samePositive ⊢
  unfold EventStore.admitEvent at refused ⊢
  split
  · rfl
  rename_i room
  rw [if_neg room] at refused
  split
  · rfl
  rename_i retained sized
  rw [sized] at refused
  dsimp only at refused ⊢
  split
  · rfl
  rename_i fits
  rw [if_neg fits] at refused
  -- With a positive limit the event itself is never refused.
  unfold push at refused
  rw [if_neg (Nat.pos_iff_ne_zero.mp samePositive)] at refused
  cases refused

theorem withConfig_eq_ok {config : EventStoreConfig} (built : withConfig Data config = .ok store) :
    store = fromValidatedConfig Data config ∧ ∀ limit ∈ config.limits, 0 < limit.2 := by
  obtain ⟨⟨⟩, valid, rfl⟩ := map_eq_ok.mp built
  refine ⟨rfl, fun limit listed => ?_⟩
  have passed := forM_eq_ok.mp valid limit listed
  split at passed
  · cases passed
  · rename_i positive
    exact Nat.pos_of_ne_zero positive

theorem Sound.initial (encoding : Encoding Data) (config : EventStoreConfig) :
    Sound encoding ⟨fromValidatedConfig Data config, []⟩ := by
  refine ⟨by simp [fromValidatedConfig], rfl, by simp [Numbered], ?_, by simp [fromValidatedConfig]⟩
  simp [fromValidatedConfig]

theorem admitEvent_config (streamId : StreamId) (data : Option Data) (payloadBytes : Nat)
    (readings : Readings) (store : EventStore Data) :
    (store.admitEvent streamId data payloadBytes readings).2.config = store.config := by
  unfold EventStore.admitEvent
  split
  · rfl
  split
  · rfl
  split
  · rfl
  dsimp only
  split <;> rfl

theorem storeEvent_config (encoding : Encoding Data) (streamId : StreamId) (data : Option Data)
    (readings : Readings) (store : EventStore Data) :
    (store.storeEvent encoding streamId data readings).2.config = store.config := by
  unfold EventStore.storeEvent
  split
  · rfl
  split
  · rfl
  · exact admitEvent_config ..

theorem replayBounded_store (streamId : StreamId) (afterId : Option EventId)
    (readings : Readings) (store : EventStore Data) :
    (store.replayBounded streamId afterId readings).2 = store ∨
      (store.replayBounded streamId afterId readings).2 = store.cleanup readings := by
  unfold EventStore.replayBounded
  split
  · exact .inl rfl
  split
  · exact .inl rfl
  · exact .inr rfl

/-- Every step keeps the configuration and never shortens the log. -/
theorem Step.config (step : Step encoding before after) :
    after.store.config = before.store.config ∧ before.log <+: after.log := by
  cases step with
  | stored => exact ⟨storeEvent_config .., List.prefix_append ..⟩
  | refused => exact ⟨storeEvent_config .., List.prefix_rfl⟩
  | replayed streamId afterId readings =>
    refine ⟨?_, List.prefix_rfl⟩
    rcases replayBounded_store streamId afterId readings before.store with same | same <;>
      rw [same]
    rfl
  | _ => exact ⟨rfl, List.prefix_rfl⟩

theorem Step.sound (step : Step encoding before after) (sound : Sound encoding before)
    (positive : 0 < before.store.config.maxEventsPerStream) (short : after.log.length ≤ 2 ^ 64) :
    Sound encoding after := by
  cases step with
  | stored streamId data readings id accepted =>
    rw [List.length_append, List.length_singleton] at short
    exact sound.storeEvent short accepted
  | refused streamId data readings error rejected =>
    rcases storeEvent_refused positive rejected with same | same <;> rw [same]
    · exact sound
    · exact sound.cleanup short readings
  | replayed streamId afterId readings =>
    rcases replayBounded_store streamId afterId readings before.store with same | same <;>
      rw [same]
    · exact sound
    · exact sound.cleanup short readings
  | read streamId afterId readings => exact sound.cleanup short readings
  | cleared streamId => exact sound.clearStream streamId
  | cleaned readings => exact sound.cleanup short readings

/-- The worlds that any calls on a new store reach. -/
def Reaches (encoding : Encoding Data) (store : EventStore Data) : World Data → Prop :=
  Reachable (Step encoding) ⟨store, []⟩

theorem Reaches.sound {config : EventStoreConfig} (reached : Reaches encoding store world)
    (built : withConfig Data config = .ok store) :
    world.store.config = config ∧ (world.log.length ≤ 2 ^ 64 → Sound encoding world) := by
  obtain ⟨rfl, limits⟩ := withConfig_eq_ok built
  have positive : 0 < config.maxEventsPerStream :=
    limits ("max_events_per_stream", _) List.mem_cons_self
  induction reached with
  | refl => exact ⟨rfl, fun _ => .initial encoding config⟩
  | tail _ step ih =>
    obtain ⟨same, sound⟩ := ih
    obtain ⟨sameAfter, grows⟩ := step.config
    refine ⟨sameAfter.trans same, fun short => ?_⟩
    exact step.sound (sound (Nat.le_trans grows.length_le short)) (same ▸ positive) short

/-! ## The representation -/

/-- The representation of the store is as its readers expect it. -/
structure WellFormed (encoding : Encoding Data) (store : EventStore Data) : Prop where
  indexed : ∀ (streamId : StreamId) (stream : StreamEvents Data),
    store.streams[streamId]? = some stream → Indexes stream.index stream.events
  distinct : ∀ (firstId secondId : StreamId) (first second : StreamEvents Data)
    (position other : Nat) (event twin : StoredEvent Data),
    store.streams[firstId]? = some first → store.streams[secondId]? = some second →
    first.events[position]? = some event → second.events[other]? = some twin →
    event.entry.id = twin.entry.id → firstId = secondId ∧ position = other
  nonempty : ∀ (readings : Readings) (streamId : StreamId) (stream : StreamEvents Data),
    (store.cleanup readings).streams[streamId]? = some stream → stream.events ≠ []
  short : ∀ (streamId : StreamId) (stream : StreamEvents Data),
    store.streams[streamId]? = some stream →
      stream.events.length ≤ store.config.maxEventsPerStream
  few : store.streams.size ≤ store.config.maxStreams
  small : ∀ (streamId : StreamId) (stream : StreamEvents Data),
    store.streams[streamId]? = some stream → ∀ event ∈ stream.events,
      measureEventPayload encoding event.entry.data store.config.maxEventPayloadBytes =
        .ok event.payloadBytes ∧ event.payloadBytes ≤ store.config.maxEventPayloadBytes
  bounded : total (fun stream => payload stream.events) store.streams ≤
    store.config.maxTotalEventPayloadBytes

/-- No event is new, and no event is gone that was not expired when it was checked. -/
def LosesOnlyExpired (readings : Readings) (before after : EventStore Data) : Prop :=
  (∀ (streamId : StreamId) (stream : StreamEvents Data), after.streams[streamId]? = some stream →
    ∃ old, before.streams[streamId]? = some old ∧ ∀ event ∈ stream.events, event ∈ old.events) ∧
  ∀ (streamId : StreamId) (old : StreamEvents Data), before.streams[streamId]? = some old →
    ∀ event ∈ old.events,
      event.entry.isExpired before.config.ttl (readings.check event.entry.id) = false →
        ∃ stream, after.streams[streamId]? = some stream ∧ event ∈ stream.events

theorem cleanup_losesOnlyExpired (readings : Readings) (store : EventStore Data) :
    LosesOnlyExpired readings store (store.cleanup readings) := by
  constructor
  · intro streamId stream found
    obtain ⟨old, present, rfl, -⟩ := getElem?_cleanupStreams.mp found
    exact ⟨old, present, fun event listed => (old.removeExpired_suffix _ _).subset listed⟩
  · intro streamId old present event listed fresh
    obtain ⟨removed, parts, expired⟩ := old.removeExpired_events store.config.ttl readings.check
    have kept : event ∈ (old.removeExpired store.config.ttl readings.check).events := by
      rw [parts, List.mem_append] at listed
      rcases listed with gone | kept
      · rw [expired event gone] at fresh
        cases fresh
      · exact kept
    exact ⟨_, getElem?_cleanupStreams.mpr ⟨old, present, rfl, List.ne_nil_of_mem kept⟩, kept⟩

/-- Two places in two streams that hold events with the same identifier are the same place. -/
theorem Sound.same_place (sound : Sound encoding world) (short : world.log.length ≤ 2 ^ 64)
    {firstId secondId : StreamId} {first second : StreamEvents Data} {position other : Nat}
    {event twin : StoredEvent Data} (firstFound : world.store.streams[firstId]? = some first)
    (secondFound : world.store.streams[secondId]? = some second)
    (here : first.events[position]? = some event) (there : second.events[other]? = some twin)
    (same : event.entry.id = twin.entry.id) : firstId = secondId ∧ position = other := by
  have nodup := sound.numbered.nodup short
  have place : ∀ (streamId : StreamId) (stream : StreamEvents Data),
      world.store.streams[streamId]? = some stream → ∀ event ∈ stream.events,
        event.entry ∈ world.log ∧ event.entry.streamId = streamId := by
    intro streamId stream found event listed
    have inLog := (sound.streams streamId stream found).retained.subset
      (List.mem_map_of_mem listed)
    simpa using inLog
  obtain ⟨firstLogged, rfl⟩ := place _ _ firstFound event (List.mem_of_getElem? here)
  obtain ⟨secondLogged, rfl⟩ := place _ _ secondFound twin (List.mem_of_getElem? there)
  have equal : event.entry = twin.entry :=
    List.inj_on_of_nodup_map nodup firstLogged secondLogged same
  rw [equal] at firstFound
  cases Option.some.inj (firstFound.symm.trans secondFound)
  refine ⟨by rw [equal], ?_⟩
  have indexed := (sound.streams _ _ firstFound).indexed
  have atHere := (indexed event.entry.id position).mpr (by rw [here]; rfl)
  have atThere := (indexed event.entry.id other).mpr (by rw [there, same]; rfl)
  exact Option.some.inj (atHere.symm.trans atThere)

theorem Sound.wellFormed (sound : Sound encoding world) (short : world.log.length ≤ 2 ^ 64) :
    WellFormed encoding world.store where
  indexed streamId stream found := (sound.streams streamId stream found).indexed
  distinct _ _ _ _ _ _ _ _ firstFound secondFound here there same :=
    sound.same_place short firstFound secondFound here there same
  nonempty readings streamId stream found := by
    obtain ⟨-, -, -, nonempty⟩ := getElem?_cleanupStreams.mp found
    exact nonempty
  short streamId stream found := (sound.streams streamId stream found).short
  few := sound.few
  small streamId stream found event listed :=
    have measured := (sound.streams streamId stream found).measured event listed
    ⟨measured, measureEventPayload_le measured⟩
  bounded := sound.bounded

/-- Whatever calls were made on a new store, its representation is well formed, and a call
that refuses to store an event neither adds an event nor loses one that is not expired. -/
theorem reached_wellFormed {encoding : Encoding Data} {config : EventStoreConfig}
    {store : EventStore Data} {world : World Data}
    (built : withConfig Data config = .ok store) (reached : Reaches encoding store world)
    (few : world.log.length < 2 ^ 64) :
    WellFormed encoding world.store ∧
      ∀ streamId data readings error,
        (world.store.storeEvent encoding streamId data readings).1 = .error error →
          LosesOnlyExpired readings world.store
            (world.store.storeEvent encoding streamId data readings).2 := by
  obtain ⟨same, sound⟩ := reached.sound built
  have positive : 0 < world.store.config.maxEventsPerStream := by
    rw [same]
    exact (withConfig_eq_ok built).2 ("max_events_per_stream", _) List.mem_cons_self
  refine ⟨(sound few.le).wellFormed few.le, fun streamId data readings error refused => ?_⟩
  rcases storeEvent_refused positive refused with left | left <;> rw [left]
  · exact ⟨fun _ stream found => ⟨stream, found, fun _ listed => listed⟩,
      fun _ old present event listed _ => ⟨old, present, listed⟩⟩
  · exact cleanup_losesOnlyExpired readings world.store

/-- A configuration with short streams and small pages. -/
def plainConfig : EventStoreConfig where
  maxEventsPerStream := 2
  maxStreams := 2
  maxStreamIdBytes := 8
  maxEventPayloadBytes := 8
  maxTotalEventPayloadBytes := 64
  maxReplayEvents := 1
  maxReplayPayloadBytes := 8
  maxReplayCursorBytes := 64
  ttl := none
  sized := by decide

/-- Payloads that are written as one digit. -/
def plainEncoding : Encoding Unit :=
  ⟨fun _ => [1], fun _ => true⟩

def plainReadings : Readings :=
  ⟨fun _ => 0, 0, 0⟩

/-- The store accepts another event, under the given identifier. -/
def accept (world : World Unit) (id : EventId) : World Unit :=
  ⟨(world.store.storeEvent plainEncoding "s" (some ()) plainReadings).2,
    world.log ++ [⟨id, "s", some (), 0⟩]⟩

/-- A new store accepts an event. -/
def plainStored (config : EventStoreConfig) : World Unit :=
  accept ⟨fromValidatedConfig Unit config, []⟩ "0-0"

theorem twoStored_reached : Reaches plainEncoding (fromValidatedConfig Unit plainConfig)
    (accept (plainStored plainConfig) "0-1") :=
  (Reachable.start.extend (.stored "s" (some ()) plainReadings "0-0" (by decide))).extend
    (.stored "s" (some ()) plainReadings "0-1" (by decide +kernel))

/-- The third event evicts the first, and an event of a stream with a long name is refused. -/
theorem reached_wellFormed_stored :
    let stored := accept (accept (plainStored plainConfig) "0-1") "0-2"
    let refusing := stored.store.storeEvent plainEncoding "much too long" (some ()) plainReadings
    refusing.1 = .error (.streamIdTooLong 8) ∧
      (refusing.2.streams["s"]?.map fun stream => stream.events.map (·.entry.id)) =
        some ["0-1", "0-2"] ∧
      WellFormed plainEncoding refusing.2 ∧
      LosesOnlyExpired plainReadings stored.store refusing.2 := by
  intro stored refusing
  have built : withConfig Unit plainConfig = .ok (fromValidatedConfig Unit plainConfig) := rfl
  have refused : refusing.1 = .error (.streamIdTooLong 8) := by decide +kernel
  have before : Reaches plainEncoding (fromValidatedConfig Unit plainConfig) stored :=
    twoStored_reached.extend (.stored "s" (some ()) plainReadings "0-2" (by decide +kernel))
  have after : Reaches plainEncoding (fromValidatedConfig Unit plainConfig)
      { stored with store := refusing.2 } :=
    before.extend (.refused "much too long" (some ()) plainReadings _ refused)
  exact ⟨refused, by decide +kernel, (reached_wellFormed built after (by decide)).1,
    (reached_wellFormed built before (by decide)).2 _ _ _ _ refused⟩

end FastMcp.ResumableStreams
