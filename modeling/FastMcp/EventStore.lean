import FastMcp.MachineWords
import FastMcp.OrderedMaps

/-! # The event store for resumable streams

Events of a stream are kept in the order in which they were stored, so that a
client that lost its connection can ask for what came after the last event it
saw. The store bounds everything it keeps: the events of a stream, the streams,
the bytes of one event and the bytes of all events. Old events make room for
new ones of the same stream, and events that are too old are removed at the
start of every operation.

How a payload is written as compact JSON is a matter of the JSON library. Only
the sizes of its writes count here.
-/

namespace FastMcp.ResumableStreams

open MachineWords

abbrev EventId := String

abbrev StreamId := String

/-- A reading of the monotonic clock in nanoseconds. -/
abbrev Instant := Nat

inductive EventStoreError where
  | invalidZeroLimit (field : String)
  | streamIdTooLong (maxBytes : Nat)
  | eventPayloadTooLarge (maxBytes : Nat)
  | streamLimitReached (maxStreams : Nat)
  | aggregatePayloadLimitExceeded (maxBytes : Nat)
  | replayCursorTooLong (maxBytes : Nat)
  | replayCursorNotRetained
  | replayEventPayloadTooLarge (maxBytes : Nat)
  | payloadMeasurementFailed
deriving DecidableEq, Repr

/-- One event of a stream. -/
structure EventEntry (Data : Type) where
  id : EventId
  streamId : StreamId
  data : Option Data
  createdAt : Instant
deriving DecidableEq, Repr

def EventEntry.isExpired {Data : Type} (entry : EventEntry Data) (ttl : Option Nat)
    (now : Instant) : Bool :=
  match ttl with
  | some ttl => now - entry.createdAt > ttl
  | none => false

/-- One page of a replay, with the identifier to continue from. -/
structure ReplayBatch (Data : Type) where
  events : List (EventEntry Data)
  nextAfterId : Option EventId
  payloadBytes : Nat
  complete : Bool
deriving DecidableEq, Repr

def ReplayBatch.empty (Data : Type) : ReplayBatch Data :=
  ⟨[], none, 0, true⟩

/-! ## Configuration -/

/-- The limits of a store. They are machine sizes. -/
structure EventStoreConfig where
  maxEventsPerStream : Nat
  maxStreams : Nat
  maxStreamIdBytes : Nat
  maxEventPayloadBytes : Nat
  maxTotalEventPayloadBytes : Nat
  maxReplayEvents : Nat
  maxReplayPayloadBytes : Nat
  maxReplayCursorBytes : Nat
  ttl : Option Nat
  sized : ∀ limit ∈ [maxEventsPerStream, maxStreams, maxStreamIdBytes, maxEventPayloadBytes,
    maxTotalEventPayloadBytes, maxReplayEvents, maxReplayPayloadBytes, maxReplayCursorBytes],
    limit ≤ usizeMax
deriving DecidableEq

namespace EventStoreConfig

/-- The limits with their names, in the order in which they are checked. -/
def limits (config : EventStoreConfig) : List (String × Nat) :=
  [("max_events_per_stream", config.maxEventsPerStream),
    ("max_streams", config.maxStreams),
    ("max_stream_id_bytes", config.maxStreamIdBytes),
    ("max_event_payload_bytes", config.maxEventPayloadBytes),
    ("max_total_event_payload_bytes", config.maxTotalEventPayloadBytes),
    ("max_replay_events", config.maxReplayEvents),
    ("max_replay_payload_bytes", config.maxReplayPayloadBytes),
    ("max_replay_cursor_bytes", config.maxReplayCursorBytes)]

def validate (config : EventStoreConfig) : Except EventStoreError Unit :=
  config.limits.forM fun limit =>
    if limit.2 = 0 then .error (.invalidZeroLimit limit.1) else .ok ()

end EventStoreConfig

/-! ## Measuring payloads -/

/-- How the JSON library writes a payload: the sizes of its writes, and whether it gets to
its end. -/
structure Encoding (Data : Type) where
  writes : Data → List Nat
  succeeds : Data → Bool

/-- The number of bytes written so far after one more write, unless it is too large. -/
def countWrite (maxBytes bytes size : Nat) : Option Nat :=
  (checkedAdd usizeMax bytes size).bind fun next => if next > maxBytes then none else some next

def measureEventPayload {Data : Type} (encoding : Encoding Data) (data : Option Data)
    (maxBytes : Nat) : Except EventStoreError Nat :=
  match data with
  | none => .ok 0
  | some data =>
    match (encoding.writes data).foldlM (countWrite maxBytes) 0 with
    | none => .error (.eventPayloadTooLarge maxBytes)
    | some bytes =>
      if encoding.succeeds data then .ok bytes else .error .payloadMeasurementFailed

/-! ## The events of one stream -/

/-- An entry with the size that its stream is charged for it. -/
structure StoredEvent (Data : Type) where
  entry : EventEntry Data
  payloadBytes : Nat

abbrev EventIndex := Std.ExtTreeMap EventId Nat compare

/-- The events of one stream, the oldest one first, with an index of their identifiers. -/
structure StreamEvents (Data : Type) where
  events : List (StoredEvent Data)
  index : EventIndex

variable {Data : Type}

/-- The positions of the events. A later event with the same identifier would win. -/
def indexOf (events : List (StoredEvent Data)) : EventIndex :=
  events.zipIdx.foldl (fun index event => index.insert event.1.entry.id event.2) ∅

namespace StreamEvents

def new (Data : Type) : StreamEvents Data :=
  ⟨[], ∅⟩

def rebuildIndex (stream : StreamEvents Data) : StreamEvents Data :=
  { stream with index := indexOf stream.events }

def sumPayloadBytes (events : List (StoredEvent Data)) : Option Nat :=
  events.foldlM (fun total event => checkedAdd usizeMax total event.payloadBytes) 0

def prospectiveEvictedPayloadBytes (stream : StreamEvents Data) (maxEvents : Nat) : Option Nat :=
  (checkedAdd usizeMax stream.events.length 1).bind fun length =>
    sumPayloadBytes (stream.events.take (length - maxEvents))

def totalPayloadBytes (stream : StreamEvents Data) : Option Nat :=
  sumPayloadBytes stream.events

/-- Removes the oldest events until there is room for one more. -/
def evictOldest (maxEvents : Nat) : List (StoredEvent Data) → EventIndex → StreamEvents Data
  | [], index => ⟨[], index⟩
  | oldest :: events, index =>
    if (oldest :: events).length ≥ maxEvents then
      evictOldest maxEvents events
        (rebuildIndex ⟨events, index.erase oldest.entry.id⟩).index
    else ⟨oldest :: events, index⟩

def push (stream : StreamEvents Data) (entry : EventEntry Data) (payloadBytes maxEvents : Nat) :
    Except EventStoreError (StreamEvents Data) :=
  if maxEvents = 0 then .error (.invalidZeroLimit "max_events_per_stream")
  else
    let room := evictOldest maxEvents stream.events stream.index
    .ok ⟨room.events ++ [⟨entry, payloadBytes⟩], room.index.insert entry.id room.events.length⟩

/-- Removes events from the front as long as they are expired. Every event is checked at a
clock reading of its own. -/
def dropExpired (ttl : Option Nat) (reading : EventId → Instant) :
    List (StoredEvent Data) → EventIndex → StreamEvents Data × Bool
  | [], index => (⟨[], index⟩, false)
  | front :: events, index =>
    if front.entry.isExpired ttl (reading front.entry.id) then
      ((dropExpired ttl reading events (index.erase front.entry.id)).1, true)
    else (⟨front :: events, index⟩, false)

def removeExpired (stream : StreamEvents Data) (ttl : Option Nat) (reading : EventId → Instant) :
    StreamEvents Data :=
  if ttl.isNone then stream
  else
    let dropped := dropExpired ttl reading stream.events stream.index
    if dropped.2 then dropped.1.rebuildIndex else dropped.1

def eventsAfter (stream : StreamEvents Data) : Option EventId → List (EventEntry Data)
  | none => stream.events.map StoredEvent.entry
  | some id =>
    match stream.index[id]? with
    | some index => (stream.events.drop (index + 1)).map StoredEvent.entry
    | none => []

/-- Collects one page from the events that follow the cursor. -/
def collectPage (maxEvents maxPayloadBytes : Nat) :
    List (StoredEvent Data) → List (EventEntry Data) → Option EventId → Nat →
      Except EventStoreError (ReplayBatch Data)
  | [], events, nextAfterId, payloadBytes => .ok ⟨events, nextAfterId, payloadBytes, true⟩
  | event :: rest, events, nextAfterId, payloadBytes =>
    if events.length = maxEvents then .ok ⟨events, nextAfterId, payloadBytes, false⟩
    else
      match checkedAdd usizeMax payloadBytes event.payloadBytes with
      | none => .error (.replayEventPayloadTooLarge maxPayloadBytes)
      | some nextPayloadBytes =>
        if nextPayloadBytes > maxPayloadBytes then
          if events.isEmpty then .error (.replayEventPayloadTooLarge maxPayloadBytes)
          else .ok ⟨events, nextAfterId, payloadBytes, false⟩
        else
          collectPage maxEvents maxPayloadBytes rest (events ++ [event.entry])
            (some event.entry.id) nextPayloadBytes

/-- The position after the cursor. -/
def startIndex (stream : StreamEvents Data) : Option EventId → Except EventStoreError Nat
  | none => .ok 0
  | some id =>
    match stream.index[id]? with
    | some index => .ok (saturatingAdd usizeMax index 1)
    | none => .error .replayCursorNotRetained

def replayBounded (stream : StreamEvents Data) (afterId : Option EventId)
    (maxEvents maxPayloadBytes : Nat) : Except EventStoreError (ReplayBatch Data) := do
  let startIndex ← stream.startIndex afterId
  collectPage maxEvents maxPayloadBytes (stream.events.drop startIndex) [] afterId 0

end StreamEvents

/-! ## The store -/

abbrev Streams (Data : Type) := Std.ExtTreeMap StreamId (StreamEvents Data) compare

/-- All streams, with the counter that the identifiers are made from. -/
structure EventStore (Data : Type) where
  config : EventStoreConfig
  streams : Streams Data
  eventCounter : Nat

def fromValidatedConfig (Data : Type) (config : EventStoreConfig) : EventStore Data :=
  ⟨config, ∅, 0⟩

def withConfig (Data : Type) (config : EventStoreConfig) :
    Except EventStoreError (EventStore Data) :=
  config.validate.map fun _ => fromValidatedConfig Data config

/-- The identifier of the event with a number, made at a wall clock reading in milliseconds. -/
def eventIdOf (timestamp counter : Nat) : EventId :=
  toString timestamp ++ "-" ++ toString counter

def cleanupStreams (ttl : Option Nat) (reading : EventId → Instant) (streams : Streams Data) :
    Streams Data :=
  let current :=
    if ttl.isSome then streams.map fun _ stream => stream.removeExpired ttl reading else streams
  current.filter fun _ stream => !stream.events.isEmpty

def totalPayloadBytes (streams : Streams Data) : Option Nat :=
  streams.toList.foldlM (fun total entry =>
    entry.2.totalPayloadBytes.bind fun bytes => checkedAdd usizeMax total bytes) 0

/-- What an operation reads from its surroundings: the monotonic clock when an event is
checked and when one is made, and the wall clock. -/
structure Readings where
  check : EventId → Instant
  create : Instant
  wall : Nat

namespace EventStore

def cleanup (store : EventStore Data) (readings : Readings) : EventStore Data :=
  { store with streams := cleanupStreams store.config.ttl readings.check store.streams }

/-- The payload bytes that would be retained with one more event. -/
def retainedPayloadBytes (store : EventStore Data) (streamId : StreamId) (payloadBytes : Nat) :
    Option Nat :=
  (totalPayloadBytes store.streams).bind fun total =>
  (match store.streams[streamId]? with
    | none => some 0
    | some stream =>
      stream.prospectiveEvictedPayloadBytes store.config.maxEventsPerStream).bind fun evicted =>
  (if evicted ≤ total then some (total - evicted) else none).bind fun retained =>
    checkedAdd usizeMax retained payloadBytes

/-- Stores an event in a store whose expired events are gone. -/
def admitEvent (store : EventStore Data) (streamId : StreamId) (data : Option Data)
    (payloadBytes : Nat) (readings : Readings) :
    Except EventStoreError EventId × EventStore Data :=
  if (store.streams[streamId]?).isNone ∧ store.streams.size ≥ store.config.maxStreams then
    (.error (.streamLimitReached store.config.maxStreams), store)
  else
    match store.retainedPayloadBytes streamId payloadBytes with
    | none => (.error (.aggregatePayloadLimitExceeded store.config.maxTotalEventPayloadBytes), store)
    | some retained =>
      if retained > store.config.maxTotalEventPayloadBytes then
        (.error (.aggregatePayloadLimitExceeded store.config.maxTotalEventPayloadBytes), store)
      else
        let eventId := eventIdOf readings.wall store.eventCounter
        let counted := { store with eventCounter := (store.eventCounter + 1) % 2 ^ 64 }
        let stream := (store.streams[streamId]?).getD (.new Data)
        match stream.push ⟨eventId, streamId, data, readings.create⟩ payloadBytes
            store.config.maxEventsPerStream with
        | .ok stream =>
          (.ok eventId, { counted with streams := store.streams.insert streamId stream })
        | .error error =>
          (.error error, { counted with streams := store.streams.insert streamId stream })

def storeEvent (encoding : Encoding Data) (streamId : StreamId) (data : Option Data)
    (readings : Readings) (store : EventStore Data) :
    Except EventStoreError EventId × EventStore Data :=
  if streamId.utf8ByteSize > store.config.maxStreamIdBytes then
    (.error (.streamIdTooLong store.config.maxStreamIdBytes), store)
  else
    match measureEventPayload encoding data store.config.maxEventPayloadBytes with
    | .error error => (.error error, store)
    | .ok payloadBytes => (store.cleanup readings).admitEvent streamId data payloadBytes readings

def getEventsAfter (streamId : StreamId) (afterId : Option EventId) (readings : Readings)
    (store : EventStore Data) : List (EventEntry Data) × EventStore Data :=
  (match (store.cleanup readings).streams[streamId]? with
    | some stream => stream.eventsAfter afterId
    | none => [], store.cleanup readings)

/-- The page that a store whose expired events are gone returns. -/
def replayPage (store : EventStore Data) (streamId : StreamId) (afterId : Option EventId) :
    Except EventStoreError (ReplayBatch Data) :=
  match store.streams[streamId]? with
  | some stream =>
    stream.replayBounded afterId store.config.maxReplayEvents store.config.maxReplayPayloadBytes
  | none => if afterId.isSome then .error .replayCursorNotRetained else .ok (.empty Data)

def cursorTooLong (store : EventStore Data) (afterId : Option EventId) : Bool :=
  match afterId with
  | some id => id.utf8ByteSize > store.config.maxReplayCursorBytes
  | none => false

def replayBounded (streamId : StreamId) (afterId : Option EventId) (readings : Readings)
    (store : EventStore Data) :
    Except EventStoreError (ReplayBatch Data) × EventStore Data :=
  if streamId.utf8ByteSize > store.config.maxStreamIdBytes then
    (.error (.streamIdTooLong store.config.maxStreamIdBytes), store)
  else if store.cursorTooLong afterId then
    (.error (.replayCursorTooLong store.config.maxReplayCursorBytes), store)
  else ((store.cleanup readings).replayPage streamId afterId, store.cleanup readings)

def clearStream (streamId : StreamId) (store : EventStore Data) : EventStore Data :=
  { store with streams := store.streams.erase streamId }

def cleanupExpired (readings : Readings) (store : EventStore Data) : EventStore Data :=
  store.cleanup readings

end EventStore

end FastMcp.ResumableStreams
