import FastMcp.EventStoreRuns

/-! # Replaying a stream page by page

A page consists of the events that follow its cursor in the stream, and a
stream holds an end part of everything that was stored to it. A client that
passes back the cursor of each page therefore collects a gap-free part of the
log, whatever is stored, evicted, expired or cleared meanwhile.
-/

namespace FastMcp.ResumableStreams

open MachineWords OrderedMaps MapTotals StreamEvents TransitionRuns

variable {Data : Type}

/-! ## One page -/

variable {events : List (StoredEvent Data)} {cursor afterId first : Option EventId}
  {batch : ReplayBatch Data} {stream : StreamEvents Data} {id : EventId} {encoding : Encoding Data}
  {streamId : StreamId} {readings : Readings}

variable {maxPayloadBytes bytes : Nat} {available remaining rest : List (StoredEvent Data)}
  {config : EventStoreConfig} {more : List (EventEntry Data)} {store : EventStore Data}

/-- A page takes events from the front of what is available. -/
theorem collectPage_eq_ok {maxEvents : Nat} {events : List (EventEntry Data)}
    (collected : collectPage maxEvents maxPayloadBytes available events cursor bytes = .ok batch)
    (countFits : events.length ≤ maxEvents) (bytesFit : bytes ≤ maxPayloadBytes) :
    ∃ page remaining, available = page ++ remaining ∧
      batch.events = events ++ page.map StoredEvent.entry ∧
      batch.payloadBytes = bytes + payload page ∧ batch.events.length ≤ maxEvents ∧
      batch.payloadBytes ≤ maxPayloadBytes ∧
      batch.nextAfterId = (page.getLast?.map (·.entry.id)).or cursor ∧
      (batch.complete = true ↔ remaining = []) ∧
      (batch.complete = false → events = [] → 0 < maxEvents → page ≠ []) := by
  induction available generalizing events cursor bytes with
  | nil =>
    cases Except.ok.inj collected
    exact ⟨[], [], rfl, by simp, by simp [payload], countFits, bytesFit, by simp, by simp, by simp⟩
  | cons event available ih =>
    rw [collectPage] at collected
    split at collected
    · rename_i full
      cases Except.ok.inj collected
      refine ⟨[], event :: available, rfl, by simp, by simp [payload], countFits, bytesFit, by simp,
        by simp, fun _ empty positive => ?_⟩
      simp [empty] at full
      omega
    rename_i room
    split at collected
    · cases collected
    rename_i next added
    obtain ⟨rfl, -⟩ := checkedAdd_eq_some.mp added
    split at collected
    · split at collected
      · cases collected
      · rename_i filled
        cases Except.ok.inj collected
        exact ⟨[], event :: available, rfl, by simp, by simp [payload], countFits, bytesFit,
          by simp, by simp, fun _ empty => by simp [empty] at filled⟩
    · rename_i small
      obtain ⟨page, remaining, parts, taken, sized, countFits, bytesFit, next, complete, -⟩ :=
        ih collected (by simp; omega) (Nat.not_lt.mp small)
      refine ⟨event :: page, remaining, by rw [parts, List.cons_append], ?_, ?_, countFits,
        bytesFit, ?_, complete, by simp⟩
      · rw [taken, List.map_cons, List.append_assoc, List.singleton_append]
      · rw [sized]
        simp [payload, Nat.add_assoc]
      · rw [next]
        cases page with
        | nil => simp
        | cons second page =>
          rw [List.getLast?_cons_cons, List.getLast?_eq_some_getLast (List.cons_ne_nil _ _)]
          rfl

/-- A page is returned when every event fits on a page of its own. -/
theorem collectPage_isOk (maxEvents : Nat) (events : List (EventEntry Data))
    (cursor : Option EventId) (small : ∀ event ∈ available, event.payloadBytes ≤ maxPayloadBytes)
    (fits : bytes + payload available ≤ usizeMax) (fresh : events = [] → bytes = 0) :
    ∃ batch, collectPage maxEvents maxPayloadBytes available events cursor bytes = .ok batch := by
  induction available generalizing events cursor bytes with
  | nil => exact ⟨_, rfl⟩
  | cons event available ih =>
    rw [collectPage]
    split
    · exact ⟨_, rfl⟩
    have sum : payload (event :: available) = event.payloadBytes + payload available := by
      simp [payload]
    rw [sum] at fits
    have added : checkedAdd usizeMax bytes event.payloadBytes =
        some (bytes + event.payloadBytes) := checkedAdd_eq_some.mpr ⟨rfl, by omega⟩
    simp only [added]
    split
    · rename_i large
      split
      · rename_i empty
        have zero := fresh (by simpa using empty)
        have first := small event List.mem_cons_self
        omega
      · exact ⟨_, rfl⟩
    · exact ih _ _ (fun other listed => small other (List.mem_cons_of_mem _ listed)) (by omega)
        (by simp)

/-! ## The place of a cursor -/

theorem machine_limit :
    config.maxEventsPerStream ≤ usizeMax ∧ config.maxTotalEventPayloadBytes ≤ usizeMax :=
  ⟨config.sized _ (by simp), config.sized _ (by simp)⟩

/-- What follows a cursor in a list of events. -/
def Follows (events : List (StoredEvent Data)) :
    Option EventId → List (StoredEvent Data) → Prop
  | none, rest => rest = events
  | some id, rest => ∃ front cursor, events = front ++ cursor :: rest ∧ cursor.entry.id = id

/-- A page starts right after its cursor. -/
theorem startIndex_eq_ok {start : Nat} (indexed : Indexes stream.index stream.events)
    (short : stream.events.length ≤ usizeMax) (found : stream.startIndex afterId = .ok start) :
    Follows stream.events afterId (stream.events.drop start) := by
  cases afterId with
  | none =>
    cases Except.ok.inj found
    rfl
  | some id =>
    rw [startIndex] at found
    split at found
    on_goal 2 => cases found
    rename_i index present
    obtain ⟨cursor, here, named⟩ := Option.map_eq_some_iff.mp ((indexed id index).mp present)
    obtain ⟨inside, rfl⟩ := List.getElem?_eq_some_iff.mp here
    have exactly : saturatingAdd usizeMax index 1 = index + 1 := by
      rw [saturatingAdd, Nat.min_eq_left (by omega)]
    rw [exactly] at found
    cases Except.ok.inj found
    refine ⟨stream.events.take index, _, ?_, named⟩
    rw [← List.drop_eq_getElem_cons inside, List.take_append_drop]

theorem startIndex_of_mem (indexed : Indexes stream.index stream.events) {event : StoredEvent Data}
    (listed : event ∈ stream.events) (named : event.entry.id = id) :
    ∃ start, stream.startIndex (some id) = .ok start := by
  obtain ⟨position, inside, rfl⟩ := List.getElem_of_mem listed
  have found := (indexed id position).mpr (by rw [List.getElem?_eq_getElem inside, ← named]; rfl)
  exact ⟨_, by rw [startIndex, found]⟩

theorem startIndex_of_not_mem (indexed : Indexes stream.index stream.events)
    (absent : ∀ event ∈ stream.events, event.entry.id ≠ id) :
    stream.startIndex (some id) = .error .replayCursorNotRetained := by
  cases found : stream.index[id]? with
  | none => rw [startIndex, found]
  | some index =>
    obtain ⟨cursor, here, named⟩ := Option.map_eq_some_iff.mp ((indexed id index).mp found)
    exact absurd named (absent cursor (List.mem_of_getElem? here))

/-- The retained events of a stream. -/
def retainedEvents (store : EventStore Data) (streamId : StreamId) : List (StoredEvent Data) :=
  match store.streams[streamId]? with
  | some stream => stream.events
  | none => []

variable {world : World Data}

/-- A page of a sound store, read after its expired events are gone. -/
theorem replayPage_eq_ok (sound : Sound encoding world)
    (replayed : world.store.replayPage streamId afterId = .ok batch) :
    ∃ page remaining,
      Follows (retainedEvents world.store streamId) afterId (page ++ remaining) ∧
      batch.events = page.map StoredEvent.entry ∧ batch.payloadBytes = payload page ∧
      batch.events.length ≤ world.store.config.maxReplayEvents ∧
      batch.payloadBytes ≤ world.store.config.maxReplayPayloadBytes ∧
      batch.nextAfterId = (page.getLast?.map (·.entry.id)).or afterId ∧
      (batch.complete = true ↔ remaining = []) ∧
      (batch.complete = false → 0 < world.store.config.maxReplayEvents → page ≠ []) := by
  unfold EventStore.replayPage at replayed
  unfold retainedEvents
  cases found : world.store.streams[streamId]? with
  | none =>
    rw [found] at replayed
    dsimp only at replayed ⊢
    split at replayed
    · cases replayed
    · rename_i fresh
      cases Except.ok.inj replayed
      cases afterId with
      | some id => simp at fresh
      | none => exact ⟨[], [], rfl, rfl, rfl, Nat.zero_le _, Nat.zero_le _, rfl, by simp
          [ReplayBatch.empty], by simp [ReplayBatch.empty]⟩
  | some stream =>
    rw [found] at replayed
    dsimp only at replayed ⊢
    have streamSound := sound.streams streamId stream found
    have short := Nat.le_trans streamSound.short machine_limit.1
    obtain ⟨start, begun, collected⟩ := Outcomes.bind_eq_ok.mp replayed
    have follows := startIndex_eq_ok streamSound.indexed short begun
    obtain ⟨page, remaining, parts, taken, sized, countFits, bytesFit, next, complete, progress⟩ :=
      collectPage_eq_ok collected (Nat.zero_le _) (Nat.zero_le _)
    refine ⟨page, remaining, parts ▸ follows, ?_, ?_, countFits, bytesFit, next, complete,
      fun unfinished => progress unfinished rfl⟩
    · rw [taken, List.nil_append]
    · rw [sized, Nat.zero_add]

/-! ## Pages and the log -/

/-- Everything that was stored to a stream. -/
def World.stored (world : World Data) (streamId : StreamId) : List (EventEntry Data) :=
  world.log.filter fun entry => entry.streamId = streamId

/-- Some events are stored directly after one another, and directly after the cursor event
if there is a cursor. -/
def Continues (stored : List (EventEntry Data)) (cursor : Option EventId)
    (events : List (EventEntry Data)) : Prop :=
  ∃ front back, stored = front ++ events ++ back ∧
    ∀ id, cursor = some id → front.getLast?.map EventEntry.id = some id

theorem Sound.retained_suffix (sound : Sound encoding world) (streamId : StreamId) :
    (retainedEvents world.store streamId).map StoredEvent.entry <:+ world.stored streamId := by
  unfold retainedEvents
  split
  · rename_i stream found
    exact (sound.streams streamId stream found).retained
  · exact List.nil_suffix

theorem Follows.continues {stored : List (EventEntry Data)} {page : List (StoredEvent Data)}
    (follows : Follows events cursor (page ++ remaining))
    (suffix : events.map StoredEvent.entry <:+ stored) :
    Continues stored cursor (page.map StoredEvent.entry) := by
  obtain ⟨older, rfl⟩ := suffix
  cases cursor with
  | none =>
    cases show page ++ remaining = events from follows
    exact ⟨older, remaining.map StoredEvent.entry, by simp, by simp⟩
  | some id =>
    obtain ⟨front, cursor, rfl, named⟩ := follows
    refine ⟨older ++ front.map StoredEvent.entry ++ [cursor.entry],
      remaining.map StoredEvent.entry, by simp, ?_⟩
    rintro other same
    cases Option.some.inj same
    simp [named]

theorem Continues.extend {stored : List (EventEntry Data)} {events : List (EventEntry Data)}
    (continues : Continues stored cursor events) : Continues (stored ++ more) cursor events := by
  obtain ⟨front, back, rfl, named⟩ := continues
  exact ⟨front, back ++ more, by simp, named⟩

/-- In a list without repetitions, an element has one place. -/
theorem split_unique {Element Name : Type} {name : Element → Name}
    {front back otherFront otherBack : List Element} {element twin : Element}
    (nodup : ((front ++ element :: back).map name).Nodup)
    (same : front ++ element :: back = otherFront ++ twin :: otherBack)
    (named : name element = name twin) : front = otherFront ∧ back = otherBack := by
  have names := congrArg (List.map name) same
  simp only [List.map_append, List.map_cons] at names nodup
  obtain ⟨-, tail, apart⟩ := List.nodup_append.mp nodup
  have notBefore : name twin ∉ front.map name := fun listed =>
    apart _ listed _ List.mem_cons_self named.symm
  have notAfter : name twin ∉ back.map name := named ▸ (List.nodup_cons.mp tail).1
  have fronts := ((List.append_cons_inj_of_notMem notBefore notAfter).mp names).1
  have lengths : front.length = otherFront.length := by
    simpa using congrArg List.length fronts
  obtain ⟨frontsEqual, rest⟩ := List.append_inj same lengths
  exact ⟨frontsEqual, (List.cons.inj rest).2⟩

/-- What continues the last event of a part continues the part. -/
theorem Continues.append {stored events : List (EventEntry Data)} {last : EventEntry Data}
    (nodup : (stored.map EventEntry.id).Nodup) (continues : Continues stored cursor events)
    (ends : events.getLast? = some last) (continuesMore : Continues stored (some last.id) more) :
    Continues stored cursor (events ++ more) := by
  obtain ⟨front, back, whole, named⟩ := continues
  obtain ⟨otherFront, otherBack, otherWhole, otherNamed⟩ := continuesMore
  obtain ⟨twin, otherEnds, sameName⟩ := Option.map_eq_some_iff.mp (otherNamed last.id rfl)
  obtain ⟨initial, rfl⟩ := List.getLast?_eq_some_iff.mp ends
  obtain ⟨older, rfl⟩ := List.getLast?_eq_some_iff.mp otherEnds
  have here : stored = (front ++ initial) ++ last :: back := by simp [whole]
  have there : stored = older ++ twin :: (more ++ otherBack) := by simp [otherWhole]
  rw [here] at nodup there
  obtain ⟨-, rfl⟩ := split_unique nodup there sameName.symm
  exact ⟨front, otherBack, by simp [whole], named⟩

/-! ## A client that pages through a stream -/

/-- What a paging client keeps: the cursor for its next call, and its pages so far. -/
structure Client (Data : Type) where
  cursor : Option EventId
  pages : List (List (EventEntry Data))

/-- Any call happens, or the client gets its next page. -/
inductive Paging (encoding : Encoding Data) (streamId : StreamId) :
    World Data × Client Data → World Data × Client Data → Prop
  | call {world next client} (step : Step encoding world next) :
      Paging encoding streamId (world, client) (next, client)
  | page {world : World Data} {client : Client Data} (readings : Readings) (batch : ReplayBatch Data)
      (replayed : (world.store.replayBounded streamId client.cursor readings).1 = .ok batch) :
      Paging encoding streamId (world, client)
        ({ world with
            store := (world.store.replayBounded streamId client.cursor readings).2 },
          ⟨batch.nextAfterId, client.pages ++ [batch.events]⟩)

theorem replayBounded_eq_ok
    (replayed : (store.replayBounded streamId afterId readings).1 = .ok batch) :
    (store.cleanup readings).replayPage streamId afterId = .ok batch := by
  unfold EventStore.replayBounded at replayed
  split at replayed
  · cases replayed
  split at replayed
  · cases replayed
  · exact replayed

/-- What a client has collected is a gap-free part of the log, and its cursor is at the end
of that part. -/
structure Collected (streamId : StreamId) (first : Option EventId) (world : World Data)
    (client : Client Data) : Prop where
  untouched : client.pages = [] → client.cursor = first
  continues : client.pages ≠ [] → Continues (world.stored streamId) first client.pages.flatten
  cursor : client.cursor = (client.pages.flatten.getLast?.map EventEntry.id).or first

variable {client : Client Data}

theorem Collected.call {next : World Data} (collected : Collected streamId first world client)
    (step : Step encoding world next) : Collected streamId first next client := by
  refine { collected with continues := fun begun => ?_ }
  obtain ⟨more, grown⟩ := step.config.2
  rw [World.stored, ← grown, List.filter_append]
  exact (collected.continues begun).extend

theorem nodup_stored (sound : Sound encoding world) (short : world.log.length ≤ 2 ^ 64)
    (streamId : StreamId) : ((world.stored streamId).map EventEntry.id).Nodup :=
  (sound.numbered.nodup short).sublist (List.filter_sublist.map _)

/-- A page that a client gets continues its cursor. -/
theorem page_continues (sound : Sound encoding world) (short : world.log.length ≤ 2 ^ 64)
    (replayed : (world.store.replayBounded streamId cursor readings).1 = .ok batch) :
    Continues (world.stored streamId) cursor batch.events ∧
      batch.nextAfterId = (batch.events.getLast?.map EventEntry.id).or cursor := by
  have cleaned := sound.cleanup short readings
  obtain ⟨page, remaining, follows, taken, -, -, -, next, -, -⟩ :=
    replayPage_eq_ok cleaned (replayBounded_eq_ok replayed)
  rw [taken, next]
  refine ⟨follows.continues (cleaned.retained_suffix streamId), ?_⟩
  rw [List.getLast?_map, Option.map_map]
  rfl

theorem Collected.page (collected : Collected streamId first world client)
    (sound : Sound encoding world) (short : world.log.length ≤ 2 ^ 64)
    (replayed : (world.store.replayBounded streamId client.cursor readings).1 = .ok batch) :
    Collected streamId first { world with
      store := (world.store.replayBounded streamId client.cursor readings).2 }
      ⟨batch.nextAfterId, client.pages ++ [batch.events]⟩ := by
  obtain ⟨continues, next⟩ := page_continues sound short replayed
  have flat : (client.pages ++ [batch.events]).flatten = client.pages.flatten ++ batch.events := by
    simp
  refine ⟨by simp, fun _ => ?_, ?_⟩
  · rw [flat]
    show Continues (world.stored streamId) first _
    cases ends : client.pages.flatten.getLast? with
    | none =>
      have empty : client.pages.flatten = [] := by simpa using ends
      have same : client.cursor = first := by rw [collected.cursor, ends]; rfl
      rw [empty, List.nil_append, ← same]
      exact continues
    | some last =>
      have filled : client.pages ≠ [] := by
        rintro empty
        simp [empty] at ends
      have here : client.cursor = some last.id := by rw [collected.cursor, ends]; rfl
      rw [here] at continues
      exact (collected.continues filled).append (nodup_stored sound short streamId) ends continues
  · rw [flat, next, collected.cursor, List.getLast?_append]
    cases batch.events.getLast? <;> rfl

theorem Paging.collected {later : World Data × Client Data}
    (built : withConfig Data config = .ok store) (reached : Reaches encoding store world)
    (paging : Reachable (Paging encoding streamId) (world, ⟨first, []⟩) later) :
    Reaches encoding store later.1 ∧
      (later.1.log.length ≤ 2 ^ 64 → Collected streamId first later.1 later.2) := by
  induction paging with
  | refl => exact ⟨reached, fun _ => ⟨fun _ => rfl, by simp, by simp⟩⟩
  | tail _ step ih =>
    obtain ⟨reached, collected⟩ := ih
    cases step with
    | call step =>
      refine ⟨reached.extend step, fun short => ?_⟩
      exact (collected (Nat.le_trans step.config.2.length_le short)).call step
    | page readings batch replayed =>
      refine ⟨reached.extend (.replayed streamId _ readings), fun short => ?_⟩
      exact (collected short).page ((reached.sound built).2 short) short replayed

/-! ## Reaching the end of a stream -/

/-- The events that a client collects with at most a number of calls, if the last of them
completes the stream. The store does not change meanwhile. -/
def drain (store : EventStore Data) (streamId : StreamId) (readings : Nat → Readings) :
    Nat → Option EventId → Option (List (EventEntry Data))
  | 0, _ => none
  | calls + 1, cursor =>
    match (store.replayBounded streamId cursor (readings calls)).1 with
    | .error _ => none
    | .ok batch =>
      if batch.complete then some batch.events
      else (drain store streamId readings calls batch.nextAfterId).map (batch.events ++ ·)

theorem Follows.unique {first second : List (StoredEvent Data)} (distinct : Distinct events)
    (follows : Follows events cursor first) (followsToo : Follows events cursor second) :
    first = second := by
  cases cursor with
  | none => exact Eq.trans follows (Eq.symm followsToo)
  | some id =>
    obtain ⟨front, cursor, rfl, named⟩ := follows
    obtain ⟨otherFront, twin, same, namedToo⟩ := followsToo
    exact (split_unique distinct same (named.trans namedToo.symm)).2

theorem Follows.next {page : List (StoredEvent Data)} {last : StoredEvent Data}
    (follows : Follows events cursor (page ++ remaining)) (ends : page.getLast? = some last) :
    Follows events (some last.entry.id) remaining := by
  obtain ⟨initial, rfl⟩ := List.getLast?_eq_some_iff.mp ends
  cases cursor with
  | none =>
    cases show initial ++ [last] ++ remaining = events from follows
    exact ⟨initial, last, by simp, rfl⟩
  | some id =>
    obtain ⟨front, cursor, rfl, -⟩ := follows
    exact ⟨front ++ cursor :: initial, last, by simp, rfl⟩

theorem Follows.suffix (follows : Follows events cursor rest) : rest <:+ events := by
  cases cursor with
  | none =>
    cases show rest = events from follows
    exact List.suffix_rfl
  | some id =>
    obtain ⟨front, cursor, rfl, -⟩ := follows
    exact (List.suffix_cons cursor rest).trans (List.suffix_append front _)

theorem Sound.payload_retained_le (sound : Sound encoding world) (streamId : StreamId) :
    payload (retainedEvents world.store streamId) ≤ usizeMax := by
  have here := weightAt_le_total (fun stream => payload stream.events) world.store.streams streamId
  have bounded := Nat.le_trans sound.bounded machine_limit.2
  unfold weightAt at here
  unfold retainedEvents
  split
  · rename_i stream found
    rw [found] at here
    exact Nat.le_trans here bounded
  · exact Nat.zero_le _

/-- A cursor of a retained event gets a page if no event is too large for a page. -/
theorem replayPage_isOk (sound : Sound encoding world)
    (follows : Follows (retainedEvents world.store streamId) cursor rest)
    (small : ∀ event ∈ retainedEvents world.store streamId,
      event.payloadBytes ≤ world.store.config.maxReplayPayloadBytes) :
    ∃ batch, world.store.replayPage streamId cursor = .ok batch := by
  have fits := sound.payload_retained_le streamId
  unfold retainedEvents at follows small fits
  unfold EventStore.replayPage
  cases found : world.store.streams[streamId]? with
  | none =>
    rw [found] at follows
    cases cursor with
    | none => exact ⟨_, rfl⟩
    | some id =>
      obtain ⟨front, cursor, impossible, -⟩ := follows
      simp at impossible
  | some stream =>
    rw [found] at follows small fits
    dsimp only at follows small fits ⊢
    have indexed := (sound.streams streamId stream found).indexed
    obtain ⟨start, begun⟩ : ∃ start, stream.startIndex cursor = .ok start := by
      cases cursor with
      | none => exact ⟨0, rfl⟩
      | some id =>
        obtain ⟨front, cursor, parts, named⟩ := follows
        exact startIndex_of_mem indexed (by rw [parts]; simp) named
    have part := List.drop_suffix start stream.events
    obtain ⟨batch, collected⟩ := collectPage_isOk world.store.config.maxReplayEvents [] cursor
      (fun event listed => small event (part.subset listed))
      (by rw [Nat.zero_add]; exact Nat.le_trans (payload_le_of_suffix part) fits) (fun _ => rfl)
    refine ⟨batch, ?_⟩
    rw [StreamEvents.replayBounded, begun]
    exact collected

/-- A client that keeps calling gets everything that follows its cursor. -/
theorem drain_eq_some (sound : Sound encoding world) {readings : Nat → Readings}
    (distinct : Distinct (retainedEvents world.store streamId))
    (steady : ∀ call, world.store.cleanup (readings call) = world.store)
    (positive : 0 < world.store.config.maxReplayEvents)
    (named : streamId.utf8ByteSize ≤ world.store.config.maxStreamIdBytes)
    (fit : ∀ event ∈ retainedEvents world.store streamId,
      event.payloadBytes ≤ world.store.config.maxReplayPayloadBytes ∧
        event.entry.id.utf8ByteSize ≤ world.store.config.maxReplayCursorBytes) (calls : Nat)
    (cursor : Option EventId) (rest : List (StoredEvent Data))
    (follows : Follows (retainedEvents world.store streamId) cursor rest)
    (enough : rest.length < calls) :
    drain world.store streamId readings calls cursor = some (rest.map StoredEvent.entry) := by
  induction calls generalizing cursor rest with
  | zero => omega
  | succ calls ih =>
    have accepted : world.store.cursorTooLong cursor = false := by
      cases cursor with
      | none => rfl
      | some id =>
        obtain ⟨front, event, parts, rfl⟩ := follows
        have short := (fit event (by rw [parts]; simp)).2
        simp [EventStore.cursorTooLong]
        exact short
    obtain ⟨batch, replayed⟩ := replayPage_isOk sound follows fun event listed => (fit event listed).1
    have answered : (world.store.replayBounded streamId cursor (readings calls)).1 = .ok batch := by
      rw [EventStore.replayBounded, if_neg (Nat.not_lt.mpr named), accepted, steady]
      exact replayed
    obtain ⟨page, remaining, followsPage, taken, -, -, -, next, complete, progress⟩ :=
      replayPage_eq_ok sound replayed
    cases follows.unique distinct followsPage
    simp only [drain, answered]
    cases finished : batch.complete with
    | true =>
      cases complete.mp finished
      simp [taken]
    | false =>
      have filled := progress finished positive
      have ends := List.getLast?_eq_some_getLast filled
      have later : Follows (retainedEvents world.store streamId) batch.nextAfterId remaining := by
        rw [next, ends]
        exact followsPage.next ends
      have shorter : remaining.length < calls := by
        have positive := List.length_pos_iff.mpr filled
        rw [List.length_append] at enough
        omega
      rw [ih _ _ later shorter]
      simp [taken]

/-- A page is within its limits, as the payloads were measured. -/
theorem page_limits (sound : Sound encoding world) (short : world.log.length ≤ 2 ^ 64)
    (replayed : (world.store.replayBounded streamId cursor readings).1 = .ok batch) :
    batch.events.length ≤ world.store.config.maxReplayEvents ∧
      ∃ sizes : List Nat, batch.events.map (fun entry => measureEventPayload encoding entry.data
          world.store.config.maxEventPayloadBytes) = sizes.map .ok ∧
        sizes.sum ≤ world.store.config.maxReplayPayloadBytes := by
  have cleaned := sound.cleanup short readings
  obtain ⟨page, remaining, follows, taken, sized, countFits, bytesFit, -, -, -⟩ :=
    replayPage_eq_ok cleaned (replayBounded_eq_ok replayed)
  refine ⟨countFits, page.map StoredEvent.payloadBytes, ?_, ?_⟩
  · rw [taken, List.map_map, List.map_map]
    refine List.map_congr_left fun event listed => ?_
    have retained := follows.suffix.subset (List.mem_append_left remaining listed)
    unfold retainedEvents at retained
    split at retained
    · rename_i stream found
      exact (cleaned.streams streamId stream found).measured event retained
    · simp at retained
  · rw [sized] at bytesFit
    exact bytesFit

/-- A cursor whose event is gone is refused. -/
theorem replayBounded_of_not_mem (sound : Sound encoding world) (short : world.log.length ≤ 2 ^ 64)
    (named : streamId.utf8ByteSize ≤ world.store.config.maxStreamIdBytes)
    (accepted : id.utf8ByteSize ≤ world.store.config.maxReplayCursorBytes)
    (absent : ∀ event ∈ retainedEvents (world.store.cleanup readings) streamId,
      event.entry.id ≠ id) :
    (world.store.replayBounded streamId (some id) readings).1 =
      .error .replayCursorNotRetained := by
  have cleaned := sound.cleanup short readings
  have fits : world.store.cursorTooLong (some id) = false := by
    simpa [EventStore.cursorTooLong] using accepted
  rw [EventStore.replayBounded, if_neg (Nat.not_lt.mpr named), fits]
  simp only [Bool.false_eq_true, if_false, EventStore.replayPage]
  unfold retainedEvents at absent
  cases found : (world.store.cleanup readings).streams[streamId]? with
  | none => rfl
  | some stream =>
    rw [found] at absent
    dsimp only at absent ⊢
    rw [StreamEvents.replayBounded,
      startIndex_of_not_mem (cleaned.streams streamId stream found).indexed absent]
    rfl

/-- A store without a time to live keeps its events. -/
theorem Sound.cleanup_eq (sound : Sound encoding world) (lasting : world.store.config.ttl = none)
    (readings : Readings) : world.store.cleanup readings = world.store := by
  have kept : cleanupStreams world.store.config.ttl readings.check world.store.streams =
      world.store.streams := by
    refine Std.ExtTreeMap.ext_getElem? fun streamId => Option.ext fun stream => ?_
    rw [getElem?_cleanupStreams, lasting]
    constructor
    · rintro ⟨before, present, rfl, -⟩
      exact present
    · intro present
      exact ⟨stream, present, rfl, (sound.streams streamId stream present).nonempty⟩
  rw [EventStore.cleanup, kept]

/-- What a client collects by passing back its cursors is a gap-free part of what was stored
to the stream after its first cursor. Every page directly follows its cursor and is within
its limits, a cursor whose event is gone is refused, and while the store does not change the
client reaches the end of the stream. Stream identifiers and cursors above their configured
length are refused first. -/
theorem replay_pages_gap_free {encoding : Encoding Data} {config : EventStoreConfig}
    {store : EventStore Data} {world later : World Data} {client : Client Data}
    {streamId : StreamId} {first : Option EventId}
    (built : withConfig Data config = .ok store) (reached : Reaches encoding store world)
    (paging : Reachable (Paging encoding streamId) (world, ⟨first, []⟩) (later, client))
    (few : later.log.length < 2 ^ 64) :
    (client.pages ≠ [] → Continues (later.stored streamId) first client.pages.flatten) ∧
    (client.pages.flatten.map EventEntry.id).Nodup ∧
    (∀ cursor readings batch,
      (later.store.replayBounded streamId cursor readings).1 = .ok batch →
        Continues (later.stored streamId) cursor batch.events ∧
        batch.events.length ≤ config.maxReplayEvents ∧
        ∃ sizes : List Nat, batch.events.map (fun entry => measureEventPayload encoding entry.data
            config.maxEventPayloadBytes) = sizes.map .ok ∧
          sizes.sum ≤ config.maxReplayPayloadBytes) ∧
    (∀ readings id, streamId.utf8ByteSize ≤ config.maxStreamIdBytes →
      id.utf8ByteSize ≤ config.maxReplayCursorBytes →
      (∀ event ∈ retainedEvents (later.store.cleanup readings) streamId, event.entry.id ≠ id) →
        (later.store.replayBounded streamId (some id) readings).1 =
          .error .replayCursorNotRetained) ∧
    (∀ (readings : Nat → Readings) (rest : List (StoredEvent Data)),
      (∀ call, later.store.cleanup (readings call) = later.store) →
      streamId.utf8ByteSize ≤ config.maxStreamIdBytes →
      (∀ event ∈ retainedEvents later.store streamId,
        event.payloadBytes ≤ config.maxReplayPayloadBytes ∧
          event.entry.id.utf8ByteSize ≤ config.maxReplayCursorBytes) →
      Follows (retainedEvents later.store streamId) client.cursor rest →
        ∃ calls, drain later.store streamId readings calls client.cursor =
          some (rest.map StoredEvent.entry)) := by
  obtain ⟨reachedLater, collected⟩ := Paging.collected built reached paging
  obtain ⟨same, sound⟩ := reachedLater.sound built
  have sound := sound few.le
  have collected := collected few.le
  have nodup := nodup_stored sound few.le streamId
  subst same
  refine ⟨collected.continues, ?_, ?_, ?_, ?_⟩
  · by_cases empty : client.pages = []
    · simp [empty]
    · obtain ⟨front, back, whole, -⟩ := collected.continues empty
      rw [whole, List.append_assoc, List.map_append, List.map_append] at nodup
      exact nodup.of_append_right.of_append_left
  · intro cursor readings batch replayed
    exact ⟨(page_continues sound few.le replayed).1, page_limits sound few.le replayed⟩
  · intro readings id named accepted absent
    exact replayBounded_of_not_mem sound few.le named accepted absent
  · intro readings rest steady named fit follows
    have distinct : Distinct (retainedEvents later.store streamId) :=
      distinct_of_retained (sound.retained_suffix streamId) (sound.numbered.nodup few.le)
    have positive : 0 < later.store.config.maxReplayEvents :=
      (withConfig_eq_ok built).2 ("max_replay_events", _) (by simp [EventStoreConfig.limits])
    exact ⟨rest.length + 1, drain_eq_some sound distinct steady positive named fit _ _ rest follows
      (Nat.lt_succ_self _)⟩

/-- A client gets two events in two pages, and calls that are repeated get them as well. -/
theorem replay_pages_gap_free_stored :
    let world := accept (plainStored plainConfig) "0-1"
    let entry (id : EventId) : EventEntry Unit := ⟨id, "s", some (), 0⟩
    Continues (world.stored "s") none [entry "0-0", entry "0-1"] ∧
      ∃ calls, drain world.store "s" (fun _ => plainReadings) calls none =
        some [entry "0-0", entry "0-1"] := by
  intro world entry
  have built : withConfig Unit plainConfig = .ok (fromValidatedConfig Unit plainConfig) := rfl
  obtain ⟨same, sound⟩ := twoStored_reached.sound built
  have steady : world.store.cleanup plainReadings = world.store :=
    (sound (by decide)).cleanup_eq (by rw [same]; rfl) plainReadings
  have first : Paging plainEncoding "s" (world, ⟨none, []⟩) _ :=
    .page plainReadings ⟨[entry "0-0"], some "0-0", 1, false⟩ (by decide +kernel)
  have second := Reachable.start.extend first |>.extend
    (.page plainReadings ⟨[entry "0-1"], some "0-1", 1, true⟩ (by decide +kernel))
  obtain ⟨continues, -⟩ := replay_pages_gap_free built twoStored_reached second (by decide)
  obtain ⟨-, -, -, -, drained⟩ :=
    replay_pages_gap_free built twoStored_reached Reachable.start (by decide)
  have retained : (retainedEvents world.store "s").map StoredEvent.entry =
      [entry "0-0", entry "0-1"] := by decide +kernel
  rw [← retained]
  refine ⟨?_, drained (fun _ => plainReadings) _ (fun _ => steady) (by decide) (by decide +kernel)
    rfl⟩
  rw [retained]
  exact continues (by simp)

/-- A store whose cursors may only have one byte. -/
def narrowConfig : EventStoreConfig where
  maxEventsPerStream := 4
  maxStreams := 2
  maxStreamIdBytes := 8
  maxEventPayloadBytes := 8
  maxTotalEventPayloadBytes := 64
  maxReplayEvents := 1
  maxReplayPayloadBytes := 8
  maxReplayCursorBytes := 1
  ttl := none
  sized := by decide

/-- A store that accepts only short cursors refuses the cursor of its own first page. -/
theorem own_cursor_refused :
    withConfig Unit narrowConfig = .ok (fromValidatedConfig Unit narrowConfig) ∧
      ((((plainStored narrowConfig).store.storeEvent plainEncoding "s" (some ())
          plainReadings).2).replayBounded "s" none plainReadings).1 =
        .ok ⟨[⟨"0-0", "s", some (), 0⟩], some "0-0", 1, false⟩ ∧
      ((((plainStored narrowConfig).store.storeEvent plainEncoding "s" (some ())
          plainReadings).2).replayBounded "s" (some "0-0") plainReadings).1 =
        .error (.replayCursorTooLong 1) := by
  refine ⟨rfl, by decide +kernel, by decide +kernel⟩

end FastMcp.ResumableStreams
