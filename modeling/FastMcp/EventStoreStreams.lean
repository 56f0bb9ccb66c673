import FastMcp.EventStore
import FastMcp.MapTotals
import Mathlib.Data.List.Infix
import Mathlib.Data.Nat.Digits.Defs

/-! # What happens inside one stream

Eviction and expiry both take events from the front of a stream, so what is
left is an end part of it. The index of positions is rebuilt after every such
removal and extended by every new event, and it is exact as long as the
identifiers in the stream are distinct.
-/

namespace FastMcp.ResumableStreams

open MachineWords OrderedMaps MapTotals

variable {Data : Type}

/-! ## Identifiers -/

/-- The number of an event can be read off its identifier. -/
theorem eventIdOf_counter {timestamp other counter number : Nat}
    (same : eventIdOf timestamp counter = eventIdOf other number) : counter = number := by
  have noDash : ∀ count, '-' ∉ Nat.toDigits 10 count := fun count listed => by
    have digit := Nat.isDigit_of_mem_toDigits (by decide) (by decide) listed
    revert digit
    decide
  have chars := congrArg String.toList same
  simp only [eventIdOf, String.toList_append, Nat.toString_eq_ofList_toDigits,
    String.toList_ofList] at chars
  have dash : "-".toList = ['-'] := by decide
  rw [dash, List.append_assoc, List.append_assoc, List.singleton_append,
    List.singleton_append] at chars
  have digits := ((List.append_cons_inj_of_notMem (noDash timestamp) (noDash counter)).mp chars).2.2
  have values := congrArg (fun chars => Nat.ofDigitChars 10 chars 0) digits
  simpa [Nat.ofDigitChars_ten_toDigits] using values

/-! ## The index of positions -/

/-- The index knows exactly the positions of the events. -/
def Indexes (index : EventIndex) (events : List (StoredEvent Data)) : Prop :=
  ∀ (id : EventId) (position : Nat),
    index[id]? = some position ↔ (events[position]?).map (·.entry.id) = some id

/-- The identifiers in a stream are distinct. -/
def Distinct (events : List (StoredEvent Data)) : Prop :=
  (events.map (·.entry.id)).Nodup

theorem Indexes.nil : Indexes ∅ ([] : List (StoredEvent Data)) := by
  intro id position
  simp

/-- An index is extended by the position of a new event. -/
theorem Indexes.concat {index : EventIndex} {events : List (StoredEvent Data)}
    {event : StoredEvent Data} (indexes : Indexes index events)
    (distinct : Distinct (events ++ [event])) :
    Indexes (index.insert event.entry.id events.length) (events ++ [event]) := by
  intro id position
  have fresh : ∀ other ∈ events, other.entry.id ≠ event.entry.id := by
    simp only [Distinct, List.map_append, List.nodup_append, List.map_cons, List.map_nil] at distinct
    intro other listed same
    exact distinct.2.2 _ (List.mem_map_of_mem listed) _ List.mem_cons_self same
  by_cases same : id = event.entry.id
  · subst same
    rw [Std.ExtTreeMap.getElem?_insert_self, Option.some.injEq]
    constructor
    · rintro rfl
      simp
    · intro found
      rcases Nat.lt_trichotomy position events.length with inside | last | outside
      · rw [List.getElem?_append_left inside, List.getElem?_eq_getElem inside, Option.map_some,
          Option.some.injEq] at found
        exact absurd found (fresh _ (List.getElem_mem inside))
      · exact last.symm
      · rw [List.getElem?_eq_none (by simp; omega)] at found
        cases found
  · rw [getElem?_insert_ne _ _ same, indexes id position]
    rcases Nat.lt_or_ge position events.length with inside | outside
    · rw [List.getElem?_append_left inside]
    · rw [List.getElem?_append_right outside, List.getElem?_eq_none outside]
      cases position - events.length with
      | zero => simp [Ne.symm same]
      | succ rest => simp

theorem indexOf_concat (events : List (StoredEvent Data)) (event : StoredEvent Data) :
    indexOf (events ++ [event]) = (indexOf events).insert event.entry.id events.length := by
  simp [indexOf, List.zipIdx_append]

variable {first second : List (StoredEvent Data)}

theorem Distinct.of_append_left (distinct : Distinct (first ++ second)) : Distinct first := by
  unfold Distinct at distinct ⊢
  rw [List.map_append] at distinct
  exact distinct.of_append_left

theorem Distinct.of_suffix (suffix : first <:+ second) (distinct : Distinct second) :
    Distinct first :=
  List.Nodup.sublist (suffix.sublist.map _) distinct

/-- A rebuilt index is exact. -/
theorem indexes_indexOf (events : List (StoredEvent Data)) (distinct : Distinct events) :
    Indexes (indexOf events) events := by
  induction events using List.reverseRecOn with
  | nil => exact .nil
  | append_singleton events event ih =>
    rw [indexOf_concat]
    exact (ih distinct.of_append_left).concat distinct

/-! ## Eviction -/

namespace StreamEvents

theorem evictOldest_events (maxEvents : Nat)
    (events : List (StoredEvent Data)) (index : EventIndex) :
    (evictOldest maxEvents events index).events = events.drop (events.length + 1 - maxEvents) := by
  induction events generalizing index with
  | nil => simp [evictOldest]
  | cons oldest events ih =>
    rw [evictOldest]
    split
    · rename_i full
      rw [ih]
      rw [List.length_cons] at full ⊢
      have more : events.length + 1 + 1 - maxEvents = (events.length + 1 - maxEvents) + 1 := by
        omega
      rw [more, List.drop_succ_cons]
    · rename_i room
      have noExcess : (oldest :: events).length + 1 - maxEvents = 0 := by omega
      rw [noExcess, List.drop_zero]

variable {maxEvents : Nat} {stream : StreamEvents Data}

variable {events : List (StoredEvent Data)} {next : StreamEvents Data} {entry : EventEntry Data}
  {payloadBytes : Nat}

theorem evictOldest_indexes {index : EventIndex} (indexes : Indexes index events)
    (distinct : Distinct events) :
    Indexes (evictOldest maxEvents events index).index
      (evictOldest maxEvents events index).events := by
  induction events generalizing index with
  | nil => exact indexes
  | cons oldest events ih =>
    rw [evictOldest]
    split
    · have rest : Distinct events := distinct.of_suffix (List.suffix_cons oldest events)
      exact ih (indexes_indexOf events rest) rest
    · exact indexes

/-- A new event comes after what is left of the stream. -/
theorem push_eq_ok (pushed : stream.push entry payloadBytes maxEvents = .ok next) :
    0 < maxEvents ∧ next.events = stream.events.drop (stream.events.length + 1 - maxEvents) ++
      [⟨entry, payloadBytes⟩] := by
  unfold push at pushed
  split at pushed
  · cases pushed
  · rename_i positive
    cases Except.ok.inj pushed
    exact ⟨Nat.pos_of_ne_zero positive, by rw [evictOldest_events]⟩

theorem push_indexes (pushed : stream.push entry payloadBytes maxEvents = .ok next)
    (indexes : Indexes stream.index stream.events) (distinct : Distinct stream.events)
    (distinctNext : Distinct next.events) : Indexes next.index next.events := by
  unfold push at pushed
  split at pushed
  · cases pushed
  · cases Except.ok.inj pushed
    exact (evictOldest_indexes indexes distinct).concat distinctNext

/-! ## Expiry -/

theorem dropExpired_spec (ttl : Option Nat) (reading : EventId → Instant)
    (events : List (StoredEvent Data)) (index : EventIndex) :
    ∃ removed, events = removed ++ (dropExpired ttl reading events index).1.events ∧
      (∀ event ∈ removed, event.entry.isExpired ttl (reading event.entry.id) = true) ∧
      ((dropExpired ttl reading events index).2 = false →
        removed = [] ∧ (dropExpired ttl reading events index).1.index = index) := by
  induction events generalizing index with
  | nil => exact ⟨[], rfl, by simp, fun _ => ⟨rfl, rfl⟩⟩
  | cons front events ih =>
    rw [dropExpired]
    split
    · rename_i expired
      obtain ⟨removed, parts, allExpired, -⟩ := ih (index.erase front.entry.id)
      refine ⟨front :: removed, by rw [List.cons_append, ← parts], ?_, by simp⟩
      intro event listed
      rcases List.mem_cons.mp listed with rfl | listed
      · exact expired
      · exact allExpired event listed
    · exact ⟨[], rfl, by simp, fun _ => ⟨rfl, rfl⟩⟩

/-- Removing expired events takes events from the front that are expired. -/
theorem removeExpired_events (stream : StreamEvents Data) (ttl : Option Nat)
    (reading : EventId → Instant) :
    ∃ removed, stream.events = removed ++ (stream.removeExpired ttl reading).events ∧
      ∀ event ∈ removed, event.entry.isExpired ttl (reading event.entry.id) = true := by
  unfold removeExpired
  split
  · exact ⟨[], rfl, by simp⟩
  obtain ⟨removed, parts, expired, -⟩ := dropExpired_spec ttl reading stream.events stream.index
  refine ⟨removed, ?_, expired⟩
  dsimp only
  split
  · exact parts
  · exact parts

theorem removeExpired_suffix (stream : StreamEvents Data) (ttl : Option Nat)
    (reading : EventId → Instant) :
    (stream.removeExpired ttl reading).events <:+ stream.events := by
  obtain ⟨removed, parts, -⟩ := stream.removeExpired_events ttl reading
  exact ⟨removed, parts.symm⟩

theorem removeExpired_indexes {ttl : Option Nat} {reading : EventId → Instant}
    (indexes : Indexes stream.index stream.events) (distinct : Distinct stream.events) :
    Indexes (stream.removeExpired ttl reading).index
      (stream.removeExpired ttl reading).events := by
  have suffix := stream.removeExpired_suffix ttl reading
  unfold removeExpired at suffix ⊢
  split at suffix
  · rename_i endless
    rw [if_pos endless]
    exact indexes
  rename_i limited
  rw [if_neg limited]
  dsimp only at suffix ⊢
  cases removedAny : (dropExpired ttl reading stream.events stream.index).2 with
  | true =>
    simp only [removedAny, if_true] at suffix ⊢
    exact indexes_indexOf _ (distinct.of_suffix suffix)
  | false =>
    obtain ⟨removed, parts, -, unchanged⟩ :=
      dropExpired_spec ttl reading stream.events stream.index
    obtain ⟨rfl, sameIndex⟩ := unchanged removedAny
    simp only [Bool.false_eq_true, if_false]
    rw [sameIndex]
    rw [List.nil_append] at parts
    rw [← parts]
    exact indexes

/-! ## Sizes -/

/-- The payload bytes of some events. -/
def payload (events : List (StoredEvent Data)) : Nat :=
  (events.map StoredEvent.payloadBytes).sum

@[simp]
theorem payload_append (first second : List (StoredEvent Data)) :
    payload (first ++ second) = payload first + payload second := by
  simp [payload]

theorem payload_le_of_suffix {first second : List (StoredEvent Data)} (suffix : first <:+ second) :
    payload first ≤ payload second := by
  obtain ⟨front, rfl⟩ := suffix
  rw [payload_append]
  exact Nat.le_add_left _ _

theorem payload_take_add_drop (events : List (StoredEvent Data)) (count : Nat) :
    payload (events.take count) + payload (events.drop count) = payload events := by
  rw [← payload_append, List.take_append_drop]

/-- A checked sum is the sum, unless it does not fit. -/
theorem foldlM_checkedAdd {Element : Type} (weight : Element → Nat) (elements : List Element)
    (start sum : Nat) :
    elements.foldlM (fun total element => checkedAdd usizeMax total (weight element)) start =
        some sum ↔
      sum = start + (elements.map weight).sum ∧ (elements = [] ∨ sum ≤ usizeMax) := by
  induction elements generalizing start with
  | nil => simp [eq_comm]
  | cons element elements ih =>
    rw [List.foldlM_cons, Option.bind_eq_bind, Option.bind_eq_some_iff]
    constructor
    · rintro ⟨next, added, folded⟩
      obtain ⟨rfl, fits⟩ := checkedAdd_eq_some.mp added
      obtain ⟨rfl, bounded⟩ := (ih _).mp folded
      refine ⟨by simp [Nat.add_assoc], .inr ?_⟩
      rcases bounded with rfl | bounded
      · simpa using fits
      · exact bounded
    · rintro ⟨rfl, bounded⟩
      have bounded := bounded.resolve_left (by simp)
      rw [List.map_cons, List.sum_cons] at bounded
      refine ⟨start + weight element, checkedAdd_eq_some.mpr ⟨rfl, by omega⟩, ?_⟩
      refine (ih _).mpr ⟨by simp [Nat.add_assoc], .inr ?_⟩
      rw [List.map_cons, List.sum_cons]
      exact bounded

theorem sumPayloadBytes_eq_some {sum : Nat} (summed : sumPayloadBytes events = some sum) :
    sum = payload events := by
  have parts := ((foldlM_checkedAdd StoredEvent.payloadBytes events 0 sum).mp summed).1
  rwa [Nat.zero_add] at parts

theorem prospectiveEvictedPayloadBytes_eq_some {evicted : Nat}
    (predicted : stream.prospectiveEvictedPayloadBytes maxEvents = some evicted) :
    evicted = payload (stream.events.take (stream.events.length + 1 - maxEvents)) := by
  obtain ⟨length, counted, summed⟩ := Option.bind_eq_some_iff.mp predicted
  obtain ⟨rfl, -⟩ := checkedAdd_eq_some.mp counted
  exact sumPayloadBytes_eq_some summed

end StreamEvents

/-! ## Measured payloads -/

theorem measureEventPayload_le {encoding : Encoding Data} {data : Option Data}
    {maxBytes bytes : Nat} (measured : measureEventPayload encoding data maxBytes = .ok bytes) :
    bytes ≤ maxBytes := by
  unfold measureEventPayload at measured
  split at measured
  · cases measured
    exact Nat.zero_le _
  split at measured
  · cases measured
  rename_i content counted written
  split at measured
  on_goal 2 => cases measured
  cases Except.ok.inj measured
  have bounded : ∀ (writes : List Nat) (start : Nat), start ≤ maxBytes →
      writes.foldlM (countWrite maxBytes) start = some bytes → bytes ≤ maxBytes := by
    intro writes
    induction writes with
    | nil =>
      intro start small done
      cases Option.some.inj done
      exact small
    | cons size writes ih =>
      intro start small done
      rw [List.foldlM_cons, Option.bind_eq_bind, Option.bind_eq_some_iff] at done
      obtain ⟨next, added, done⟩ := done
      obtain ⟨sum, -, checked⟩ := Option.bind_eq_some_iff.mp added
      split at checked
      · cases checked
      · rename_i fits
        cases Option.some.inj checked
        exact ih next (Nat.not_lt.mp fits) done
  exact bounded _ 0 (Nat.zero_le _) written

end FastMcp.ResumableStreams
