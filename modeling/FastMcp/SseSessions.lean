import FastMcp.SseRoundTrip
import FastMcp.SseWriter
import FastMcp.TransitionRuns

/-! # Event streams from the writer to the reader

A session remembers the events that its writer has reported as written. Whatever
fails in between, a reader of the bytes that were taken gets exactly these events.
-/

namespace FastMcp.Sse

open ByteSources ByteText TransitionRuns

variable {Message : Type}

/-- A writer and the events that it has reported as written. -/
structure Session where
  writer : SseWriter
  written : List SseEvent

namespace Session

/-- The session after a call that was to write some event. -/
def after (session : Session) (event : SseEvent) (result : Except TransportError Unit)
    (writer : SseWriter) : Session :=
  ⟨writer, if result = .ok () then session.written ++ [event] else session.written⟩

/-- A message of the session goes out under the next number. -/
def numbered (session : Session) (json : Text) : SseEvent :=
  ⟨.message, json, some (Nat.toDigits 10 (session.writer.eventCounter + 1)), none⟩

/-- The caller writes an event or a message. The text of a message that cannot be encoded does not
matter, as the call fails. -/
inductive Writes (encodeMessage : Message → Except TransportError Text) : Session → Session → Prop
  | event {session : Session} {event : SseEvent} {result : Except TransportError Unit}
    {writer : SseWriter} (returned : session.writer.writeEvent event = some (result, writer)) :
    Writes encodeMessage session (session.after event result writer)
  | message {session : Session} {message : Message} {json : Text}
    {result : Except TransportError Unit} {writer : SseWriter}
    (encoded : result = .ok () → encodeMessage message = .ok json)
    (returned : session.writer.writeMessage encodeMessage message = some (result, writer)) :
    Writes encodeMessage session (session.after (session.numbered json) result writer)

/-- The bytes are those of the written events, and more only if the stream is closed. -/
structure Framed (session : Session) : Prop where
  valid : ∀ event ∈ session.written, event.Valid
  bytes : ∃ torn, session.writer.wire.accepted =
    session.written.flatMap SseEvent.encode ++ torn ∧
      (session.writer.closed = false → torn = [])

variable {session : Session} {encodeMessage : Message → Except TransportError Text}
  {result : Except TransportError Unit} {writer : SseWriter}

/-- A writer that has taken nothing more. -/
theorem Framed.same (framed : Framed session)
    (accepted : writer.wire.accepted = session.writer.wire.accepted)
    (closed : writer.closed = session.writer.closed) : Framed ⟨writer, session.written⟩ := by
  refine ⟨framed.valid, ?_⟩
  rw [accepted, closed]
  exact framed.bytes

/-- A writer that has asked its budget. -/
theorem Framed.asked (framed : Framed session) :
    Framed ⟨{ session.writer with wire := session.writer.wire.advance }, session.written⟩ :=
  framed.same rfl rfl

theorem Framed.commit (framed : Framed session) (isOpen : session.writer.closed = false)
    {event : SseEvent} {bytes : Bytes} (encoded : event.toBytes = .ok bytes)
    (returned : session.writer.commit bytes = some (result, writer)) :
    Framed (session.after event result writer) := by
  obtain ⟨valid, torn, same, isWhole⟩ := framed
  obtain rfl := isWhole isOpen
  obtain ⟨isValid, rfl⟩ := SseEvent.valid_of_toBytes encoded
  simp only [SseWriter.commit, Option.map_eq_some_iff, Prod.mk.injEq] at returned
  obtain ⟨⟨outcome, closed, wire⟩, committed, rfl, rfl⟩ := returned
  have settled := Wire.writeFrame_settled committed
  rw [same, List.append_nil] at settled
  unfold after
  split
  · rename_i isOk
    constructor
    · simpa [or_imp, forall_and] using ⟨valid, isValid⟩
    · refine ⟨[], ?_, fun _ => rfl⟩
      simpa using (settled.whole isOk).1
  · rename_i failed
    obtain ⟨part, -, all⟩ := settled.taken
    refine ⟨valid, part, all, fun stillOpen => ?_⟩
    have unchanged := (settled.torn failed stillOpen).1
    exact List.append_right_eq_self.mp (all.symm.trans unchanged)

theorem Framed.writeEvent (framed : Framed session) {event : SseEvent}
    (returned : session.writer.writeEvent event = some (result, writer)) :
    Framed (session.after event result writer) := by
  unfold SseWriter.writeEvent at returned
  split at returned
  · cases returned
    exact framed
  rename_i isOpen
  split at returned
  · cases returned
    exact framed.same rfl rfl
  split at returned
  · cases returned
    exact framed.same rfl rfl
  · rename_i bytes encoded
    exact framed.asked.commit (Bool.eq_false_iff.mpr isOpen) encoded returned

theorem Framed.writes (framed : Framed session) {next : Session}
    (wrote : Writes encodeMessage session next) : Framed next := by
  cases wrote with
  | event returned => exact framed.writeEvent returned
  | message encoded returned =>
    unfold SseWriter.writeMessage at returned
    split at returned
    · cases returned
      exact framed
    split at returned
    · cases returned
      exact framed.asked
    split at returned
    · cases returned
      exact framed.asked
    rename_i json isJson
    simp only at returned
    split at returned
    · cases returned
      exact framed.asked
    · obtain ⟨⟨outcome, writer⟩, wrote, last⟩ := Option.map_eq_some_iff.mp returned
      have framed := framed.asked.writeEvent wrote
      cases outcome <;> cases last
      · exact framed.same rfl rfl
      · cases isJson.symm.trans (encoded rfl)
        exact framed.same rfl rfl

/-- Whatever happens to a new stream, its reader gets the events that were reported as written,
in order and whatever sizes the reads have, each with the last identifier and delay before it. If
the stream is still open, there is nothing behind them. -/
theorem written_events_delivered {initial : Session} (isNew : initial.writer.wire.accepted = [])
    (isEmpty : initial.written = []) (reached : Reachable (Writes encodeMessage) initial session)
    (plan : List Delivery) :
    let reader := SseReader.new ⟨session.writer.wire.accepted, plan⟩ [] []
    let delivered := session.written.mapIdx fun index event => .ok (some (event.after
      ((session.written.take index).reverse.findSome? SseEvent.id)
      ((session.written.take index).reverse.findSome? SseEvent.retry)))
    reader.readEvents session.written.length = delivered ∧
      (session.writer.closed = false →
        reader.readEvents (session.written.length + 1) = delivered ++ [.ok none]) := by
  have initially : Framed initial :=
    ⟨by simp [isEmpty], [], by simp [isNew, isEmpty], fun _ => rfl⟩
  have framed := reached.invariant initially fun _ _ framed wrote => framed.writes wrote
  obtain ⟨torn, content, isWhole⟩ := framed.bytes
  have ready : SseReader.Ready (.new ⟨session.writer.wire.accepted, plan⟩ [] [])
      (session.written.flatMap SseEvent.encode ++ torn) none none :=
    ⟨⟨rfl, rfl, rfl, rfl⟩, rfl, content, rfl, rfl, rfl⟩
  obtain ⟨next, lastId, lastRetry, readyNext, reads⟩ := ready.readEvents_append framed.valid
  refine ⟨by simpa [SseReader.readEvents] using reads 0, fun isOpen => ?_⟩
  rw [isWhole isOpen] at readyNext
  simpa [SseReader.readEvents, readyNext.readEvent_end] using reads 1

/-- Three messages of one letter, of which the second is stopped before its first byte. -/
theorem first_and_third_delivered :
    let letter (data : Char) : SseEvent := ⟨.message, [data], none, none⟩
    (SseReader.new ⟨(letter 'a').encode ++ (letter 'c').encode, [.upTo 3]⟩ [] []).readEvents 3 =
      [.ok (some (letter 'a')), .ok (some (letter 'c')), .ok none] := by
  intro letter
  have first := @Writes.event Unit (fun _ => .ok [])
    ⟨⟨⟨[], 0, [none, none, none, none, some .cancelled], [.ok 24, .ok 24], [.ok (), .ok ()]⟩, 0,
      false⟩, []⟩ (letter 'a') (.ok ())
    ⟨⟨(letter 'a').encode, 24, [none, some .cancelled], [.ok 24], [.ok ()]⟩, 0, false⟩ rfl
  have second := @Writes.event Unit (fun _ => .ok [])
    ⟨⟨⟨(letter 'a').encode, 24, [none, some .cancelled], [.ok 24], [.ok ()]⟩, 0, false⟩,
      [letter 'a']⟩ (letter 'b') (.error .cancelled)
    ⟨⟨(letter 'a').encode, 24, [], [.ok 24], [.ok ()]⟩, 0, false⟩ rfl
  have third := @Writes.event Unit (fun _ => .ok [])
    ⟨⟨⟨(letter 'a').encode, 24, [], [.ok 24], [.ok ()]⟩, 0, false⟩, [letter 'a']⟩ (letter 'c')
    (.ok ()) ⟨⟨(letter 'a').encode ++ (letter 'c').encode, 48, [], [], []⟩, 0, false⟩ rfl
  exact (written_events_delivered rfl rfl (((Reachable.start.extend first).extend second).extend
    third) [.upTo 3]).2 rfl

end Session

end FastMcp.Sse
