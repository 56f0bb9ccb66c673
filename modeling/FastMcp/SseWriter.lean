import FastMcp.SseEvents

/-! # Writing frames to an event stream

`sseCommitFrame` gives a frame to the underlying writer, which may take it in
several parts, and then flushes the writer. The caller's budget is asked before
each of these calls. A frame that was begun and not finished must be the last
one, so whatever stops the loop in the middle of a frame closes the stream.
-/

namespace FastMcp.Sse

open ByteText MachineWords

/-- A failure of the output. -/
structure IoError where
  kind : IoErrorKind
  message : String
deriving DecidableEq, Repr

/-- The underlying writer: what it has taken, how much of that it has flushed, and the answers
that it and the caller's budget are going to give. A budget without an answer lets the caller
pass. -/
structure Wire where
  accepted : Bytes
  flushed : Nat
  checkpoints : List (Option Stop)
  writes : List (Except IoError Nat)
  flushes : List (Except IoError Unit)
deriving DecidableEq

/-- The result of a call, whether the stream is closed, and the writer after it. -/
abbrev Commit := Except TransportError Unit × Bool × Wire

namespace Wire

def sseCheckpoint (wire : Wire) : Option Stop := wire.checkpoints.head?.join

/-- The writer after a checkpoint. -/
def advance (wire : Wire) : Wire := { wire with checkpoints := wire.checkpoints.tail }

/-- Flushes a whole frame. There is no result if the writer gives no further answer. -/
def flushFrame (closed wroteAny : Bool) (wire : Wire) (flushes : List (Except IoError Unit)) :
    Option Commit :=
  match wire.sseCheckpoint with
  | some stop => some (.error stop.error, closed || wroteAny, { wire.advance with flushes })
  | none =>
    match flushes with
    | [] => none
    | .ok () :: flushes =>
      some (.ok (), closed, { wire.advance with flushed := wire.accepted.length, flushes })
    | .error error :: flushes =>
      if error.kind = .interrupted then wire.advance.flushFrame closed wroteAny flushes
      else some (.error (.io error.kind error.message), true, { wire.advance with flushes })

/-- Writes what remains of a frame. A writer that claims to have taken more than it was given
has taken all of it at most. -/
def writeFrame (closed wroteAny : Bool) (wire : Wire) (bytes : Bytes)
    (writes : List (Except IoError Nat)) : Option Commit :=
  if bytes.isEmpty then { wire with writes }.flushFrame closed wroteAny wire.flushes
  else
    match wire.sseCheckpoint with
    | some stop => some (.error stop.error, closed || wroteAny, { wire.advance with writes })
    | none =>
      match writes with
      | [] => none
      | .ok written :: writes =>
        let taken := { wire.advance with accepted := wire.accepted ++ bytes.take written }
        if written = 0 then
          some (.error (.io .writeZero "SSE frame write made no progress"), true,
            { taken with writes })
        else if written ≤ bytes.length then
          taken.writeFrame closed true (bytes.drop written) writes
        else
          some (.error (.io .invalidData "SSE writer reported an invalid byte count"), true,
            { taken with writes })
      | .error error :: writes =>
        if error.kind = .interrupted then wire.advance.writeFrame closed wroteAny bytes writes
        else some (.error (.io error.kind error.message), true, { wire.advance with writes })

def sseCommitFrame (wire : Wire) (closed : Bool) (bytes : Bytes) : Option Commit :=
  wire.writeFrame closed false bytes wire.writes

end Wire

/-! ## One frame -/

/-- What a call leaves behind that had these bytes still to write. -/
structure Settled (accepted : Bytes) (closed wroteAny : Bool) (bytes : Bytes) (commit : Commit) :
    Prop where
  taken : ∃ part, part <+: bytes ∧ commit.2.2.accepted = accepted ++ part
  whole : commit.1 = .ok () → commit.2.2.accepted = accepted ++ bytes ∧
    commit.2.2.flushed = commit.2.2.accepted.length ∧ commit.2.1 = closed
  torn : commit.1 ≠ .ok () → commit.2.1 = false →
    commit.2.2.accepted = accepted ∧ wroteAny = false

namespace Settled

variable {accepted bytes : Bytes} {closed wroteAny : Bool} {error : TransportError} {wire : Wire}

theorem stop (same : wire.accepted = accepted) :
    Settled accepted closed wroteAny bytes (.error error, closed || wroteAny, wire) := by
  refine ⟨⟨[], List.nil_prefix, by simp [same]⟩, nofun, fun _ isOpen => ⟨same, ?_⟩⟩
  exact (Bool.or_eq_false_iff.mp isOpen).2

theorem close {part : Bytes} (isPart : part <+: bytes) (same : wire.accepted = accepted ++ part) :
    Settled accepted closed wroteAny bytes (.error error, true, wire) :=
  ⟨⟨part, isPart, same⟩, nofun, nofun⟩

end Settled

namespace Wire

variable {wire : Wire} {closed wroteAny : Bool} {bytes : Bytes} {commit : Commit}

theorem flushFrame_settled {flushes : List (Except IoError Unit)}
    (returned : wire.flushFrame closed wroteAny flushes = some commit) :
    Settled wire.accepted closed wroteAny [] commit := by
  fun_induction flushFrame closed wroteAny wire flushes with
  | case1 => cases returned; exact .stop rfl
  | case2 => contradiction
  | case3 => cases returned; exact ⟨⟨[], by simp [advance]⟩, by simp [advance], by simp⟩
  | case4 _ _ _ _ _ ih => exact ih returned
  | case5 => cases returned; exact .close List.nil_prefix (by simp [advance])

theorem writeFrame_settled {writes : List (Except IoError Nat)}
    (returned : wire.writeFrame closed wroteAny bytes writes = some commit) :
    Settled wire.accepted closed wroteAny bytes commit := by
  fun_induction writeFrame closed wroteAny wire bytes writes with
  | case1 writes wroteAny wire bytes empty =>
    rw [List.isEmpty_iff.mp empty]
    exact (flushFrame_settled returned :)
  | case2 => cases returned; exact .stop rfl
  | case3 => contradiction
  | case4 => cases returned; exact .close (List.take_prefix _ _) rfl
  | case5 wroteAny wire bytes _ _ written writes taken _ fits ih =>
    -- what the writer has taken now is never given back
    have rest := ih returned
    obtain ⟨part, isPart, same⟩ := rest.taken
    refine ⟨⟨bytes.take written ++ part, ?_, ?_⟩, fun isOk => ?_, fun failed isOpen => ?_⟩
    · nth_rewrite 2 [← List.take_append_drop written bytes]
      exact (List.prefix_append_right_inj _).mpr isPart
    · rw [same, List.append_assoc]
    · obtain ⟨all, others⟩ := rest.whole isOk
      refine ⟨?_, others⟩
      rw [all, List.append_assoc, List.take_append_drop]
    · exact absurd (rest.torn failed isOpen).2 (by simp)
  | case6 => cases returned; exact .close (List.take_prefix _ _) rfl
  | case7 _ _ _ _ _ _ _ _ ih => exact ih returned
  | case8 => cases returned; exact .close List.nil_prefix (by simp [advance])

/-- A frame that was committed is with the writer as a whole and flushed, and where the call fails
without closing the stream, the writer has taken nothing of it. -/
theorem sseCommitFrame_whole_or_closed (wire : Wire) (closed : Bool) (bytes : Bytes)
    (commit : Commit) (returned : wire.sseCommitFrame closed bytes = some commit) :
    (commit.1 = .ok () → commit.2.2.accepted = wire.accepted ++ bytes ∧
      commit.2.2.flushed = commit.2.2.accepted.length) ∧
    (commit.1 ≠ .ok () → commit.2.1 = false → commit.2.2.accepted = wire.accepted) := by
  have settled := writeFrame_settled returned
  refine ⟨fun isOk => ?_, fun failed isOpen => (settled.torn failed isOpen).1⟩
  obtain ⟨all, flushed, -⟩ := settled.whole isOk
  exact ⟨all, flushed⟩

/-- Two bytes are taken one at a time, with an interruption between them, and a frame that is
stopped before its first byte leaves the stream open. -/
theorem sseCommitFrame_two_parts :
    sseCommitFrame ⟨[], 0, [], [.ok 1, .error ⟨.interrupted, ""⟩, .ok 1], [.ok ()]⟩ false [7, 8] =
        some (.ok (), false, ⟨[7, 8], 2, [], [], []⟩) ∧
      (([7, 8] : Bytes) = [] ++ [7, 8] ∧ 2 = ([7, 8] : Bytes).length) ∧
      sseCommitFrame ⟨[7, 8], 2, [some .timeout], [], []⟩ false [9] =
        some (.error .timeout, false, ⟨[7, 8], 2, [], [], []⟩) ∧ ([7, 8] : Bytes) = [7, 8] :=
  ⟨rfl, (sseCommitFrame_whole_or_closed
    ⟨[], 0, [], [.ok 1, .error ⟨.interrupted, ""⟩, .ok 1], [.ok ()]⟩ false [7, 8]
    (.ok (), false, ⟨[7, 8], 2, [], [], []⟩) rfl).1 rfl, rfl,
    (sseCommitFrame_whole_or_closed ⟨[7, 8], 2, [some .timeout], [], []⟩ false [9]
      (.error .timeout, false, ⟨[7, 8], 2, [], [], []⟩) rfl).2 nofun rfl⟩

end Wire

/-! ## A stream of events -/

/-- A writer of events to one stream. -/
structure SseWriter where
  wire : Wire
  eventCounter : Nat
  closed : Bool

namespace SseWriter

variable {Message : Type}

def commit (writer : SseWriter) (bytes : Bytes) : Option (Except TransportError Unit × SseWriter) :=
  (writer.wire.sseCommitFrame writer.closed bytes).map fun (result, closed, wire) =>
    (result, { writer with wire, closed })

def writeEvent (writer : SseWriter) (event : SseEvent) :
    Option (Except TransportError Unit × SseWriter) :=
  if writer.closed then some (.error .closed, writer)
  else
    let asked := { writer with wire := writer.wire.advance }
    match writer.wire.sseCheckpoint with
    | some stop => some (.error stop.error, asked)
    | none =>
      match event.toBytes with
      | .error error => some (.error error, asked)
      | .ok bytes => asked.commit bytes

/-- Writes a message under the next event ID. The codec gives the text of a message without the
line feed at its end. -/
def writeMessage (encodeMessage : Message → Except TransportError Text) (writer : SseWriter)
    (message : Message) : Option (Except TransportError Unit × SseWriter) :=
  if writer.closed then some (.error .closed, writer)
  else
    let asked := { writer with wire := writer.wire.advance }
    match writer.wire.sseCheckpoint with
    | some stop => some (.error stop.error, asked)
    | none =>
      match encodeMessage message with
      | .error error => some (.error error, asked)
      | .ok json =>
        let nextEventId := writer.eventCounter + 1
        if u64Max < nextEventId then some (.error (invalidSseField "event ID counter"), asked)
        else
          (asked.writeEvent ⟨.message, json, some (Nat.toDigits 10 nextEventId), none⟩).map
            fun (result, writer) =>
              match result with
              | .ok () => (.ok (), { writer with eventCounter := nextEventId })
              | .error error => (.error error, writer)

end SseWriter

end FastMcp.Sse
