import FastMcp.BufferedReaders
import FastMcp.ByteLines
import FastMcp.MeasuredLoops

/-! # The line reader of the stdio transport

A receive call reads the next line off a buffered stream and hands its frame to
the codec. The caller's context may stop it at any checkpoint, and the wait for
readiness may end with an error, in the middle of a line as well. The prefix of
a line that was read so far is then kept for the next call or given up, which
closes the transport.
-/

namespace FastMcp.Stdio

open BufferedReaders ByteLines ByteSources ByteText MeasuredLoops

/-- Why the caller's context refuses to go on. -/
inductive Stop where
  | timeout
  | cancelled
deriving DecidableEq, Repr

/-- Why a wait for readiness ends without input. -/
inductive Unready (Failure : Type) where
  | stopped (stop : Stop)
  | receiveDeadlineExceeded
  | io (failure : Failure)

inductive CodecError (Rejection : Type) where
  | messageTooLarge (size : Nat)
  | rejected (rejection : Rejection)

inductive TransportError (Failure Rejection : Type) where
  | io (failure : Failure)
  | closed
  | codec (error : CodecError Rejection)
  | timeout
  | receiveDeadlineExceeded
  | cancelled

variable {Failure Rejection Message : Type}

def Stop.error : Stop → TransportError Failure Rejection
  | .timeout => .timeout
  | .cancelled => .cancelled

def Unready.error : Unready Failure → TransportError Failure Rejection
  | .stopped stop => stop.error
  | .receiveDeadlineExceeded => .receiveDeadlineExceeded
  | .io failure => .io failure

/-- Errors of a read line after which the transport is closed once more. -/
def TransportError.isTerminal : TransportError Failure Rejection → Bool
  | .closed => true
  | .codec (.messageTooLarge _) => true
  | _ => false

/-- The codec behind its limit on the size of a frame. -/
structure Codec (Rejection Message : Type) where
  maxMessageSize : Nat
  decode : Bytes → Except Rejection Message

def Codec.decodeCompleteMessage (codec : Codec Rejection Message) (frame : Bytes) :
    Except (CodecError Rejection) Message :=
  if frame.length > codec.maxMessageSize then .error (.messageTooLarge frame.length)
  else (codec.decode frame).mapError .rejected

/-- The input of a transport, with the part of a line that was read before an interruption. -/
structure StdioTransport (Failure : Type) where
  reader : BufReader Failure
  lineBuffer : Bytes
  lineInProgress : Bool
  closed : Bool

/-- What a receive call is made with. -/
structure Call (Failure : Type) where
  retainOnSliceExpiry : Bool
  /-- The answers of the context to the coming checkpoints, which are otherwise passed. -/
  checkpoints : List (Option Stop)
  /-- The answers of the coming waits, which otherwise find input. -/
  readiness : List (Option (Unready Failure))

/-- What a receive call has handed to the codec, and its result. -/
structure Received (Failure Rejection Message : Type) where
  handed : Option Bytes
  result : Except (TransportError Failure Rejection) Message
  /-- The lines, empty ones included, that the call has read to their end and whose completion
  checkpoint it has passed. -/
  completed : List Bytes

namespace StdioTransport

def new (source : ByteSource) (faults : List (Option Failure)) : StdioTransport Failure :=
  ⟨⟨source, faults, []⟩, [], false, false⟩

def frameLen (transport : StdioTransport Failure) : Nat :=
  (stripSuffix carriageReturn (stripSuffix lineFeed transport.lineBuffer)).length

def abortPendingRead (transport : StdioTransport Failure) : StdioTransport Failure :=
  { transport with
    closed := transport.closed || !transport.lineBuffer.isEmpty
    lineBuffer := []
    lineInProgress := false }

def latchConsumedReadFailure (transport : StdioTransport Failure) : StdioTransport Failure :=
  { transport with closed := true, lineBuffer := [], lineInProgress := false }

/-- A failure that leaves the line in progress. -/
def closeRead (transport : StdioTransport Failure) : StdioTransport Failure :=
  { transport with closed := true, lineBuffer := [] }

end StdioTransport

/-- The prefix of a line that an earlier call has left. -/
def StdioTransport.carried (transport : StdioTransport Failure) : Bytes :=
  if transport.lineInProgress then transport.lineBuffer else []

/-- The stream from the start of the current line. -/
def StdioTransport.ahead (transport : StdioTransport Failure) : Bytes :=
  transport.carried ++ transport.reader.pending

/-- The transport in the middle of a call. -/
structure Receiving (Failure : Type) where
  transport : StdioTransport Failure
  call : Call Failure

namespace Receiving

def stdioCheckpoint (state : Receiving Failure) : Option Stop :=
  state.call.checkpoints.head?.join

def checked (state : Receiving Failure) : Receiving Failure :=
  { state with call := { state.call with checkpoints := state.call.checkpoints.tail } }

def waitForReadiness (state : Receiving Failure) : Option (Unready Failure) :=
  state.call.readiness.head?.join

def waited (state : Receiving Failure) : Receiving Failure :=
  { state with call := { state.call with readiness := state.call.readiness.tail } }

def withReader (state : Receiving Failure) (reader : BufReader Failure) : Receiving Failure :=
  { state with transport := { state.transport with reader := reader } }

end Receiving

/-! ## Reading a line -/

abbrev LineResult (Failure Rejection : Type) :=
  Except (TransportError Failure Rejection) Nat × Receiving Failure

abbrev LineTurn (Failure Rejection : Type) :=
  Turn (Receiving Failure) (LineResult Failure Rejection)

def fail (state : Receiving Failure) (error : TransportError Failure Rejection)
    (change : StdioTransport Failure → StdioTransport Failure) : LineResult Failure Rejection :=
  (.error error, { state with transport := change state.transport })

section Reading

variable (maxFrameSize : Nat) (state : Receiving Failure)

/-- The line buffer holds a whole line. -/
def completeLine : LineResult Failure Rejection :=
  if state.transport.frameLen > maxFrameSize then
    fail state (.codec (.messageTooLarge state.transport.frameLen)) (·.closeRead)
  else
    (.ok state.transport.frameLen,
      { state with transport := { state.transport with lineInProgress := false } })

/-- What is taken of the available bytes, up to and including a line feed. The sums of
lengths are plain ones since no buffer reaches the limit of the machine word. -/
def takeAvailable (available : Bytes) : LineTurn Failure Rejection :=
  let newline := available.idxOf? lineFeed
  let bytesToConsume := newline.elim available.length (· + 1)
  let projected := state.transport.lineBuffer.length + bytesToConsume
  if projected > maxFrameSize + 2 then
    .done (fail state (.codec (.messageTooLarge projected)) (·.closeRead))
  else
    let state :=
      { state with
        transport :=
          { state.transport with
            lineBuffer := state.transport.lineBuffer ++ available.take bytesToConsume
            reader := state.transport.reader.consume bytesToConsume } }
    if newline.isSome then .done (completeLine maxFrameSize state) else .again state

def fillTurn : LineTurn Failure Rejection :=
  match state.transport.reader.fillBuf bufferCapacity with
  | (.interrupted, reader) =>
    match state.stdioCheckpoint with
    | some stop => .done (fail (state.withReader reader) stop.error (·.abortPendingRead))
    | none => .again (state.withReader reader).checked
  | (.failed failure, reader) =>
    .done (fail (state.withReader reader) (.io failure) (·.closeRead))
  | (.available available, reader) =>
    if available = [] then
      if state.transport.lineBuffer = [] then
        .done (fail (state.withReader reader) .closed fun transport =>
          { transport with closed := true })
      else .done (completeLine maxFrameSize (state.withReader reader))
    else takeAvailable maxFrameSize (state.withReader reader) available

def waitTurn : LineTurn Failure Rejection :=
  match state.waitForReadiness with
  | some .receiveDeadlineExceeded =>
    .done (fail state .receiveDeadlineExceeded fun transport =>
      if state.call.retainOnSliceExpiry then transport else transport.abortPendingRead)
  | some unready => .done (fail state unready.error (·.abortPendingRead))
  | none => fillTurn maxFrameSize state.waited

def lineTurn : LineTurn Failure Rejection :=
  match state.stdioCheckpoint with
  | some stop => .done (fail state stop.error (·.abortPendingRead))
  | none => waitTurn maxFrameSize state.checked

end Reading

/-! ## The turns of a read -/

variable {maxFrameSize : Nat} {state next : Receiving Failure}

/-- Nothing stops a call: it passes every checkpoint, always finds input and no read fails. -/
structure Receiving.Undisturbed (state : Receiving Failure) : Prop where
  checkpoints : ∀ answer ∈ state.call.checkpoints, answer = none
  readiness : ∀ answer ∈ state.call.readiness, answer = none
  faults : ∀ fault ∈ state.transport.reader.faults, fault = none

namespace Receiving.Undisturbed

theorem checked (undisturbed : state.Undisturbed) : state.checked.Undisturbed :=
  ⟨fun answer listed => undisturbed.checkpoints answer (List.mem_of_mem_tail listed),
    undisturbed.readiness, undisturbed.faults⟩

theorem waited (undisturbed : state.Undisturbed) : state.waited.Undisturbed :=
  ⟨undisturbed.checkpoints,
    fun answer listed => undisturbed.readiness answer (List.mem_of_mem_tail listed),
    undisturbed.faults⟩

theorem not_stopped (undisturbed : state.Undisturbed) {stop : Stop} :
    state.stdioCheckpoint ≠ some stop := by
  intro stopped
  have listed := List.mem_of_head? (Option.join_eq_some_iff.mp stopped)
  exact nomatch undisturbed.checkpoints _ listed

theorem not_unready (undisturbed : state.Undisturbed) {unready : Unready Failure} :
    state.waitForReadiness ≠ some unready := by
  intro stopped
  have listed := List.mem_of_head? (Option.join_eq_some_iff.mp stopped)
  exact nomatch undisturbed.readiness _ listed

theorem filled (undisturbed : state.Undisturbed) :
    (state.withReader (state.transport.reader.fillBuf bufferCapacity).2).Undisturbed :=
  ⟨undisturbed.checkpoints, undisturbed.readiness,
    fun fault listed => undisturbed.faults fault (BufReader.fillBuf_faults _ _ listed)⟩

end Receiving.Undisturbed

/-- The bytes of the line that were read, followed by those that are still to come. -/
def Receiving.line (state : Receiving Failure) : Bytes :=
  state.transport.lineBuffer ++ state.transport.reader.pending

def Receiving.size (state : Receiving Failure) : Nat :=
  state.transport.reader.measure + state.transport.lineBuffer.length

/-- What a turn leaves as it was if the loop goes on after it. -/
structure Continues (state next : Receiving Failure) : Prop where
  inProgress : next.transport.lineInProgress = state.transport.lineInProgress
  closed : next.transport.closed = state.transport.closed
  line : next.line = state.line
  unbroken : lineFeed ∉ state.transport.lineBuffer → lineFeed ∉ next.transport.lineBuffer
  smaller : next.transport.reader.measure < state.transport.reader.measure
  notLarger : next.size ≤ state.size
  undisturbed : state.Undisturbed → next.Undisturbed

theorem bufferCapacity_pos : 0 < bufferCapacity := by decide

/-- The state after all available bytes were taken. -/
def Receiving.taken (state : Receiving Failure) (count : Nat) : Receiving Failure :=
  { state with
    transport :=
      { state.transport with
        lineBuffer :=
          state.transport.lineBuffer ++ state.transport.reader.buffered.take count
        reader := state.transport.reader.consume count } }

theorem line_taken (state : Receiving Failure) (count : Nat) :
    (state.taken count).line = state.line := by
  simp only [Receiving.line, Receiving.taken, BufReader.pending, BufReader.consume,
    List.append_assoc]
  rw [← List.append_assoc (List.take _ _), List.take_append_drop]

theorem size_taken {count : Nat} (within : count ≤ state.transport.reader.buffered.length) :
    (state.taken count).size = state.size := by
  have consumed := BufReader.measure_consume within
  simp only [Receiving.size, Receiving.taken, List.length_append, List.length_take]
  omega

/-- How a turn on available bytes goes. -/
theorem takeAvailable_cases {available : Bytes} {turn : LineTurn Failure Rejection}
    (isTurn : takeAvailable maxFrameSize state available = turn)
    (filled : state.transport.reader.buffered = available) :
    (∃ count, count ≤ available.length ∧ maxFrameSize + 2 < state.transport.lineBuffer.length + count ∧
      (lineFeed ∉ available.take count ∨
        ∃ front, available.take count = front ++ [lineFeed] ∧ lineFeed ∉ front) ∧
      turn = .done (fail state (.codec (.messageTooLarge (state.transport.lineBuffer.length + count)))
        (·.closeRead))) ∨
    (∃ front, available.take (front.length + 1) = front ++ [lineFeed] ∧ lineFeed ∉ front ∧
      front.length + 1 ≤ available.length ∧
      turn = .done (completeLine maxFrameSize (state.taken (front.length + 1)))) ∨
    (lineFeed ∉ available ∧ turn = .again (state.taken available.length)) := by
  subst isTurn filled
  unfold takeAvailable
  cases found : state.transport.reader.buffered.idxOf? lineFeed with
  | none =>
    have unbroken := List.idxOf?_eq_none_iff.mp found
    simp only [Option.elim_none, Option.isSome_none, Bool.false_eq_true, if_false]
    split
    next long =>
      exact .inl ⟨_, le_rfl, long, .inl (by rwa [List.take_length]), rfl⟩
    next => exact .inr (.inr ⟨unbroken, rfl⟩)
  | some position =>
    obtain ⟨front, rest, isSplit, unbroken, rfl⟩ := split_of_idxOf? found
    have cut : state.transport.reader.buffered.take (front.length + 1) = front ++ [lineFeed] := by
      simp [isSplit, List.take_append]
    have within : front.length + 1 ≤ state.transport.reader.buffered.length := by
      simp [isSplit]
    simp only [Option.elim_some, Option.isSome_some, if_true]
    split
    next long => exact .inl ⟨_, within, long, .inr ⟨front, cut, unbroken⟩, rfl⟩
    next => exact .inr (.inl ⟨front, cut, unbroken, within, rfl⟩)

theorem fillTurn_again
    (again : (fillTurn maxFrameSize state : LineTurn Failure Rejection) = .again next) :
    Continues state next := by
  unfold fillTurn at again
  have calm := fun undisturbed : state.Undisturbed => undisturbed.filled
  split at again
  next reader filled =>
    rw [filled] at calm
    obtain ⟨same, -, smaller⟩ := BufReader.fillBuf_interrupted filled
    split at again
    next => exact nomatch again
    next =>
      obtain rfl := Turn.again.inj again
      refine ⟨rfl, rfl, ?_, id, smaller, ?_, fun undisturbed => (calm undisturbed).checked⟩
      · exact congrArg (state.transport.lineBuffer ++ ·) same
      · exact Nat.add_le_add_right smaller.le _
  next => exact nomatch again
  next available reader filled =>
    rw [filled] at calm
    obtain ⟨buffered, same, -, notLarger, -⟩ :=
      BufReader.fillBuf_available bufferCapacity_pos filled
    split at again
    next => split at again <;> exact nomatch again
    next nonempty =>
      obtain ⟨-, -, -, -, ⟨⟩⟩ | ⟨-, -, -, -, ⟨⟩⟩ | ⟨unbroken, isNext⟩ :=
        takeAvailable_cases again buffered
      obtain rfl := Turn.again.inj isNext
      have all : available.length ≤ (state.withReader reader).transport.reader.buffered.length :=
        (congrArg List.length buffered).ge
      have consumed := BufReader.measure_consume all
      have positive := List.length_pos_of_ne_nil nonempty
      refine ⟨rfl, rfl, ?_, ?_, ?_, ?_, ?_⟩
      · rw [line_taken]
        exact congrArg (state.transport.lineBuffer ++ ·) same
      · intro before
        simp only [Receiving.taken, Receiving.withReader, buffered, List.take_length,
          List.mem_append]
        exact not_or.mpr ⟨before, unbroken⟩
      · change (reader.consume available.length).measure < _
        change (reader.consume available.length).measure + _ = reader.measure at consumed
        omega
      · rw [size_taken all]
        exact Nat.add_le_add_right notLarger _
      · exact fun undisturbed => ⟨(calm undisturbed).checkpoints, (calm undisturbed).readiness,
          (calm undisturbed).faults⟩

theorem lineTurn_again
    (again : (lineTurn maxFrameSize state : LineTurn Failure Rejection) = .again next) :
    Continues state next := by
  unfold lineTurn at again
  split at again
  next => exact nomatch again
  unfold waitTurn at again
  split at again
  next => exact nomatch again
  next => exact nomatch again
  have continues := fillTurn_again again
  exact ⟨continues.inProgress, continues.closed, continues.line, continues.unbroken,
    continues.smaller, continues.notLarger,
    fun undisturbed => continues.undisturbed undisturbed.checked.waited⟩

def lineLoop (Rejection : Type) (maxFrameSize : Nat) :
    Loop (Receiving Failure) (LineResult Failure Rejection) where
  turn := lineTurn maxFrameSize
  measure state := state.transport.reader.measure
  decreases again := (lineTurn_again again).smaller

/-- A line that is not continued starts with an empty buffer. -/
def Receiving.begun (state : Receiving Failure) : Receiving Failure :=
  { state with
    transport :=
      { state.transport with lineBuffer := state.transport.carried, lineInProgress := true } }

def readLineWithReadiness (maxFrameSize : Nat) (state : Receiving Failure) :
    LineResult Failure Rejection :=
  (lineLoop Rejection maxFrameSize).run state.begun

/-! ## Receiving a message -/

theorem lineTurn_ok {count : Nat}
    (done : (lineTurn maxFrameSize state : LineTurn Failure Rejection) = .done (.ok count, next)) :
    next.transport.lineInProgress = false ∧ next.transport.lineBuffer ≠ [] ∧
      next.size ≤ state.size := by
  have complete {other : Receiving Failure}
      (isComplete : (completeLine maxFrameSize other : LineResult Failure Rejection) =
        (.ok count, next)) (nonempty : other.transport.lineBuffer ≠ []) :
      next.transport.lineInProgress = false ∧ next.transport.lineBuffer ≠ [] ∧
        next.size ≤ other.size := by
    unfold completeLine at isComplete
    split at isComplete
    next => exact nomatch congrArg Prod.fst isComplete
    next =>
      obtain rfl := congrArg Prod.snd isComplete
      exact ⟨rfl, nonempty, le_rfl⟩
  unfold lineTurn at done
  split at done
  next => exact nomatch congrArg Prod.fst (Turn.done.inj done)
  unfold waitTurn at done
  split at done
  next => exact nomatch congrArg Prod.fst (Turn.done.inj done)
  next => exact nomatch congrArg Prod.fst (Turn.done.inj done)
  unfold fillTurn at done
  split at done
  next =>
    split at done
    next => exact nomatch congrArg Prod.fst (Turn.done.inj done)
    next => exact nomatch done
  next => exact nomatch congrArg Prod.fst (Turn.done.inj done)
  next available reader filled =>
    obtain ⟨buffered, -, -, notLarger, -⟩ := BufReader.fillBuf_available bufferCapacity_pos filled
    have smaller : (state.checked.waited.withReader reader).size ≤ state.size :=
      Nat.add_le_add_right notLarger _
    split at done
    next =>
      split at done
      next => exact nomatch congrArg Prod.fst (Turn.done.inj done)
      next buffered =>
        obtain ⟨ended, nonempty, size⟩ := complete (Turn.done.inj done) buffered
        exact ⟨ended, nonempty, size.trans smaller⟩
    next =>
      obtain ⟨-, -, -, -, ⟨⟩⟩ | ⟨front, isLine, -, within, isComplete⟩ | ⟨-, ⟨⟩⟩ :=
        takeAvailable_cases done buffered
      obtain ⟨ended, nonempty, size⟩ := complete (Turn.done.inj isComplete).symm (by
        simp [Receiving.taken, Receiving.withReader, buffered, isLine])
      rw [size_taken (by simpa [Receiving.withReader, buffered] using within)] at size
      exact ⟨ended, nonempty, size.trans smaller⟩

/-- A line that was read is not empty, and it is no longer in progress. -/
theorem lineLoop_ok {count : Nat} (state : Receiving Failure)
    (read : (lineLoop Rejection maxFrameSize).run state = (.ok count, next)) :
    next.transport.lineInProgress = false ∧ next.transport.lineBuffer ≠ [] ∧
      next.size ≤ state.size := by
  induction state using (lineLoop Rejection maxFrameSize).induct with
  | turn state ih =>
    cases turn : (lineLoop Rejection maxFrameSize).turn state with
    | done result =>
      rw [Loop.run_of_done turn] at read
      subst read
      exact lineTurn_ok turn
    | again later =>
      rw [Loop.run_of_again turn] at read
      obtain ⟨ended, nonempty, size⟩ := ih later turn read
      exact ⟨ended, nonempty, size.trans (lineTurn_again turn).notLarger⟩

section Receiving

variable (codec : Codec Rejection Message)

def recvTurn (state : Receiving Failure) (completed : List Bytes) :
    Turn (Receiving Failure × List Bytes)
      (Received Failure Rejection Message × StdioTransport Failure) :=
  match readLineWithReadiness codec.maxMessageSize state with
  | (.error error, next) =>
    .done (⟨none, .error error, completed⟩,
      if error.isTerminal then { next.transport with closed := true } else next.transport)
  | (.ok frameLen, next) =>
    match next.stdioCheckpoint with
    | some stop =>
      .done (⟨none, .error stop.error, completed⟩, next.transport.latchConsumedReadFailure)
    | none =>
      let completed := completed ++ [next.transport.lineBuffer]
      if frameLen = 0 then .again (next.checked, completed)
      else
        let frame := next.transport.lineBuffer.take frameLen
        match codec.decodeCompleteMessage frame with
        | .error error => .done (⟨some frame, .error (.codec error), completed⟩, next.transport)
        | .ok message =>
          match next.checked.stdioCheckpoint with
          | some stop =>
            .done (⟨some frame, .error stop.error, completed⟩,
              next.transport.latchConsumedReadFailure)
          | none => .done (⟨some frame, .ok message, completed⟩, next.transport)

theorem recvTurn_again {completed : List Bytes} {after : Receiving Failure × List Bytes}
    (again : recvTurn codec state completed = .again after) :
    ∃ read, readLineWithReadiness codec.maxMessageSize state =
        ((.ok 0, read) : LineResult Failure Rejection) ∧
      read.stdioCheckpoint = none ∧
        after = (read.checked, completed ++ [read.transport.lineBuffer]) := by
  unfold recvTurn at again
  split at again
  next => exact nomatch again
  next frameLen read isRead =>
    split at again
    next => exact nomatch again
    next passed =>
      dsimp only at again
      split at again
      next isZero =>
        subst isZero
        exact ⟨read, isRead, passed, (Turn.again.inj again).symm⟩
      next =>
        split at again
        next => exact nomatch again
        next => split at again <;> exact nomatch again

def recvLoop : Loop (Receiving Failure × List Bytes)
    (Received Failure Rejection Message × StdioTransport Failure) where
  turn state := recvTurn codec state.1 state.2
  measure state := state.1.begun.size
  decreases again := by
    obtain ⟨read, isRead, -, rfl⟩ := recvTurn_again codec again
    obtain ⟨ended, nonempty, size⟩ := lineLoop_ok _ isRead
    have positive := List.length_pos_of_ne_nil nonempty
    refine Nat.lt_of_lt_of_le ?_ size
    simp only [Receiving.begun, Receiving.checked, Receiving.size, StdioTransport.carried, ended,
      Bool.false_eq_true, if_false, List.length_nil]
    omega

def recvWithReadiness (transport : StdioTransport Failure) (call : Call Failure) :
    Received Failure Rejection Message × StdioTransport Failure :=
  if transport.closed then (⟨none, .error .closed, []⟩, transport)
  else (recvLoop codec).run (⟨transport, call⟩, [])

/-- One receive call after another. -/
def receiveAll (transport : StdioTransport Failure) :
    List (Call Failure) → List (Received Failure Rejection Message) × StdioTransport Failure
  | [] => ([], transport)
  | call :: calls =>
    let (received, transport) := recvWithReadiness codec transport call
    let (later, transport) := receiveAll transport calls
    (received :: later, transport)

end Receiving

end FastMcp.Stdio
