import FastMcp.BufferedReaders
import FastMcp.IntegerText
import FastMcp.MeasuredLoops
import FastMcp.SseDecoders

/-! # Typed events and their reader

An event has a type, data, and optionally an identifier and a reconnection
delay. `SseEvent.toBytes` writes one event and `SseReader.readEvent` reads the
next one off a buffered stream, line by line and within the caller's budget.
-/

namespace FastMcp.Sse

open BufferedReaders ByteSources ByteText IntegerText LossyUtf8 MachineWords MeasuredLoops

/-- The UTF-8 bytes of a text. -/
def utf8 (text : Text) : Bytes :=
  text.flatMap String.utf8EncodeChar

def maxSseLineSize : Nat := 64 * 1024

def sseDataLineWireOverhead : Nat :=
  byteLength "data: \n".toList

def maxSseMessageSize : Nat :=
  maxSseLineSize - sseDataLineWireOverhead

inductive IoErrorKind where
  | invalidInput
  | invalidData
  | interrupted
  | writeZero
  | other
deriving DecidableEq, Repr

inductive TransportError where
  | io (kind : IoErrorKind) (message : String)
  | messageTooLarge (size : Nat)
  | timeout
  | cancelled
  | closed
deriving DecidableEq, Repr

/-! ## Events -/

inductive SseEventType where
  | endpoint
  | message
deriving DecidableEq, Repr

def SseEventType.asStr : SseEventType → Text
  | .endpoint => "endpoint".toList
  | .message => "message".toList

def SseEventType.fromStr (text : Text) : Option SseEventType :=
  if text = "endpoint".toList then some .endpoint
  else if text = "message".toList then some .message
  else none

/-- One event as it is written and read. -/
structure SseEvent where
  eventType : SseEventType
  data : Text
  id : Option Text
  retry : Option UInt64
deriving DecidableEq, Repr

/-- A line without a carriage return at its end. -/
def stripReturn (line : Text) : Text :=
  if line.getLast? = some '\r' then line.dropLast else line

/-- The lines of some data, whose terminators are line feeds or pairs of a return and a feed. -/
def dataLinesOf (data : Text) : List Text :=
  (data.splitOn '\n').map stripReturn

/-- A byte that would end a field. -/
def endsField (byte : UInt8) : Bool :=
  byte = carriageReturn || byte = lineFeed || byte = 0

/-- Data must not have a NUL, nor a return without a feed after it. -/
def hasInvalidSseDataCharacters : Bytes → Bool
  | [] => false
  | byte :: rest =>
    (byte = 0 || (byte = carriageReturn && rest.head? ≠ some lineFeed)) ||
      hasInvalidSseDataCharacters rest

def invalidSseField (field : String) : TransportError :=
  .io .invalidInput ("invalid " ++ field ++ " for SSE wire format")

namespace SseEvent

def validateId : Option Text → Except TransportError Unit
  | none => .ok ()
  | some id =>
    if (utf8 id).any endsField then .error (invalidSseField "event ID")
    else if saturatingAdd usizeMax (byteLength id) (byteLength "id: \n".toList) > maxSseLineSize then
      .error (.messageTooLarge (byteLength id))
    else .ok ()

def validate (event : SseEvent) : Except TransportError Unit :=
  if byteLength event.data > maxSseMessageSize then
    .error (.messageTooLarge (byteLength event.data))
  else if hasInvalidSseDataCharacters (utf8 event.data) then
    .error (invalidSseField "event data")
  else
    match (dataLinesOf event.data).find? fun line =>
      saturatingAdd usizeMax (byteLength line) sseDataLineWireOverhead > maxSseLineSize with
    | some line => .error (.messageTooLarge (byteLength line))
    | none =>
      if event.eventType = .endpoint ∧ (utf8 event.data).any endsField then
        .error (invalidSseField "endpoint data")
      else validateId event.id

/-- A field with its name, its value and the end of the line. -/
def field (name : Text) (value : Text) : Bytes :=
  utf8 name ++ utf8 value ++ [lineFeed]

def encode (event : SseEvent) : Bytes :=
  field "event: ".toList event.eventType.asStr ++
    (event.id.toList.flatMap fun id => field "id: ".toList id) ++
    (event.retry.toList.flatMap fun retry => field "retry: ".toList (Nat.toDigits 10 retry.toNat)) ++
    (dataLinesOf event.data).flatMap (field "data: ".toList) ++ [lineFeed]

def toBytes (event : SseEvent) : Except TransportError Bytes :=
  event.validate.map fun _ => event.encode

end SseEvent

/-! ## The reader -/

/-- Why the caller's budget refuses to go on. -/
inductive Stop where
  | timeout
  | cancelled
deriving DecidableEq, Repr

def Stop.error : Stop → TransportError
  | .timeout => .timeout
  | .cancelled => .cancelled

/-- A reader of events, with the identifier and the delay that hold for later events. -/
structure SseReader where
  input : BufReader String
  /-- The answers of the caller's budget to the coming checkpoints, which are otherwise passed. -/
  checkpoints : List (Option Stop)
  lineBuffer : Bytes
  maxLineSize : Nat
  terminal : Bool
  discardLfAfterCr : Bool
  lastEventId : Option Text
  reconnectionTime : Option UInt64

namespace SseReader

def new (source : ByteSource) (faults : List (Option String))
    (checkpoints : List (Option Stop)) : SseReader where
  input := ⟨source, faults, []⟩
  checkpoints := checkpoints
  lineBuffer := []
  maxLineSize := maxSseLineSize
  terminal := false
  discardLfAfterCr := false
  lastEventId := none
  reconnectionTime := none

def sseCheckpoint (reader : SseReader) : Except TransportError Unit × SseReader :=
  match reader.checkpoints with
  | [] => (.ok (), reader)
  | none :: later => (.ok (), { reader with checkpoints := later })
  | some stop :: later => (.error stop.error, { reader with checkpoints := later })

/-! ### Lines -/

/-- The reader in the middle of a line. -/
structure LineState where
  reader : SseReader
  consumedInput : Bool
  totalRead : Nat

/-- What is taken of the available bytes, up to and including a terminator. -/
def takeContent (state : LineState) (available : Bytes) :
    Turn LineState (Except TransportError Nat × LineState) :=
  let content := available.takeWhile fun byte => byte ≠ carriageReturn ∧ byte ≠ lineFeed
  let delimiter := available[content.length]?
  let bytesToConsume := content.length + delimiter.isSome.toNat
  if saturatingAdd usizeMax state.reader.lineBuffer.length bytesToConsume >
      state.reader.maxLineSize then
    .done
      (.error (.io .invalidData
        ("SSE line exceeds maximum size of " ++ toString state.reader.maxLineSize ++ " bytes")),
        { state with reader := { state.reader with lineBuffer := [] } })
  else
    let reader :=
      { state.reader with
        lineBuffer := state.reader.lineBuffer ++ content
        input := state.reader.input.consume bytesToConsume }
    match delimiter with
    | some byte =>
      .done
        (.ok (state.totalRead + bytesToConsume),
          ⟨{ reader with discardLfAfterCr := byte = carriageReturn }, true,
            state.totalRead + bytesToConsume⟩)
    | none => .again ⟨reader, true, state.totalRead + bytesToConsume⟩

def takeAvailable (state : LineState) :
    Bytes → Turn LineState (Except TransportError Nat × LineState)
  | [] => .done (.ok state.totalRead, state)
  | first :: rest =>
    let reader := { state.reader with discardLfAfterCr := false }
    if state.reader.discardLfAfterCr ∧ first = lineFeed then
      .again ⟨{ reader with input := reader.input.consume 1 }, true, state.totalRead⟩
    else takeContent { state with reader := reader } (first :: rest)

def lineTurn (state : LineState) : Turn LineState (Except TransportError Nat × LineState) :=
  match state.reader.sseCheckpoint with
  | (.error error, reader) => .done (.error error, { state with reader := reader })
  | (.ok (), reader) =>
    match reader.input.fillBuf bufferCapacity with
    | (.interrupted, input) => .again { state with reader := { reader with input := input } }
    | (.failed message, input) =>
      .done (.error (.io .other message), { state with reader := { reader with input := input } })
    | (.available available, input) =>
      takeAvailable { state with reader := { reader with input := input } } available

theorem sseCheckpoint_input (reader : SseReader) :
    reader.sseCheckpoint.2.input = reader.input := by
  unfold sseCheckpoint
  split <;> rfl

variable {state next last : LineState} {available : Bytes} {count : Nat}

/-- Every turn that goes on takes bytes or uses up an interruption. -/
theorem takeAvailable_again (buffered : state.reader.input.buffered = available)
    (taken : takeAvailable state available = .again next) :
    next.reader.input.measure + next.totalRead ≤
        state.reader.input.measure + state.totalRead ∧
      next.reader.input.measure < state.reader.input.measure := by
  cases available with
  | nil => cases taken
  | cons first rest =>
    unfold takeAvailable at taken
    by_cases second : state.reader.discardLfAfterCr ∧ first = lineFeed
    · simp only [if_pos second, Turn.again.injEq] at taken
      subst taken
      have fits : 1 ≤ state.reader.input.buffered.length := by simp [buffered]
      have smaller := BufReader.measure_consume fits
      constructor <;> dsimp only <;> omega
    · simp only [if_neg second, takeContent] at taken
      split at taken
      · cases taken
      split at taken
      · cases taken
      · rename_i noDelimiter
        have whole := List.getElem?_eq_none_iff.mp noDelimiter
        have most := (List.takeWhile_prefix (l := first :: rest)
          fun byte => decide (byte ≠ carriageReturn ∧ byte ≠ lineFeed)).length_le
        simp only [noDelimiter, Option.isSome_none, Bool.toNat_false, Nat.add_zero,
          Turn.again.injEq] at taken
        subst taken
        have smaller := @BufReader.measure_consume _ state.reader.input _
          (Nat.le_trans most (Nat.le_of_eq (congrArg List.length buffered.symm)))
        rw [List.length_cons] at whole
        constructor <;> dsimp only <;> omega

/-- A completed line took as many bytes as it reports. -/
theorem takeAvailable_done (buffered : state.reader.input.buffered = available)
    (taken : takeAvailable state available = .done (.ok count, last)) :
    last.reader.input.measure + count ≤ state.reader.input.measure + state.totalRead := by
  cases available with
  | nil =>
    simp only [takeAvailable, Turn.done.injEq, Prod.mk.injEq, Except.ok.injEq] at taken
    obtain ⟨rfl, rfl⟩ := taken
    exact Nat.le_refl _
  | cons first rest =>
    unfold takeAvailable at taken
    by_cases second : state.reader.discardLfAfterCr ∧ first = lineFeed
    · simp [if_pos second] at taken
    · simp only [if_neg second, takeContent] at taken
      split at taken
      · simp at taken
      split at taken
      · rename_i byte delimiter
        have inside := (List.getElem?_eq_some_iff.mp delimiter).1
        simp only [delimiter, Option.isSome_some, Bool.toNat_true, Turn.done.injEq,
          Prod.mk.injEq, Except.ok.injEq] at taken
        obtain ⟨rfl, rfl⟩ := taken
        have smaller := @BufReader.measure_consume _ state.reader.input (_ + 1)
          (Nat.le_trans inside (Nat.le_of_eq (congrArg List.length buffered.symm)))
        dsimp only
        omega
      · cases taken

theorem lineTurn_again (taken : lineTurn state = .again next) :
    next.reader.input.measure + next.totalRead ≤
        state.reader.input.measure + state.totalRead ∧
      next.reader.input.measure < state.reader.input.measure := by
  have input := sseCheckpoint_input state.reader
  unfold lineTurn at taken
  split at taken
  · cases taken
  rename_i reader passed
  simp only [passed] at input
  split at taken
  · rename_i filled
    cases taken
    obtain ⟨-, -, smaller⟩ := BufReader.fillBuf_interrupted filled
    rw [← input]
    constructor <;> dsimp only <;> omega
  · cases taken
  · rename_i available filledInput filled
    obtain ⟨buffered, -, -, most, -⟩ := BufReader.fillBuf_available (by decide) filled
    have smaller := takeAvailable_again buffered taken
    rw [← input]
    dsimp only at smaller
    constructor <;> omega

def lineLoop : Loop LineState (Except TransportError Nat × LineState) where
  turn := lineTurn
  measure := fun state => state.reader.input.measure
  decreases := fun taken => (lineTurn_again taken).2

def readLineBounded (reader : SseReader) (consumedInput : Bool) :
    Except TransportError Nat × LineState :=
  lineLoop.run ⟨reader, consumedInput, 0⟩

theorem lineLoop_measure (state : LineState) :
    ∀ count last, lineLoop.run state = (.ok count, last) →
      last.reader.input.measure + count ≤ state.reader.input.measure + state.totalRead := by
  induction state using lineLoop.induct with
  | turn state ih =>
    intro count last ran
    cases taken : lineTurn state with
    | again next =>
      rw [lineLoop.run_of_again taken] at ran
      exact Nat.le_trans (ih next taken count last ran) (lineTurn_again taken).1
    | done result =>
      rw [lineLoop.run_of_done taken] at ran
      subst ran
      have input := sseCheckpoint_input state.reader
      unfold lineTurn at taken
      split at taken
      · simp at taken
      rename_i reader passed
      simp only [passed] at input
      split at taken
      · cases taken
      · simp at taken
      · rename_i available filledInput filled
        obtain ⟨buffered, -, -, most, -⟩ := BufReader.fillBuf_available (by decide) filled
        have smaller := takeAvailable_done buffered taken
        rw [← input]
        dsimp only at smaller
        omega

theorem readLineBounded_measure {reader : SseReader} {consumedInput : Bool}
    (ran : readLineBounded reader consumedInput = (.ok count, last)) :
    last.reader.input.measure + count ≤ reader.input.measure :=
  lineLoop_measure _ count last ran

/-! ### Events -/

/-- The fields of the event being assembled. -/
structure EventFields where
  eventType : Option SseEventType
  unknownEvent : Bool
  dataLines : List Text
  totalDataSize : Nat
deriving DecidableEq, Repr

def EventFields.none : EventFields := ⟨.none, false, [], 0⟩

def EventFields.withType (fields : EventFields) (value : Text) : EventFields :=
  if value = [] then
    { fields with
      eventType := .none
      unknownEvent := false }
  else
    match SseEventType.fromStr value with
    | some eventType =>
      { fields with
        eventType := some eventType
        unknownEvent := false }
    | .none =>
      { fields with
        eventType := .none
        unknownEvent := true }

/-- A reconnection delay, which is a number written in digits alone. -/
def parseRetry (value : Text) : Option UInt64 :=
  if value ≠ [] ∧ value.all Char.isDigit then
    (parseUnsigned 10 u64Max value).map UInt64.ofNat
  else none

/-- The reader in the middle of an event. -/
structure EventState where
  reader : SseReader
  fields : EventFields
  consumedInput : Bool

def EventState.addData (state : EventState) (value : Text) :
    Turn EventState (Except TransportError (Option SseEvent) × SseReader) :=
  let separatorSize := if state.fields.dataLines = [] then 0 else 1
  let totalDataSize :=
    saturatingAdd usizeMax (saturatingAdd usizeMax state.fields.totalDataSize separatorSize)
      (byteLength value)
  if totalDataSize > maxSseMessageSize then
    .done
      (.error (.io .invalidData
        ("SSE event data exceeds maximum size of " ++ toString maxSseMessageSize ++ " bytes")),
        { state.reader with terminal := true })
  else
    .again
      { state with
        fields :=
          { state.fields with
            dataLines := state.fields.dataLines ++ [value]
            totalDataSize := totalDataSize } }

def applyField (state : EventState) (field value : Text) :
    Turn EventState (Except TransportError (Option SseEvent) × SseReader) :=
  if field = "event".toList then .again { state with fields := state.fields.withType value }
  else if field = dataField then state.addData value
  else if field = "id".toList then
    if Char.ofNat 0 ∈ value then .again state
    else .again { state with reader := { state.reader with lastEventId := some value } }
  else if field = "retry".toList then
    match parseRetry value with
    | some retry =>
      .again { state with reader := { state.reader with reconnectionTime := some retry } }
    | none => .again state
  else .again state

def processLine (state : EventState) (line : Text) :
    Turn EventState (Except TransportError (Option SseEvent) × SseReader) :=
  if line = [] then
    if state.fields.dataLines ≠ [] ∧ ¬ state.fields.unknownEvent then
      .done
        (.ok (some
          { eventType := state.fields.eventType.getD .message
            data := ['\n'].intercalate state.fields.dataLines
            id := state.reader.lastEventId
            retry := state.reader.reconnectionTime }),
          state.reader)
    else .again { state with fields := .none }
  else if line.head? = some ':' then .again state
  else applyField state (fieldOf line).1 (fieldOf line).2

/-- Whether a refusal of the caller's budget leaves the reader usable. -/
def retryable (error : TransportError) (consumedInput : Bool) : Bool :=
  !consumedInput && (error = .cancelled || error = .timeout)

def eventTurn (state : EventState) :
    Turn EventState (Except TransportError (Option SseEvent) × SseReader) :=
  match readLineBounded { state.reader with lineBuffer := [] } state.consumedInput with
  | (.error error, line) =>
    .done
      (.error error,
        { line.reader with
          terminal := line.reader.terminal || !retryable error line.consumedInput })
  | (.ok 0, line) => .done (.ok none, { line.reader with terminal := true })
  | (.ok (_ + 1), line) =>
    match line.reader.sseCheckpoint with
    | (.error error, reader) => .done (.error error, { reader with terminal := true })
    | (.ok (), reader) =>
      match fromUtf8 reader.lineBuffer with
      | none =>
        .done
          (.error (.io .invalidData ("Invalid UTF-8 in SSE line: " ++ utf8Error reader.lineBuffer)),
            { reader with terminal := true })
      | some text => processLine ⟨reader, state.fields, line.consumedInput⟩ text.toList

theorem processLine_input {state next : EventState} {line : Text}
    (taken : processLine state line = .again next) :
    next.reader.input = state.reader.input := by
  unfold processLine at taken
  split at taken
  · split at taken <;> cases taken
    rfl
  split at taken
  · cases taken
    rfl
  unfold applyField EventState.addData at taken
  split at taken
  · cases taken
    rfl
  split at taken
  · dsimp only at taken
    split at taken <;> split at taken <;> cases taken <;> rfl
  split at taken
  · split at taken <;> cases taken <;> rfl
  split at taken
  · split at taken <;> cases taken <;> rfl
  · cases taken
    rfl

theorem eventTurn_again {state next : EventState} (taken : eventTurn state = .again next) :
    next.reader.input.measure < state.reader.input.measure := by
  unfold eventTurn at taken
  split at taken
  · cases taken
  · cases taken
  · rename_i line ran
    have took := readLineBounded_measure ran
    have input := sseCheckpoint_input line.reader
    split at taken
    · cases taken
    · rename_i reader passed
      simp only [passed] at input
      split at taken
      · cases taken
      · have same := processLine_input taken
        rw [same, input]
        dsimp only at took ⊢
        omega

def eventLoop : Loop EventState (Except TransportError (Option SseEvent) × SseReader) where
  turn := eventTurn
  measure := fun state => state.reader.input.measure
  decreases := eventTurn_again

def readEvent (reader : SseReader) : Except TransportError (Option SseEvent) × SseReader :=
  if reader.terminal then (.error .closed, reader)
  else
    match reader.sseCheckpoint with
    | (.error error, reader) => (.error error, reader)
    | (.ok (), reader) => eventLoop.run ⟨reader, .none, false⟩

/-- The results of a number of reads, one after another. -/
def readEvents (reader : SseReader) : Nat → List (Except TransportError (Option SseEvent))
  | 0 => []
  | count + 1 => reader.readEvent.1 :: reader.readEvent.2.readEvents count

end SseReader

end FastMcp.Sse
