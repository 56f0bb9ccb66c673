import FastMcp.LossyUtf8
import FastMcp.MachineWords
import FastMcp.TextCutting

/-! # The two decoders of event streams

The client and the transport each have a decoder that takes a stream of events
chunk by chunk and hands out the payload of every completed event. Both buffer
the bytes of the current line, and both charge lines and events to budgets. A
refusal releases what a decoder holds and is final.
-/

namespace FastMcp.Sse

open ByteText LossyUtf8 MachineWords TextCutting

abbrev Text := List Char

theorem byteLength_append (left right : Text) :
    byteLength (left ++ right) = byteLength left + byteLength right := by
  simp [byteLength]

def utf8Bom : Bytes := [0xEF, 0xBB, 0xBF]

/-- The bytes without a byte-order mark at their front. -/
def stripBom (raw : Bytes) : Bytes :=
  (stripPrefix utf8Bom raw).getD raw

/-- The name and the value of a field, without the space that may precede the value. -/
def fieldOf (line : Text) : Text × Text :=
  match splitOnce ':' line with
  | some (field, value) => (field, (stripPrefix [' '] value).getD value)
  | none => (line, [])

def dataField : Text := "data".toList

/-! ## The client's parser -/

/-- Limits on one stream, none of which is zero. -/
structure SseLimits where
  lineBytes : Nat
  eventBytes : Nat
  keepaliveLines : Nat
  dataLines : Nat
  lineBytes_pos : 0 < lineBytes
  eventBytes_pos : 0 < eventBytes
  keepaliveLines_pos : 0 < keepaliveLines
  dataLines_pos : 0 < dataLines

def SseLimits.withDataLines (lineBytes eventBytes keepaliveLines dataLines : Nat) :
    Option SseLimits :=
  if positive : 0 < lineBytes ∧ 0 < eventBytes ∧ 0 < keepaliveLines ∧ 0 < dataLines then
    some ⟨lineBytes, eventBytes, keepaliveLines, dataLines, positive.1, positive.2.1,
      positive.2.2.1, positive.2.2.2⟩
  else none

/-- Without a bound on the number of data fields. -/
def SseLimits.new (lineBytes eventBytes keepaliveLines : Nat) : Option SseLimits :=
  withDataLines lineBytes eventBytes keepaliveLines usizeMax

/-- What a stream left behind when it ended. -/
structure SseEndOfStream where
  discardedPendingEvent : Bool
  discardedPartialLine : Bool
deriving DecidableEq, Repr

inductive SseParseError where
  | lineTooLong (limitBytes : Nat)
  | eventTooLarge (limitBytes : Nat)
  | keepaliveFlood (limitLines : Nat)
  | tooManyDataLines (limitLines : Nat)
  | poisoned
deriving DecidableEq, Repr

/-- A refusal by the parser or by the consumer of a payload. -/
inductive SsePushError (Refusal : Type) where
  | parse (error : SseParseError)
  | consumer (error : Refusal)

/-- A parser between two chunks. -/
structure BoundedSseParser where
  limits : SseLimits
  rawLine : Bytes
  pendingCr : Bool
  bomWindowOpen : Bool
  data : Text
  eventRawBytes : Nat
  eventDataLines : Nat
  keepaliveLines : Nat
  poisoned : Bool

namespace BoundedSseParser

def new (limits : SseLimits) : BoundedSseParser where
  limits := limits
  rawLine := []
  pendingCr := false
  bomWindowOpen := true
  data := []
  eventRawBytes := 0
  eventDataLines := 0
  keepaliveLines := 0
  poisoned := false

def poison (parser : BoundedSseParser) : BoundedSseParser :=
  { parser with
    rawLine := []
    data := []
    eventRawBytes := 0
    eventDataLines := 0
    keepaliveLines := 0
    poisoned := true }

def countNonDispatchingLine (parser : BoundedSseParser) :
    Except SseParseError Unit × BoundedSseParser :=
  let counted := { parser with keepaliveLines := saturatingAdd usizeMax parser.keepaliveLines 1 }
  if counted.keepaliveLines > counted.limits.keepaliveLines then
    (.error (.keepaliveFlood counted.limits.keepaliveLines), counted)
  else (.ok (), counted)

section Pushing

variable {Refusal Sink : Type} (accept : Text → Sink → Except Refusal Unit × Sink)

/-- Counts a line that dispatches nothing and reports whether it is a comment. -/
def inertLine (parser : BoundedSseParser) (comment : Bool) (sink : Sink) :
    Except (SsePushError Refusal) Bool × BoundedSseParser × Sink :=
  match parser.countNonDispatchingLine with
  | (.ok (), counted) => (.ok comment, counted, sink)
  | (.error error, counted) => (.error (.parse error), counted, sink)

theorem inertLine_eq (parser : BoundedSseParser) (comment : Bool) (sink : Sink) :
    (parser.inertLine comment sink :
      Except (SsePushError Refusal) Bool × BoundedSseParser × Sink) =
      if saturatingAdd usizeMax parser.keepaliveLines 1 > parser.limits.keepaliveLines then
        (.error (.parse (.keepaliveFlood parser.limits.keepaliveLines)),
          { parser with keepaliveLines := saturatingAdd usizeMax parser.keepaliveLines 1 }, sink)
      else
        (.ok comment,
          { parser with keepaliveLines := saturatingAdd usizeMax parser.keepaliveLines 1 }, sink) := by
  unfold inertLine countNonDispatchingLine
  by_cases flood : saturatingAdd usizeMax parser.keepaliveLines 1 > parser.limits.keepaliveLines
  · simp only [if_pos flood]
  · simp only [if_neg flood]

/-- The effect of a data field. -/
def dataLine (parser : BoundedSseParser) (value : Text) (rawLen : Nat) (sink : Sink) :
    Except (SsePushError Refusal) Bool × BoundedSseParser × Sink :=
  let decodedAfter :=
    saturatingAdd usizeMax (saturatingAdd usizeMax (byteLength parser.data) (byteLength value)) 1
  let rawAfter := saturatingAdd usizeMax parser.eventRawBytes rawLen
  if decodedAfter > parser.limits.eventBytes ∨ rawAfter > parser.limits.eventBytes then
    (.error (.parse (.eventTooLarge parser.limits.eventBytes)), parser.poison, sink)
  else
    let linesAfter := saturatingAdd usizeMax parser.eventDataLines 1
    if linesAfter > parser.limits.dataLines then
      (.error (.parse (.tooManyDataLines parser.limits.dataLines)), parser.poison, sink)
    else
      (.ok false,
        { parser with
          data := parser.data ++ value ++ ['\n']
          eventRawBytes := rawAfter
          eventDataLines := linesAfter
          keepaliveLines := 0 }, sink)

/-- The effect of a blank line. -/
def dispatch (parser : BoundedSseParser) (sink : Sink) :
    Except (SsePushError Refusal) Bool × BoundedSseParser × Sink :=
  if parser.data = [] then parser.inertLine false sink
  else
    let payload := if parser.data.getLast? = some '\n' then parser.data.dropLast else parser.data
    let dispatched :=
      { parser with
        data := []
        eventRawBytes := 0
        eventDataLines := 0
        keepaliveLines := 0 }
    match accept payload sink with
    | (.ok (), sink) => (.ok false, dispatched, sink)
    | (.error error, sink) => (.error (.consumer error), dispatched.poison, sink)

def processLineWith (parser : BoundedSseParser) (line : Text) (rawLen : Nat) (sink : Sink) :
    Except (SsePushError Refusal) Bool × BoundedSseParser × Sink :=
  if line = [] then parser.dispatch accept sink
  else if line.head? = some ':' then parser.inertLine true sink
  else
    let (field, value) := fieldOf line
    if field = dataField then parser.dataLine value rawLen sink
    else parser.inertLine false sink

def completeLineWith (parser : BoundedSseParser) (sink : Sink) :
    Except (SsePushError Refusal) Bool × BoundedSseParser × Sink :=
  let raw := if parser.bomWindowOpen then stripBom parser.rawLine else parser.rawLine
  let taken :=
    { parser with
      rawLine := []
      bomWindowOpen := false }
  let line := fromUtf8Lossy raw
  if byteLength line > parser.limits.lineBytes then
    (.error (.parse (.lineTooLong parser.limits.lineBytes)), taken.poison, sink)
  else
    match taken.processLineWith accept line raw.length sink with
    | (.ok activity, processed, sink) => (.ok activity, processed, sink)
    | (.error (.parse error), processed, sink) => (.error (.parse error), processed.poison, sink)
    | (.error (.consumer error), processed, sink) => (.error (.consumer error), processed, sink)

/-- The loop over the bytes of a chunk, with the comment activity so far. -/
def pushBytes : Bytes → Bool → BoundedSseParser → Sink →
    Except (SsePushError Refusal) Bool × BoundedSseParser × Sink
  | [], activity, parser, sink => (.ok activity, parser, sink)
  | byte :: rest, activity, parser, sink =>
    if parser.pendingCr ∧ byte = lineFeed then
      pushBytes rest activity { parser with pendingCr := false } sink
    else
      let resumed := { parser with pendingCr := false }
      if byte = carriageReturn ∨ byte = lineFeed then
        match resumed.completeLineWith accept sink with
        | (.ok comment, completed, sink) =>
          pushBytes rest (activity || comment)
            { completed with pendingCr := byte = carriageReturn } sink
        | (.error error, refused, sink) => (.error error, refused, sink)
      else if resumed.rawLine.length ≥ resumed.limits.lineBytes then
        (.error (.parse (.lineTooLong resumed.limits.lineBytes)), resumed.poison, sink)
      else pushBytes rest activity { resumed with rawLine := resumed.rawLine ++ [byte] } sink

def pushWith (parser : BoundedSseParser) (chunk : Bytes) (sink : Sink) :
    Except (SsePushError Refusal) Bool × BoundedSseParser × Sink :=
  if parser.poisoned then (.error (.parse .poisoned), parser, sink)
  else pushBytes accept chunk false parser sink

end Pushing

/-- A consumer that collects all payloads. -/
def collect (payload : Text) (dispatched : List Text) : Except Empty Unit × List Text :=
  (.ok (), dispatched ++ [payload])

def push (parser : BoundedSseParser) (chunk : Bytes) :
    Except SseParseError (List Text) × BoundedSseParser :=
  match parser.pushWith collect chunk [] with
  | (.ok _, pushed, dispatched) => (.ok dispatched, pushed)
  | (.error (.parse error), pushed, _) => (.error error, pushed)

def finish (parser : BoundedSseParser) : Except SseParseError SseEndOfStream :=
  if parser.poisoned then .error .poisoned
  else .ok ⟨parser.data ≠ [], parser.rawLine ≠ []⟩

/-- The results of pushing one chunk after another, and the parser after them. -/
def pushAll (parser : BoundedSseParser) :
    List Bytes → List (Except SseParseError (List Text)) × BoundedSseParser
  | [] => ([], parser)
  | chunk :: chunks =>
    let (result, pushed) := parser.push chunk
    let (results, last) := pushed.pushAll chunks
    (result :: results, last)

end BoundedSseParser

/-! ## The transport's decoder -/

/-- Limits on one modern stream, none of which is zero. -/
structure ModernSseLimits where
  lineBytes : Nat
  eventBytes : Nat
  keepaliveLines : Nat
  lineBytes_pos : 0 < lineBytes
  eventBytes_pos : 0 < eventBytes
  keepaliveLines_pos : 0 < keepaliveLines

def ModernSseLimits.new (lineBytes eventBytes keepaliveLines : Nat) : Option ModernSseLimits :=
  if positive : 0 < lineBytes ∧ 0 < eventBytes ∧ 0 < keepaliveLines then
    some ⟨lineBytes, eventBytes, keepaliveLines, positive.1, positive.2.1, positive.2.2⟩
  else none

/-- What was incomplete at the end of a stream. -/
structure ModernSseEndOfStream where
  discardedPendingEvent : Bool
  discardedPartialLine : Bool
deriving DecidableEq, Repr

inductive ModernSseParseError where
  | lineTooLong (limitBytes : Nat)
  | eventTooLarge (limitBytes : Nat)
  | keepaliveFlood (limitLines : Nat)
  | poisoned
deriving DecidableEq, Repr

inductive ModernSsePushError (Refusal : Type) where
  | parse (error : ModernSseParseError)
  | consumer (error : Refusal)

/-- The modern decoder between two chunks. -/
structure ModernSseDecoder where
  limits : ModernSseLimits
  rawLine : Bytes
  pendingCr : Bool
  bomWindowOpen : Bool
  data : Text
  eventRawBytes : Nat
  keepaliveLines : Nat
  poisoned : Bool

namespace ModernSseDecoder

def new (limits : ModernSseLimits) : ModernSseDecoder where
  limits := limits
  rawLine := []
  pendingCr := false
  bomWindowOpen := true
  data := []
  eventRawBytes := 0
  keepaliveLines := 0
  poisoned := false

def poison (decoder : ModernSseDecoder) : ModernSseDecoder :=
  { decoder with
    rawLine := []
    data := []
    eventRawBytes := 0
    keepaliveLines := 0
    poisoned := true }

section Pushing

variable {Refusal Sink : Type} (consume : Text → Sink → Except Refusal Unit × Sink)

def countInertLine (decoder : ModernSseDecoder) (sink : Sink) :
    Except (ModernSsePushError Refusal) Unit × ModernSseDecoder × Sink :=
  let counted := { decoder with keepaliveLines := saturatingAdd usizeMax decoder.keepaliveLines 1 }
  if counted.keepaliveLines > counted.limits.keepaliveLines then
    (.error (.parse (.keepaliveFlood counted.limits.keepaliveLines)), counted, sink)
  else (.ok (), counted, sink)

def processLine (decoder : ModernSseDecoder) (line : Text) (rawLen : Nat) (sink : Sink) :
    Except (ModernSsePushError Refusal) Unit × ModernSseDecoder × Sink :=
  if line = [] then
    if decoder.data = [] then decoder.countInertLine sink
    else
      let dispatched :=
        { decoder with
          data := []
          eventRawBytes := 0
          keepaliveLines := 0 }
      match consume decoder.data.dropLast sink with
      | (.ok (), sink) => (.ok (), dispatched, sink)
      | (.error error, sink) => (.error (.consumer error), dispatched, sink)
  else if line.head? = some ':' then decoder.countInertLine sink
  else
    let (field, value) := fieldOf line
    if field ≠ dataField then decoder.countInertLine sink
    else
      let decodedAfter := saturatingAdd usizeMax
        (saturatingAdd usizeMax (byteLength decoder.data) (byteLength value)) 1
      let rawAfter := saturatingAdd usizeMax decoder.eventRawBytes rawLen
      if decodedAfter > decoder.limits.eventBytes ∨ rawAfter > decoder.limits.eventBytes then
        (.error (.parse (.eventTooLarge decoder.limits.eventBytes)), decoder.poison, sink)
      else
        (.ok (),
          { decoder with
            data := decoder.data ++ value ++ ['\n']
            eventRawBytes := rawAfter
            keepaliveLines := 0 }, sink)

def completeLine (decoder : ModernSseDecoder) (sink : Sink) :
    Except (ModernSsePushError Refusal) Unit × ModernSseDecoder × Sink :=
  let raw := if decoder.bomWindowOpen then stripBom decoder.rawLine else decoder.rawLine
  let taken :=
    { decoder with
      rawLine := []
      bomWindowOpen := false }
  let line := fromUtf8Lossy raw
  if byteLength line > decoder.limits.lineBytes then
    (.error (.parse (.lineTooLong decoder.limits.lineBytes)), taken.poison, sink)
  else taken.processLine consume line raw.length sink

/-- Only a refusal by the decoder itself poisons it. -/
def poisonPushError (decoder : ModernSseDecoder) : ModernSsePushError Refusal → ModernSseDecoder
  | .parse _ => decoder.poison
  | .consumer _ => decoder

/-- The loop over the bytes of a chunk. -/
def pushBytes : Bytes → ModernSseDecoder → Sink →
    Except (ModernSsePushError Refusal) Unit × ModernSseDecoder × Sink
  | [], decoder, sink => (.ok (), decoder, sink)
  | byte :: rest, decoder, sink =>
    if decoder.pendingCr ∧ byte = lineFeed then
      pushBytes rest { decoder with pendingCr := false } sink
    else
      let resumed := { decoder with pendingCr := false }
      if byte = carriageReturn ∨ byte = lineFeed then
        match resumed.completeLine consume sink with
        | (.ok (), completed, sink) =>
          pushBytes rest { completed with pendingCr := byte = carriageReturn } sink
        | (.error error, refused, sink) => (.error error, refused.poisonPushError error, sink)
      else if resumed.rawLine.length ≥ resumed.limits.lineBytes then
        (.error (.parse (.lineTooLong resumed.limits.lineBytes)), resumed.poison, sink)
      else pushBytes rest { resumed with rawLine := resumed.rawLine ++ [byte] } sink

def pushWith (decoder : ModernSseDecoder) (chunk : Bytes) (sink : Sink) :
    Except (ModernSsePushError Refusal) Unit × ModernSseDecoder × Sink :=
  if decoder.poisoned then (.error (.parse .poisoned), decoder, sink)
  else pushBytes consume chunk decoder sink

end Pushing

def push (decoder : ModernSseDecoder) (chunk : Bytes) :
    Except ModernSseParseError (List Text) × ModernSseDecoder :=
  match decoder.pushWith BoundedSseParser.collect chunk [] with
  | (.ok (), pushed, dispatched) => (.ok dispatched, pushed)
  | (.error (.parse error), pushed, _) => (.error error, pushed)

def finish (decoder : ModernSseDecoder) : Except ModernSseParseError ModernSseEndOfStream :=
  if decoder.poisoned then .error .poisoned
  else .ok ⟨decoder.data ≠ [], decoder.rawLine ≠ []⟩

def pushAll (decoder : ModernSseDecoder) :
    List Bytes → List (Except ModernSseParseError (List Text)) × ModernSseDecoder
  | [] => ([], decoder)
  | chunk :: chunks =>
    let (result, pushed) := decoder.push chunk
    let (results, last) := pushed.pushAll chunks
    (result :: results, last)

end ModernSseDecoder

end FastMcp.Sse
