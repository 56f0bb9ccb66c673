import FastMcp.SseDecoders

/-! # The collector of a streamed response

The transport answers one request with a stream of events: notifications, and
one response at the end. The collector decodes the stream chunk by chunk, hands
out each notification as its event completes and keeps the response until the
stream ends. Any refusal closes it and gives up a response it already has.
-/

namespace FastMcp.Http

open ByteText Sse

inductive JsonRpcMessage (Request Response : Type) where
  | request (request : Request)
  | response (response : Response)

/-- The types of the messages and of what is refused about them. -/
structure MessageTypes where
  RequestId : Type
  Request : Type
  Response : Type
  Admission : Type
  CodecError : Type
  AdmissionError : Type
  TransportError : Type

/-- How one message is decoded, within a greatest size, and what it names. -/
structure MessageCodec (types : MessageTypes) where
  validate : types.RequestId → Bool
  correlatesWith : types.RequestId → types.RequestId → Bool
  requestId : types.Request → Option types.RequestId
  responseId : types.Response → Option types.RequestId
  decodeCompleteMessage :
    Nat → Text → Except types.CodecError (JsonRpcMessage types.Request types.Response)
  decodeStrictJsonrpcResponse : Nat → Text → Except types.AdmissionError types.Admission

variable {types : MessageTypes}

inductive ModernHttpSseCollectorError (types : MessageTypes) where
  | invalidRequestId
  | cancelled
  | sse (error : ModernSseParseError)
  | codec (error : types.CodecError)
  | responseAdmission (error : types.AdmissionError)
  | transport (error : types.TransportError)
  | notificationDelivery (error : types.TransportError)
  | nonNotificationRequest (requestId : types.RequestId)
  | terminalResponseIdMismatch (expected : types.RequestId) (actual : Option types.RequestId)
  | duplicateTerminalResponse (requestId : types.RequestId)
  | notificationAfterTerminal (requestId : types.RequestId)
  | endOfStream (framing : ModernSseEndOfStream)
  | closed

/-- What a checkpoint of the caller's context finds. -/
inductive Context (types : MessageTypes) where
  | live
  | cancelled
  | failed (error : types.TransportError)

def Context.checkpoint : Context types → Except (ModernHttpSseCollectorError types) Unit
  | live => .ok ()
  | cancelled => .error .cancelled
  | failed error => .error (.transport error)

/-- A response that has arrived, and the notifications handed out so far. -/
structure Progress (types : MessageTypes) where
  terminal : Option types.Admission
  delivered : List types.Request

def Progress.start : Progress types := ⟨none, []⟩

/-- The response to one request as it comes in. -/
structure ModernHttpSseCollector (types : MessageTypes) where
  requestId : types.RequestId
  decoder : Option ModernSseDecoder
  maxMessageSize : Nat
  terminal : Option types.Admission

namespace ModernHttpSseCollector

variable (codec : MessageCodec types)

def new (requestId : types.RequestId) (limits : ModernSseLimits) :
    Except (ModernHttpSseCollectorError types) (ModernHttpSseCollector types) :=
  if codec.validate requestId then
    .ok ⟨requestId, some (.new limits), limits.eventBytes, none⟩
  else .error .invalidRequestId

def refuse (collector : ModernHttpSseCollector types) : ModernHttpSseCollector types :=
  { collector with
    decoder := none
    terminal := none }

/-- The response to a message that the codec decodes to a request. -/
def consumeRequest (requestId : types.RequestId)
    (deliverNotification : types.Request → Except types.TransportError Unit)
    (notification : types.Request) (progress : Progress types) :
    Except (ModernHttpSseCollectorError types) Unit × Progress types :=
  if progress.terminal.isSome then (.error (.notificationAfterTerminal requestId), progress)
  else
    match codec.requestId notification with
    | some requestId => (.error (.nonNotificationRequest requestId), progress)
    | none =>
      let called := { progress with delivered := progress.delivered ++ [notification] }
      match deliverNotification notification with
      | .ok () => (.ok (), called)
      | .error error => (.error (.notificationDelivery error), called)

/-- The response to an event that the codec decodes to a response. -/
def consumeResponse (requestId : types.RequestId) (maxMessageSize : Nat) (event : Text)
    (response : types.Response) (progress : Progress types) :
    Except (ModernHttpSseCollectorError types) Unit × Progress types :=
  if progress.terminal.isSome then (.error (.duplicateTerminalResponse requestId), progress)
  else if !(codec.responseId response).any (codec.correlatesWith · requestId) then
    (.error (.terminalResponseIdMismatch requestId (codec.responseId response)), progress)
  else
    match codec.decodeStrictJsonrpcResponse maxMessageSize event with
    | .error error => (.error (.responseAdmission error), progress)
    | .ok admission => (.ok (), { progress with terminal := some admission })

/-- What the decoder does with the payload of each event. -/
def consume (requestId : types.RequestId) (maxMessageSize : Nat) (context : Context types)
    (deliverNotification : types.Request → Except types.TransportError Unit) (event : Text)
    (progress : Progress types) :
    Except (ModernHttpSseCollectorError types) Unit × Progress types :=
  match context.checkpoint with
  | .error error => (.error error, progress)
  | .ok () =>
    match codec.decodeCompleteMessage maxMessageSize event with
    | .error error => (.error (.codec error), progress)
    | .ok (.request notification) =>
      consumeRequest codec requestId deliverNotification notification progress
    | .ok (.response response) =>
      consumeResponse codec requestId maxMessageSize event response progress

/-- One chunk, after the notifications already handed out. -/
def push (collector : ModernHttpSseCollector types) (context : Context types) (chunk : Bytes)
    (deliverNotification : types.Request → Except types.TransportError Unit)
    (delivered : List types.Request) :
    Except (ModernHttpSseCollectorError types) Unit × ModernHttpSseCollector types ×
      List types.Request :=
  match context.checkpoint with
  | .error error => (.error error, collector.refuse, delivered)
  | .ok () =>
    match collector.decoder with
    | none => (.error .closed, collector, delivered)
    | some decoder =>
      match decoder.pushWith
          (consume codec collector.requestId collector.maxMessageSize context deliverNotification)
          chunk ⟨collector.terminal, delivered⟩ with
      | (.error (.parse error), _, progress) =>
        (.error (.sse error), collector.refuse, progress.delivered)
      | (.error (.consumer error), _, progress) =>
        (.error error, collector.refuse, progress.delivered)
      | (.ok (), pushed, progress) =>
        match context.checkpoint with
        | .error error => (.error error, collector.refuse, progress.delivered)
        | .ok () =>
          (.ok (),
            { collector with
              decoder := some pushed
              terminal := progress.terminal }, progress.delivered)

def finishAdmission (collector : ModernHttpSseCollector types) (context : Context types) :
    Except (ModernHttpSseCollectorError types) types.Admission × ModernHttpSseCollector types :=
  match context.checkpoint with
  | .error error => (.error error, collector.refuse)
  | .ok () =>
    match collector.decoder with
    | none => (.error .closed, collector)
    | some decoder =>
      let taken := { collector with decoder := none }
      match decoder.finish with
      | .error error => (.error (.sse error), taken)
      | .ok framing =>
        if framing.discardedPendingEvent || framing.discardedPartialLine then
          (.error (.endOfStream framing), { taken with terminal := none })
        else
          match taken.terminal with
          | none => (.error (.endOfStream framing), taken)
          | some admission => (.ok admission, { taken with terminal := none })

/-- One chunk after another in a live context, the callback always answering well. -/
def pushAll (collector : ModernHttpSseCollector types) (delivered : List types.Request) :
    List Bytes →
      List (Except (ModernHttpSseCollectorError types) Unit) × ModernHttpSseCollector types ×
        List types.Request
  | [] => ([], collector, delivered)
  | chunk :: chunks =>
    let (result, pushed, more) := collector.push codec .live chunk (fun _ => .ok ()) delivered
    let (results, last) := pushed.pushAll more chunks
    (result :: results, last)

end ModernHttpSseCollector

/-! ## Calls in any order -/

/-- A call of a collector, with the context and the callback it is made with. -/
inductive CollectorCall (types : MessageTypes) where
  | push (context : Context types) (chunk : Bytes)
      (deliverNotification : types.Request → Except types.TransportError Unit)
  | finishAdmission (context : Context types)

variable (codec : MessageCodec types)

/-- Whether a call fails, the collector after it and the notifications handed out so far. -/
def CollectorCall.perform (collector : ModernHttpSseCollector types)
    (delivered : List types.Request) :
    CollectorCall types → Bool × ModernHttpSseCollector types × List types.Request
  | push context chunk deliverNotification =>
    let (result, pushed, more) := collector.push codec context chunk deliverNotification delivered
    (!result.isOk, pushed, more)
  | finishAdmission context =>
    let (result, finished) := collector.finishAdmission context
    (!result.isOk, finished, delivered)

def performAll (collector : ModernHttpSseCollector types) (delivered : List types.Request) :
    List (CollectorCall types) → List Bool × ModernHttpSseCollector types × List types.Request
  | [] => ([], collector, delivered)
  | call :: calls =>
    let (failed, next, more) := call.perform codec collector delivered
    let (failures, last) := performAll next more calls
    (failed :: failures, last)

end FastMcp.Http
