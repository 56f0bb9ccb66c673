import FastMcp.HttpSseCollector
import FastMcp.SseConsumers

/-! # Streamed responses

A streamed response is well formed when its events are notifications and one
response after them. However the bytes are cut, the collector accepts exactly
the well-formed streams that stay within the budgets and end with a complete
event. It hands out the notifications at the front of every stream.
-/

namespace FastMcp.Http

open ByteText Sse

variable {types : MessageTypes} (codec : MessageCodec types) (requestId : types.RequestId)
  (maxMessageSize : Nat)

/-! ## The events of a response -/

/-- The notification that a payload is: a request without an id. -/
def notificationOf (payload : Text) : Option types.Request :=
  match codec.decodeCompleteMessage maxMessageSize payload with
  | .ok (.request request) => if (codec.requestId request).isNone then some request else none
  | _ => none

/-- The response that a payload is to the request. -/
def responseOf (payload : Text) : Option types.Admission :=
  match codec.decodeCompleteMessage maxMessageSize payload with
  | .ok (.response response) =>
    if (codec.responseId response).any (codec.correlatesWith · requestId) then
      (codec.decodeStrictJsonrpcResponse maxMessageSize payload).toOption
    else none
  | _ => none

/-- The longest run of notifications at the front. -/
def leadingNotifications : List Text → List types.Request
  | [] => []
  | payload :: payloads =>
    match notificationOf codec maxMessageSize payload with
    | some notification => notification :: leadingNotifications payloads
    | none => []

/-- Notifications and then exactly one response. -/
def Answers (payloads : List Text) (admission : types.Admission) : Prop :=
  ∃ notifications final, payloads = notifications ++ [final] ∧
    (∀ payload ∈ notifications, (notificationOf codec maxMessageSize payload).isSome) ∧
    responseOf codec requestId maxMessageSize final = some admission

section Events

variable {codec requestId maxMessageSize} {payload : Text} {payloads : List Text}
  {admission found : types.Admission} {notification : types.Request}

theorem notificationOf_of_response
    (response : responseOf codec requestId maxMessageSize payload = some admission) :
    notificationOf codec maxMessageSize payload = none := by
  unfold responseOf at response
  unfold notificationOf
  split at response
  · rename_i decoded
    rw [decoded]
  · cases response

theorem answers_cons_notification
    (first : notificationOf codec maxMessageSize payload = some notification) :
    Answers codec requestId maxMessageSize (payload :: payloads) admission ↔
      Answers codec requestId maxMessageSize payloads admission := by
  constructor
  · rintro ⟨_ | ⟨head, notifications⟩, final, split, all, response⟩
    · cases split
      exact nomatch (notificationOf_of_response response).symm.trans first
    · cases split
      exact ⟨notifications, final, rfl, fun _ member => all _ (List.mem_cons_of_mem _ member),
        response⟩
  · rintro ⟨notifications, final, rfl, all, response⟩
    refine ⟨payload :: notifications, final, rfl, ?_, response⟩
    exact List.forall_mem_cons.mpr ⟨by simp [first], all⟩

theorem answers_cons_other (first : notificationOf codec maxMessageSize payload = none) :
    Answers codec requestId maxMessageSize (payload :: payloads) admission ↔
      payloads = [] ∧ responseOf codec requestId maxMessageSize payload = some admission := by
  constructor
  · rintro ⟨_ | ⟨head, notifications⟩, final, split, all, response⟩
    · cases split
      exact ⟨rfl, response⟩
    · cases split
      have notification := all _ List.mem_cons_self
      rw [first] at notification
      cases notification
  · rintro ⟨rfl, response⟩
    exact ⟨[], payload, rfl, nofun, response⟩

end Events

/-! ## What the collector does with an event -/

namespace ModernHttpSseCollector

/-- The consumer in a live context whose callback always answers well. -/
def consumeLive (event : Text) (progress : Progress types) :
    Except (ModernHttpSseCollectorError types) Unit × Progress types :=
  consume codec requestId maxMessageSize .live (fun _ => .ok ()) event progress

variable {codec requestId maxMessageSize} {event : Text} {notification : types.Request}
  {admission : types.Admission}

theorem consumeLive_notification
    (found : notificationOf codec maxMessageSize event = some notification)
    (delivered : List types.Request) :
    consumeLive codec requestId maxMessageSize event ⟨none, delivered⟩ =
      (.ok (), ⟨none, delivered ++ [notification]⟩) := by
  unfold notificationOf at found
  split at found
  on_goal 2 => cases found
  rename_i request decoded
  split at found
  on_goal 2 => cases found
  rename_i noId
  cases found
  simp only [consumeLive, consume, Context.checkpoint, decoded, consumeRequest, Option.isSome_none,
    Bool.false_eq_true, if_false, Option.isNone_iff_eq_none.mp noId]

theorem consumeLive_response
    (found : responseOf codec requestId maxMessageSize event = some admission)
    (delivered : List types.Request) :
    consumeLive codec requestId maxMessageSize event ⟨none, delivered⟩ =
      (.ok (), ⟨some admission, delivered⟩) := by
  unfold responseOf at found
  split at found
  on_goal 2 => cases found
  rename_i response decoded
  split at found
  on_goal 2 => cases found
  rename_i correlates
  simp only [consumeLive, consume, Context.checkpoint, decoded, consumeResponse,
    Option.isSome_none, Bool.false_eq_true, if_false, correlates, Bool.not_true]
  cases strict : codec.decodeStrictJsonrpcResponse maxMessageSize event with
  | error => simp [strict, Except.toOption] at found
  | ok admitted =>
    simp only [strict, Except.toOption, Option.some.injEq] at found
    simp only [found]

theorem consumeLive_other (noNotification : notificationOf codec maxMessageSize event = none)
    (noResponse : responseOf codec requestId maxMessageSize event = none)
    (delivered : List types.Request) :
    ∃ error, consumeLive codec requestId maxMessageSize event ⟨none, delivered⟩ =
      (.error error, ⟨none, delivered⟩) := by
  unfold notificationOf at noNotification
  unfold responseOf at noResponse
  unfold consumeLive consume
  simp only [Context.checkpoint]
  rcases decoded : codec.decodeCompleteMessage maxMessageSize event with error | request | response
  · exact ⟨_, rfl⟩
  · simp only [decoded, ite_eq_right_iff, reduceCtorEq, imp_false] at noNotification
    cases named : codec.requestId request with
    | none => simp [named] at noNotification
    | some id => exact ⟨.nonNotificationRequest id, by simp [consumeRequest, named]⟩
  · simp only [decoded] at noResponse
    simp only [consumeResponse, Option.isSome_none, Bool.false_eq_true, if_false]
    by_cases correlates : (codec.responseId response).any (codec.correlatesWith · requestId)
    · rw [if_pos correlates] at noResponse
      cases strict : codec.decodeStrictJsonrpcResponse maxMessageSize event with
      | error error => exact ⟨.responseAdmission error, by simp [correlates]⟩
      | ok admitted => simp [strict, Except.toOption] at noResponse
    · exact ⟨_, if_pos (by simpa using correlates)⟩

variable (codec requestId maxMessageSize) in
/-- No event may follow the response. -/
theorem consumeLive_terminated (event : Text) (admission : types.Admission)
    (delivered : List types.Request) :
    ∃ error, consumeLive codec requestId maxMessageSize event ⟨some admission, delivered⟩ =
      (.error error, ⟨some admission, delivered⟩) := by
  unfold consumeLive consume
  simp only [Context.checkpoint]
  rcases codec.decodeCompleteMessage maxMessageSize event with error | request | response
  · exact ⟨_, rfl⟩
  · exact ⟨_, rfl⟩
  · exact ⟨_, rfl⟩

/-! ## What it does with all events -/

variable (codec requestId maxMessageSize) in
theorem feed_terminated (payloads : List Text) (admission : types.Admission)
    (delivered : List types.Request) :
    ∃ result, feed (consumeLive codec requestId maxMessageSize) payloads
        ⟨some admission, delivered⟩ = (result, ⟨some admission, delivered⟩) ∧
      (result = .ok () ↔ payloads = []) := by
  cases payloads with
  | nil => exact ⟨_, rfl, by simp⟩
  | cons payload payloads =>
    obtain ⟨error, refused⟩ :=
      consumeLive_terminated codec requestId maxMessageSize payload admission delivered
    exact ⟨.error error, by simp only [feed, refused], by simp⟩

/-- The notifications handed out are those at the front, whether the events are refused or not. -/
theorem feed_delivered (payloads : List Text) (delivered : List types.Request) :
    (feed (consumeLive codec requestId maxMessageSize) payloads ⟨none, delivered⟩).2.delivered =
      delivered ++ leadingNotifications codec maxMessageSize payloads := by
  induction payloads generalizing delivered with
  | nil => simp [feed, leadingNotifications]
  | cons payload payloads ih =>
    cases notified : notificationOf codec maxMessageSize payload with
    | some notification =>
      simp only [feed, consumeLive_notification notified, leadingNotifications, notified, ih]
      simp
    | none =>
      simp only [leadingNotifications, notified, List.append_nil]
      cases answered : responseOf codec requestId maxMessageSize payload with
      | some admission =>
        obtain ⟨result, fed, -⟩ := feed_terminated codec requestId maxMessageSize payloads
          admission delivered
        simp only [feed, consumeLive_response answered, fed]
      | none =>
        obtain ⟨error, refused⟩ := consumeLive_other notified answered delivered
        simp only [feed, refused]

/-- All events are taken and leave a response exactly when they are a well-formed answer. -/
theorem feed_answered (payloads : List Text) (delivered : List types.Request)
    (admission : types.Admission) :
    (∃ progress, feed (consumeLive codec requestId maxMessageSize) payloads ⟨none, delivered⟩ =
        (.ok (), progress) ∧ progress.terminal = some admission) ↔
      Answers codec requestId maxMessageSize payloads admission := by
  induction payloads generalizing delivered with
  | nil => simp [feed, Answers]
  | cons payload payloads ih =>
    cases notified : notificationOf codec maxMessageSize payload with
    | some notification =>
      rw [answers_cons_notification notified]
      simp only [feed, consumeLive_notification notified]
      exact ih _
    | none =>
      rw [answers_cons_other notified]
      cases answered : responseOf codec requestId maxMessageSize payload with
      | some found =>
        obtain ⟨result, fed, complete⟩ := feed_terminated codec requestId maxMessageSize payloads
          found delivered
        simp only [feed, consumeLive_response answered, fed, Prod.mk.injEq, Option.some.injEq]
        constructor
        · rintro ⟨progress, ⟨taken, rfl⟩, same⟩
          exact ⟨complete.mp taken, Option.some.inj same⟩
        · rintro ⟨noFurther, rfl⟩
          exact ⟨_, ⟨complete.mpr noFurther, rfl⟩, rfl⟩
      | none =>
        obtain ⟨error, refused⟩ := consumeLive_other notified answered delivered
        simp [feed, refused]

/-! ## Prefixes of a response -/

/-- A stream that has been refused, by its budgets or for one of its events, after the given
notifications. -/
inductive Stopped (codec : MessageCodec types) (requestId : types.RequestId)
    (limits : ModernSseLimits) (content : Bytes) : List types.Request → Prop where
  | exceeded {front : Bytes} {byte : UInt8} {progress : Progress types}
      (begins : front ++ [byte] <+: content) (within : refusal limits.forClient front = none)
      (exceeds : refusal limits.forClient (front ++ [byte]) ≠ none)
      (fed : feed (consumeLive codec requestId limits.eventBytes) (reference front).payloads
        .start = (.ok (), progress)) :
      Stopped codec requestId limits content progress.delivered
  | refused {front : Bytes} {error : ModernHttpSseCollectorError types} {progress : Progress types}
      (begins : front <+: content) (within : refusal limits.forClient front = none)
      (fed : feed (consumeLive codec requestId limits.eventBytes) (reference front).payloads
        .start = (.error error, progress)) :
      Stopped codec requestId limits content progress.delivered

/-- The collector after a prefix of a stream: it holds what the prefix leaves open, or it is closed
for good. -/
inductive Stage (codec : MessageCodec types) (requestId : types.RequestId)
    (limits : ModernSseLimits) (content : Bytes) :
    ModernHttpSseCollector types → List types.Request → Prop where
  | receiving {decoder : ModernSseDecoder} {payloads : List Text} {progress : Progress types}
      (framed : Framed limits content decoder payloads)
      (fed : feed (consumeLive codec requestId limits.eventBytes) payloads .start =
        (.ok (), progress)) :
      Stage codec requestId limits content
        ⟨requestId, some decoder, limits.eventBytes, progress.terminal⟩ progress.delivered
  | closed {delivered : List types.Request}
      (stopped : Stopped codec requestId limits content delivered) :
      Stage codec requestId limits content ⟨requestId, none, limits.eventBytes, none⟩ delivered

variable {limits : ModernSseLimits} {content : Bytes} {delivered : List types.Request}
  {collector : ModernHttpSseCollector types}

theorem Stopped.append (stopped : Stopped codec requestId limits content delivered) (rest : Bytes) :
    Stopped codec requestId limits (content ++ rest) delivered := by
  cases stopped with
  | exceeded begins within exceeds fed =>
    exact .exceeded (begins.trans (List.prefix_append _ _)) within exceeds fed
  | refused begins within fed => exact .refused (begins.trans (List.prefix_append _ _)) within fed

theorem feed_start_delivered {result : Except (ModernHttpSseCollectorError types) Unit}
    {payloads : List Text} {progress : Progress types}
    (fed : feed (consumeLive codec requestId maxMessageSize) payloads .start = (result, progress)) :
    progress.delivered = leadingNotifications codec maxMessageSize payloads := by
  have delivered := @feed_delivered _ codec requestId maxMessageSize payloads []
  rw [List.nil_append] at delivered
  rw [← delivered]
  exact congrArg (·.2.delivered) fed.symm

/-- Events that are refused are refused whatever follows them. -/
theorem feed_refused {error : ModernHttpSseCollectorError types} {front content : Bytes}
    {progress : Progress types} (begins : front <+: content)
    (fed : feed (consumeLive codec requestId maxMessageSize) (reference front).payloads .start =
      (.error error, progress)) :
    feed (consumeLive codec requestId maxMessageSize) (reference content).payloads .start =
      (.error error, progress) := by
  obtain ⟨more, same⟩ := reference_payloads_mono begins
  rw [← same, feed_append, fed]

theorem Stopped.delivered_eq (stopped : Stopped codec requestId limits content delivered) :
    ∃ front, LongestWithin limits.forClient content front ∧
      delivered = leadingNotifications codec limits.eventBytes (reference front).payloads := by
  cases stopped with
  | exceeded begins within exceeds fed =>
    exact ⟨_, .of_exceeds begins within exceeds, feed_start_delivered fed⟩
  | refused begins within fed =>
    obtain ⟨front, longest⟩ := exists_longestWithin limits.forClient content
    refine ⟨front, longest, ?_⟩
    exact feed_start_delivered (feed_refused (longest.longest _ begins within) fed)

/-- Nothing that follows makes a refused stream well formed. -/
theorem Stopped.not_answers (stopped : Stopped codec requestId limits content delivered)
    (within : refusal limits.forClient content = none) (admission : types.Admission) :
    ¬ Answers codec requestId limits.eventBytes (reference content).payloads admission := by
  intro answers
  cases stopped with
  | exceeded begins _ exceeds _ => exact exceeds (refusal_of_begins begins within)
  | refused begins _ fed =>
    obtain ⟨progress, taken, -⟩ := (feed_answered _ [] admission).mpr answers
    exact nomatch (feed_refused begins fed).symm.trans taken

theorem Stage.delivered_eq (stage : Stage codec requestId limits content collector delivered) :
    ∃ front, LongestWithin limits.forClient content front ∧
      delivered = leadingNotifications codec limits.eventBytes (reference front).payloads := by
  cases stage with
  | receiving framed fed =>
    refine ⟨content, ⟨List.prefix_refl _, framed.notRefused, fun _ begins _ => begins⟩, ?_⟩
    rw [feed_start_delivered fed, framed.payloads_eq]
  | closed stopped => exact stopped.delivered_eq

/-- One chunk keeps the stage, and it is answered well exactly when the collector stays open. -/
theorem Stage.push (stage : Stage codec requestId limits content collector delivered)
    (chunk : Bytes) {result : Except (ModernHttpSseCollectorError types) Unit}
    {pushed : ModernHttpSseCollector types} {more : List types.Request}
    (answer : collector.push codec .live chunk (fun _ => .ok ()) delivered =
      (result, pushed, more)) :
    Stage codec requestId limits (content ++ chunk) pushed more ∧
      (result.isOk ∧ collector.decoder.isSome ↔ pushed.decoder.isSome) := by
  cases stage with
  | closed stopped =>
    cases answer
    exact ⟨.closed (stopped.append chunk), by simp⟩
  | @receiving decoder payloads progress framed fed =>
    have consumed := framed.pushBytes fed chunk
    simp only [ModernHttpSseCollector.push, Context.checkpoint, ModernSseDecoder.pushWith,
      framed.notPoisoned, Bool.false_eq_true, if_false] at answer
    change Consumed _ _ _ _ (ModernSseDecoder.pushBytes
      (consume codec requestId limits.eventBytes .live fun _ => .ok ()) chunk decoder
        ⟨progress.terminal, progress.delivered⟩) at consumed
    generalize ModernSseDecoder.pushBytes _ _ _ _ = outcome at answer consumed
    cases consumed with
    | ok framed fed =>
      cases answer
      exact ⟨.receiving framed fed, by simp [Except.isOk, Except.toBool]⟩
    | exceeded begins within exceeds fed =>
      cases answer
      exact ⟨.closed (.exceeded begins within exceeds fed), by
        simp [Except.isOk, Except.toBool, refuse]⟩
    | refused begins within fed =>
      cases answer
      exact ⟨.closed (.refused begins within fed), by
        simp [Except.isOk, Except.toBool, refuse]⟩

theorem Stage.pushAll (stage : Stage codec requestId limits content collector delivered)
    (chunks : List Bytes) :
    Stage codec requestId limits (content ++ chunks.flatten)
        (collector.pushAll codec delivered chunks).2.1
        (collector.pushAll codec delivered chunks).2.2 ∧
      ((∀ result ∈ (collector.pushAll codec delivered chunks).1, result.isOk) ∧
          collector.decoder.isSome ↔
        (collector.pushAll codec delivered chunks).2.1.decoder.isSome) := by
  induction chunks generalizing content collector delivered with
  | nil => exact ⟨by simpa [ModernHttpSseCollector.pushAll] using stage, by
      simp [ModernHttpSseCollector.pushAll]⟩
  | cons chunk chunks ih =>
    rcases answer : collector.push codec .live chunk (fun _ => .ok ()) delivered with
      ⟨result, pushed, more⟩
    obtain ⟨next, stays⟩ := stage.push chunk answer
    obtain ⟨last, allStay⟩ := ih next
    rw [List.flatten_cons, ← List.append_assoc]
    simp only [ModernHttpSseCollector.pushAll, answer, List.forall_mem_cons]
    refine ⟨last, ?_⟩
    rw [← allStay, ← stays]
    tauto

/-! ## The end of a response -/

/-- A lone byte-order mark is reported as a line, but it has no response anyway. -/
theorem finish_clean_iff {admission : types.Admission} :
    ((reference content).fields = [] ∧ (cutLines content).2 = []) ∧
        Answers codec requestId maxMessageSize (reference content).payloads admission ↔
      referenceEnd content = ⟨false, false⟩ ∧
        Answers codec requestId maxMessageSize (reference content).payloads admission := by
  refine and_congr_left fun answers => ?_
  have notMark : content ≠ utf8Bom := by
    rintro rfl
    obtain ⟨notifications, final, noPayloads, -⟩ := answers
    exact absurd noPayloads.symm (by simp [show (reference utf8Bom).payloads = [] from rfl])
  have partialLine := (remainder_eq_iff content).mpr notMark
  simp only [referenceEnd] at partialLine ⊢
  rw [← partialLine]
  simp

theorem Stage.finishAdmission (stage : Stage codec requestId limits content collector delivered)
    (admission : types.Admission) :
    (collector.decoder.isSome ∧ (collector.finishAdmission .live).1 = .ok admission) ↔
      refusal limits.forClient content = none ∧ referenceEnd content = ⟨false, false⟩ ∧
        Answers codec requestId limits.eventBytes (reference content).payloads admission := by
  cases stage with
  | closed stopped =>
    constructor
    · exact fun taken => nomatch taken.1
    · exact fun ⟨within, _, answers⟩ => absurd answers (stopped.not_answers within admission)
  | @receiving decoder payloads progress framed fed =>
    have answered : progress.terminal = some admission ↔
        Answers codec requestId limits.eventBytes (reference content).payloads admission := by
      rw [← feed_answered _ [], ← framed.payloads_eq]
      constructor
      · exact fun retained => ⟨progress, fed, retained⟩
      · rintro ⟨other, same, retained⟩
        cases fed.symm.trans same
        exact retained
    rw [← finish_clean_iff, ← answered]
    simp only [ModernHttpSseCollector.finishAdmission, Context.checkpoint, framed.finish,
      framed.notRefused, Option.isSome_some, true_and]
    by_cases clean : (reference content).fields = [] ∧ (cutLines content).2 = []
    · cases retained : progress.terminal <;> simp [clean]
    · simp [clean, not_and_or.mp clean]

/-! ## After a refusal -/

theorem perform_closed (codec : MessageCodec types) (closed : collector.decoder = none)
    (delivered : List types.Request) (call : CollectorCall types) :
    (call.perform codec collector delivered).1 = true ∧
      (call.perform codec collector delivered).2.1.decoder = none ∧
      (call.perform codec collector delivered).2.2 = delivered := by
  cases call with
  | push context chunk deliverNotification =>
    cases context <;>
      simp [CollectorCall.perform, ModernHttpSseCollector.push, Context.checkpoint, closed, refuse,
        Except.isOk, Except.toBool]
  | finishAdmission context =>
    cases context <;>
      simp [CollectorCall.perform, ModernHttpSseCollector.finishAdmission, Context.checkpoint,
        closed, refuse, Except.isOk, Except.toBool]

theorem push_failed (codec : MessageCodec types) (context : Context types) (chunk : Bytes)
    (deliverNotification : types.Request → Except types.TransportError Unit)
    (failed : (collector.push codec context chunk deliverNotification delivered).1.isOk = false) :
    (collector.push codec context chunk deliverNotification delivered).2.1.decoder = none := by
  unfold ModernHttpSseCollector.push at failed ⊢
  split
  · rfl
  split
  · assumption
  split
  · rfl
  · rfl
  split
  · rfl
  · simp_all [Except.isOk, Except.toBool]

theorem finishAdmission_closes (collector : ModernHttpSseCollector types)
    (context : Context types) : (collector.finishAdmission context).2.decoder = none := by
  unfold ModernHttpSseCollector.finishAdmission
  split
  · rfl
  split
  · assumption
  dsimp only
  split
  · rfl
  split
  · rfl
  split <;> rfl

theorem perform_failed (codec : MessageCodec types) (call : CollectorCall types)
    (failed : (call.perform codec collector delivered).1 = true) :
    (call.perform codec collector delivered).2.1.decoder = none := by
  cases call with
  | push context chunk deliverNotification =>
    exact push_failed codec context chunk deliverNotification (by
      simpa [CollectorCall.perform] using failed)
  | finishAdmission context => exact finishAdmission_closes collector context

theorem performAll_closed (codec : MessageCodec types) (closed : collector.decoder = none)
    (delivered : List types.Request) (calls : List (CollectorCall types)) :
    (∀ failed ∈ (performAll codec collector delivered calls).1, failed = true) ∧
      (performAll codec collector delivered calls).2.2 = delivered := by
  induction calls generalizing collector with
  | nil => exact ⟨nofun, rfl⟩
  | cons call calls ih =>
    obtain ⟨failed, stays, same⟩ := perform_closed codec closed delivered call
    obtain ⟨failures, unchanged⟩ := ih stays
    simp only [performAll, List.forall_mem_cons, same]
    exact ⟨⟨failed, failures⟩, unchanged⟩

/-- However a response is cut into chunks, it is accepted exactly when it is well formed, within
the budgets and complete. Accepted or not, the notifications handed out are those at its front.
After a failed call every call fails and nothing is handed out. -/
theorem collects_exactly {codec : MessageCodec types} {requestId : types.RequestId}
    {limits : ModernSseLimits} {collector : ModernHttpSseCollector types}
    (created : new codec requestId limits = .ok collector) (chunks : List Bytes) :
    (∀ admission,
        ((∀ result ∈ (collector.pushAll codec [] chunks).1, result.isOk) ∧
            ((collector.pushAll codec [] chunks).2.1.finishAdmission .live).1 = .ok admission) ↔
          refusal limits.forClient chunks.flatten = none ∧
            referenceEnd chunks.flatten = ⟨false, false⟩ ∧
            Answers codec requestId limits.eventBytes (reference chunks.flatten).payloads
              admission) ∧
      (∃ front, LongestWithin limits.forClient chunks.flatten front ∧
        (collector.pushAll codec [] chunks).2.2 =
          leadingNotifications codec limits.eventBytes (reference front).payloads) ∧
      ∀ (state : ModernHttpSseCollector types) delivered call calls,
        let after := CollectorCall.perform codec state delivered call
        after.1 = true →
          (∀ failed ∈ (performAll codec after.2.1 after.2.2 calls).1, failed = true) ∧
            (performAll codec after.2.1 after.2.2 calls).2.2 = after.2.2 := by
  unfold new at created
  split at created
  on_goal 2 => cases created
  cases created
  have start : Stage codec requestId limits [] ⟨requestId, some (.new limits), limits.eventBytes,
      none⟩ [] := @Stage.receiving _ _ _ _ _ _ _ Progress.start (.new limits) rfl
  obtain ⟨last, stays⟩ := start.pushAll chunks
  rw [List.nil_append] at last
  simp only [Option.isSome_some, and_true] at stays
  refine ⟨fun admission => ?_, last.delivered_eq, ?_⟩
  · rw [stays]
    exact last.finishAdmission admission
  · intro state delivered call calls after failed
    exact performAll_closed codec (perform_failed codec call failed) after.2.2 calls

/-- Messages of one letter: a notification, and the response to request seven. -/
def letterTypes : MessageTypes := ⟨Nat, Char, Unit, Char, Unit, Unit, Unit⟩

def letterCodec : MessageCodec letterTypes where
  validate _ := true
  correlatesWith actual expected := Nat.beq actual expected
  requestId _ := none
  responseId _ := some (7 : Nat)
  decodeCompleteMessage _ event :=
    if event = ['n'] then .ok (.request 'n') else if event = ['r'] then .ok (.response ())
    else .error ()
  decodeStrictJsonrpcResponse _ event :=
    match event with
    | [letter] => .ok letter
    | _ => .error ()

def letterLimits : ModernSseLimits := ⟨16, 16, 2, by decide, by decide, by decide⟩

/-- A notification and the response in three chunks, the first cut inside a field. -/
theorem collects_exactly_letters :
    ∃ collector, new letterCodec (7 : Nat) letterLimits = .ok collector ∧
      (∀ result ∈ (collector.pushAll letterCodec []
        [bytes "da", bytes "ta:n\n\ndata", bytes ":r\n\n"]).1, result.isOk) ∧
      ((collector.pushAll letterCodec []
        [bytes "da", bytes "ta:n\n\ndata", bytes ":r\n\n"]).2.1.finishAdmission .live).1 =
        .ok 'r' := by
  have created : new letterCodec (7 : Nat) letterLimits =
      .ok ⟨(7 : Nat), some (.new letterLimits), 16, none⟩ := rfl
  refine ⟨_, created, ((collects_exactly created _).1 _).mpr ?_⟩
  refine ⟨?_, ?_, [['n']], ['r'], ?_, ?_, rfl⟩
  all_goals decide

end ModernHttpSseCollector

end FastMcp.Http
