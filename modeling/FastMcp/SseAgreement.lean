import FastMcp.SseDecoders

/-! # The two decoders agree

The client's parser has one budget more than the transport's decoder, for the
number of data fields of an event. Without a bound on that number the two go
through the same states, chunk by chunk, and give the same answers.
-/

namespace FastMcp.Sse

open ByteText LossyUtf8 MachineWords

/-- The error of the client's parser of the same class and with the same limit. -/
def ModernSseParseError.forClient : ModernSseParseError → SseParseError
  | lineTooLong limitBytes => .lineTooLong limitBytes
  | eventTooLarge limitBytes => .eventTooLarge limitBytes
  | keepaliveFlood limitLines => .keepaliveFlood limitLines
  | poisoned => .poisoned

/-- The two are in the same state, and pending data ends with a line feed. -/
structure Agree (parser : BoundedSseParser) (decoder : ModernSseDecoder) : Prop where
  lineBytes : parser.limits.lineBytes = decoder.limits.lineBytes
  eventBytes : parser.limits.eventBytes = decoder.limits.eventBytes
  keepaliveLimit : parser.limits.keepaliveLines = decoder.limits.keepaliveLines
  dataLines : parser.limits.dataLines = usizeMax
  rawLine : parser.rawLine = decoder.rawLine
  pendingCr : parser.pendingCr = decoder.pendingCr
  bomWindowOpen : parser.bomWindowOpen = decoder.bomWindowOpen
  data : parser.data = decoder.data
  eventRawBytes : parser.eventRawBytes = decoder.eventRawBytes
  keepaliveLines : parser.keepaliveLines = decoder.keepaliveLines
  poisoned : parser.poisoned = decoder.poisoned
  terminated : decoder.data = [] ∨ decoder.data.getLast? = some '\n'

/-- The two give the same answer and agree afterwards. -/
inductive SameStep :
    Except (SsePushError Empty) Bool × BoundedSseParser × List Text →
    Except (ModernSsePushError Empty) Unit × ModernSseDecoder × List Text → Prop where
  | ok {comment : Bool} {parser : BoundedSseParser} {decoder : ModernSseDecoder}
      {dispatched : List Text} (agree : Agree parser decoder) :
      SameStep (.ok comment, parser, dispatched) (.ok (), decoder, dispatched)
  | error {error : ModernSseParseError} {parser : BoundedSseParser} {decoder : ModernSseDecoder}
      {dispatched : List Text} (agree : Agree parser decoder) :
      SameStep (.error (.parse error.forClient), parser, dispatched)
        (.error (.parse error), decoder, dispatched)

namespace Agree

variable {parser : BoundedSseParser} {decoder : ModernSseDecoder}

theorem poison (agree : Agree parser decoder) : Agree parser.poison decoder.poison :=
  { agree with
    rawLine := rfl
    data := rfl
    eventRawBytes := rfl
    keepaliveLines := rfl
    poisoned := rfl
    terminated := .inl rfl }

theorem inertLine (agree : Agree parser decoder) (comment : Bool) (dispatched : List Text) :
    SameStep (parser.inertLine comment dispatched) (decoder.countInertLine dispatched) := by
  have counted : Agree
      { parser with keepaliveLines := saturatingAdd usizeMax parser.keepaliveLines 1 }
      { decoder with keepaliveLines := saturatingAdd usizeMax decoder.keepaliveLines 1 } :=
    { agree with keepaliveLines := by simp only [agree.keepaliveLines] }
  rw [BoundedSseParser.inertLine_eq]
  unfold ModernSseDecoder.countInertLine
  simp only [agree.keepaliveLimit, agree.keepaliveLines] at counted ⊢
  split
  · exact @SameStep.error (.keepaliveFlood _) _ _ _ counted
  · exact .ok counted

/-- A number of lines never exceeds the greatest size. -/
theorem dataLine (agree : Agree parser decoder) {line value : Text} (rawLen : Nat)
    (dispatched : List Text) (nonempty : line ≠ []) (noComment : line.head? ≠ some ':')
    (field : fieldOf line = (dataField, value)) :
    SameStep (parser.dataLine value rawLen dispatched)
      (decoder.processLine BoundedSseParser.collect line rawLen dispatched) := by
  have unbounded : ¬ saturatingAdd usizeMax parser.eventDataLines 1 > parser.limits.dataLines := by
    rw [agree.dataLines]
    exact Nat.not_lt.mpr (Nat.min_le_right _ _)
  unfold BoundedSseParser.dataLine ModernSseDecoder.processLine
  simp only [if_neg nonempty, if_neg noComment, field, ne_eq, not_true_eq_false, if_false,
    agree.data, agree.eventRawBytes, agree.eventBytes, if_neg unbounded]
  split
  · exact @SameStep.error (.eventTooLarge _) _ _ _ agree.poison
  · exact .ok { agree with
      data := rfl
      eventRawBytes := rfl
      keepaliveLines := rfl
      terminated := .inr (by simp) }

theorem processLine (agree : Agree parser decoder) (line : Text) (rawLen : Nat)
    (dispatched : List Text) :
    SameStep (parser.processLineWith BoundedSseParser.collect line rawLen dispatched)
      (decoder.processLine BoundedSseParser.collect line rawLen dispatched) := by
  by_cases blank : line = []
  · subst blank
    unfold BoundedSseParser.processLineWith BoundedSseParser.dispatch ModernSseDecoder.processLine
    simp only [if_true, agree.data]
    by_cases empty : decoder.data = []
    · rw [if_pos empty, if_pos empty]
      exact agree.inertLine false dispatched
    · rw [if_neg empty, if_neg empty, if_pos (agree.terminated.resolve_left empty)]
      exact .ok { agree with
        data := rfl
        eventRawBytes := rfl
        keepaliveLines := rfl
        terminated := .inl rfl }
  by_cases comment : line.head? = some ':'
  · unfold BoundedSseParser.processLineWith ModernSseDecoder.processLine
    rw [if_neg blank, if_neg blank, if_pos comment, if_pos comment]
    exact agree.inertLine true dispatched
  rcases found : fieldOf line with ⟨field, value⟩
  by_cases data : field = dataField
  · subst data
    have same := agree.dataLine rawLen dispatched blank comment found
    unfold BoundedSseParser.processLineWith
    simpa only [if_neg blank, if_neg comment, found, if_true] using same
  · unfold BoundedSseParser.processLineWith ModernSseDecoder.processLine
    simp only [if_neg blank, if_neg comment, found, ne_eq, data, not_false_eq_true, if_true]
    exact agree.inertLine false dispatched

/-- A completed line, with the poisoning that the transport's loop adds. -/
theorem completeLine (agree : Agree parser decoder) (dispatched : List Text) :
    (∃ comment completed other sink,
      parser.completeLineWith BoundedSseParser.collect dispatched = (.ok comment, completed, sink) ∧
      decoder.completeLine BoundedSseParser.collect dispatched = (.ok (), other, sink) ∧
      Agree completed other) ∨
    ∃ error completed other sink,
      parser.completeLineWith BoundedSseParser.collect dispatched =
        (.error (.parse error.forClient), completed, sink) ∧
      decoder.completeLine BoundedSseParser.collect dispatched =
        (.error (.parse error), other, sink) ∧
      Agree completed other.poison := by
  have taken : Agree
      { parser with
        rawLine := []
        bomWindowOpen := false }
      { decoder with
        rawLine := []
        bomWindowOpen := false } :=
    { agree with
      rawLine := rfl
      bomWindowOpen := rfl }
  unfold BoundedSseParser.completeLineWith ModernSseDecoder.completeLine
  simp only [agree.rawLine, agree.bomWindowOpen, agree.lineBytes]
  by_cases long : byteLength (fromUtf8Lossy
      (if decoder.bomWindowOpen = true then stripBom decoder.rawLine else decoder.rawLine)) >
      decoder.limits.lineBytes
  · simp only [if_pos long]
    exact .inr ⟨.lineTooLong _, _, _, _, rfl, rfl, taken.poison.poison⟩
  · simp only [if_neg long]
    have same := taken.processLine (fromUtf8Lossy
      (if decoder.bomWindowOpen = true then stripBom decoder.rawLine else decoder.rawLine))
      (if decoder.bomWindowOpen = true then stripBom decoder.rawLine else decoder.rawLine).length
      dispatched
    generalize BoundedSseParser.processLineWith _ _ _ _ _ = first at same ⊢
    generalize ModernSseDecoder.processLine _ _ _ _ _ = second at same ⊢
    cases same with
    | ok agree => exact .inl ⟨_, _, _, _, rfl, rfl, agree⟩
    | error agree => exact .inr ⟨_, _, _, _, rfl, rfl, agree.poison⟩

theorem pushBytes (agree : Agree parser decoder) (chunk : Bytes) (activity : Bool)
    (dispatched : List Text) :
    SameStep (BoundedSseParser.pushBytes BoundedSseParser.collect chunk activity parser dispatched)
      (ModernSseDecoder.pushBytes BoundedSseParser.collect chunk decoder dispatched) := by
  induction chunk generalizing parser decoder activity dispatched with
  | nil => exact .ok agree
  | cons byte chunk ih =>
    have resumed : Agree { parser with pendingCr := false } { decoder with pendingCr := false } :=
      { agree with pendingCr := rfl }
    unfold BoundedSseParser.pushBytes ModernSseDecoder.pushBytes
    rw [agree.rawLine] at resumed
    simp only [agree.pendingCr, agree.rawLine, agree.lineBytes]
    split
    · exact ih resumed activity dispatched
    split
    · rcases resumed.completeLine dispatched with
        ⟨comment, completed, other, sink, first, second, same⟩ |
        ⟨error, completed, other, sink, first, second, same⟩
      · rw [first, second]
        have next : Agree { completed with pendingCr := byte == 13 }
            { other with pendingCr := byte == 13 } := { same with pendingCr := rfl }
        exact ih next _ sink
      · rw [first, second]
        exact .error same
    split
    · exact @SameStep.error (.lineTooLong _) _ _ _ resumed.poison
    · have longer :
          Agree
            { parser with
              pendingCr := false
              rawLine := decoder.rawLine ++ [byte] }
            { decoder with
              pendingCr := false
              rawLine := decoder.rawLine ++ [byte] } := { resumed with rawLine := rfl }
      exact ih longer activity dispatched

/-- One chunk: the same payloads or errors of the same class with the same limit. -/
theorem push (agree : Agree parser decoder) (chunk : Bytes) :
    (parser.push chunk).1 = (decoder.push chunk).1.mapError ModernSseParseError.forClient ∧
      Agree (parser.push chunk).2 (decoder.push chunk).2 := by
  unfold BoundedSseParser.push ModernSseDecoder.push BoundedSseParser.pushWith
    ModernSseDecoder.pushWith
  rw [agree.poisoned]
  by_cases poisoned : decoder.poisoned = true
  · simp only [if_pos poisoned]
    exact ⟨rfl, agree⟩
  · simp only [if_neg poisoned]
    have same := agree.pushBytes chunk false []
    generalize BoundedSseParser.pushBytes _ _ _ _ _ = first at same ⊢
    generalize ModernSseDecoder.pushBytes _ _ _ _ = second at same ⊢
    cases same with
    | ok agree => exact ⟨rfl, agree⟩
    | error agree => exact ⟨rfl, agree⟩

theorem pushAll (agree : Agree parser decoder) (chunks : List Bytes) :
    (parser.pushAll chunks).1 =
        (decoder.pushAll chunks).1.map (Except.mapError ModernSseParseError.forClient) ∧
      Agree (parser.pushAll chunks).2 (decoder.pushAll chunks).2 := by
  induction chunks generalizing parser decoder with
  | nil => exact ⟨rfl, agree⟩
  | cons chunk chunks ih =>
    obtain ⟨result, pushed⟩ := agree.push chunk
    obtain ⟨results, last⟩ := ih pushed
    refine ⟨?_, last⟩
    simp only [BoundedSseParser.pushAll, ModernSseDecoder.pushAll, List.map_cons, result, results]

end Agree

/-- Pushed the same chunks under the same limits, and no limit on data fields, the two decoders
answer every call alike and report the same end. -/
theorem decoders_agree {lineBytes eventBytes keepaliveLines : Nat} {limits : SseLimits}
    {modernLimits : ModernSseLimits}
    (clientLimits : SseLimits.new lineBytes eventBytes keepaliveLines = some limits)
    (transportLimits :
      ModernSseLimits.new lineBytes eventBytes keepaliveLines = some modernLimits)
    (chunks : List Bytes) :
    ((BoundedSseParser.new limits).pushAll chunks).1 =
        ((ModernSseDecoder.new modernLimits).pushAll chunks).1.map
          (Except.mapError ModernSseParseError.forClient) ∧
      ((BoundedSseParser.new limits).pushAll chunks).2.finish =
        (((ModernSseDecoder.new modernLimits).pushAll chunks).2.finish.map fun report =>
          ⟨report.discardedPendingEvent, report.discardedPartialLine⟩).mapError
            ModernSseParseError.forClient := by
  have agree : Agree (.new limits) (.new modernLimits) := by
    unfold SseLimits.new SseLimits.withDataLines at clientLimits
    unfold ModernSseLimits.new at transportLimits
    split at clientLimits
    on_goal 2 => cases clientLimits
    split at transportLimits
    on_goal 2 => cases transportLimits
    cases clientLimits
    cases transportLimits
    exact ⟨rfl, rfl, rfl, rfl, rfl, rfl, rfl, rfl, rfl, rfl, rfl, .inl rfl⟩
  obtain ⟨results, last⟩ := agree.pushAll chunks
  refine ⟨results, ?_⟩
  unfold BoundedSseParser.finish ModernSseDecoder.finish
  rw [last.poisoned, last.data, last.rawLine]
  split <;> rfl

/-- One event in two chunks, and a comment that is one too many. -/
theorem decoders_agree_flood :
    SseLimits.new 8 16 1 = some ⟨8, 16, 1, usizeMax, by decide, by decide, by decide, by decide⟩ ∧
      ((BoundedSseParser.new ⟨8, 16, 1, usizeMax, by decide, by decide, by decide, by decide⟩).pushAll
          [bytes "data", bytes ":a\n\n", bytes ":b\n:c\n", bytes "x"]).1 =
        ((ModernSseDecoder.new ⟨8, 16, 1, by decide, by decide, by decide⟩).pushAll
          [bytes "data", bytes ":a\n\n", bytes ":b\n:c\n", bytes "x"]).1.map
            (Except.mapError ModernSseParseError.forClient) :=
  ⟨rfl, (@decoders_agree 8 16 1 _ _ rfl rfl _).1⟩

end FastMcp.Sse
