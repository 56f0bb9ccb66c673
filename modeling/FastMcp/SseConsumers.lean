import FastMcp.SseAgreement
import FastMcp.SseConformance

/-! # The decoder and its consumer

The transport's decoder hands each payload to a consumer as soon as its event is
complete, and a consumer that refuses one stops it. The decoder does not look at
what the consumer does, so after any chunks the consumer has been fed the
payloads of the stream, up to the first that it refuses or to the byte at which
the stream exceeds a budget.
-/

namespace FastMcp.Sse

open ByteText LossyUtf8 MachineWords

/-! ## One byte, whoever consumes -/

/-- What a decoder does for every consumer and whatever the consumer has done before. -/
abbrev Answer :=
  ∀ (Refusal Sink : Type), (Text → Sink → Except Refusal Unit × Sink) → Sink →
    Except (ModernSsePushError Refusal) Unit × ModernSseDecoder × Sink

/-- No payload is handed out, or one is and the consumer decides, or the decoder itself refuses. -/
inductive Dispatching (answer : Answer) : Prop where
  | quiet (next : ModernSseDecoder)
      (answers : ∀ Refusal Sink consume sink, answer Refusal Sink consume sink =
        (.ok (), next, sink))
  | dispatches (payload : Text) (next refused : ModernSseDecoder)
      (answers : ∀ Refusal Sink consume sink, answer Refusal Sink consume sink =
        match consume payload sink with
        | (.ok (), sink) => (.ok (), next, sink)
        | (.error error, sink) => (.error (.consumer error), refused, sink))
  | refuses (error : ModernSseParseError) (next : ModernSseDecoder)
      (answers : ∀ Refusal Sink consume sink, answer Refusal Sink consume sink =
        (.error (.parse error), next, sink))

namespace ModernSseDecoder

theorem countInertLine_dispatching (decoder : ModernSseDecoder) :
    Dispatching fun _ _ _ sink => decoder.countInertLine sink := by
  unfold countInertLine
  dsimp only
  split
  · exact .refuses _ _ fun _ _ _ _ => rfl
  · exact .quiet _ fun _ _ _ _ => rfl

theorem processLine_dispatching (decoder : ModernSseDecoder) (line : Text) (rawLen : Nat) :
    Dispatching fun _ _ consume sink => decoder.processLine consume line rawLen sink := by
  unfold processLine
  dsimp only
  split
  · split
    · exact decoder.countInertLine_dispatching
    · exact .dispatches _ _ _ fun _ _ _ _ => rfl
  split
  · exact decoder.countInertLine_dispatching
  split
  · exact decoder.countInertLine_dispatching
  split
  · exact .refuses _ _ fun _ _ _ _ => rfl
  · exact .quiet _ fun _ _ _ _ => rfl

theorem completeLine_dispatching (decoder : ModernSseDecoder) :
    Dispatching fun _ _ consume sink => decoder.completeLine consume sink := by
  unfold completeLine
  dsimp only
  generalize (if decoder.bomWindowOpen = true then stripBom decoder.rawLine
    else decoder.rawLine) = raw
  split
  · exact .refuses _ _ fun _ _ _ _ => rfl
  · exact processLine_dispatching _ _ _

theorem pushByte_dispatching (decoder : ModernSseDecoder) (byte : UInt8) :
    Dispatching fun _ _ consume sink => pushBytes consume [byte] decoder sink := by
  unfold pushBytes
  dsimp only
  split
  · exact .quiet _ fun _ _ _ _ => rfl
  split
  · cases completeLine_dispatching { decoder with pendingCr := false } with
    | quiet next answers =>
      exact .quiet _ fun _ _ _ _ => by rw [answers]; rfl
    | dispatches payload next refused answers =>
      refine .dispatches payload { next with pendingCr := byte = carriageReturn } refused
        fun Refusal Sink consume sink => ?_
      rw [answers]
      rcases consume payload sink with ⟨_ | _, after⟩ <;> rfl
    | refuses error next answers =>
      exact .refuses error _ fun _ _ _ _ => by rw [answers]; rfl
  split
  · exact .refuses _ _ fun _ _ _ _ => rfl
  · exact .quiet _ fun _ _ _ _ => rfl

variable {Refusal Sink : Type} (consume : Text → Sink → Except Refusal Unit × Sink)

theorem pushBytes_cons (byte : UInt8) (rest : Bytes) (decoder : ModernSseDecoder) (sink : Sink) :
    pushBytes consume (byte :: rest) decoder sink =
      match pushBytes consume [byte] decoder sink with
      | (.ok (), next, sink) => pushBytes consume rest next sink
      | (.error error, next, sink) => (.error error, next, sink) := by
  simp only [pushBytes]
  split
  · rfl
  split
  · rcases completeLine consume { decoder with pendingCr := false } sink with ⟨_ | _, _, _⟩ <;> rfl
  split <;> rfl

end ModernSseDecoder

/-! ## Prefixes of a stream -/

/-- The same budgets for the client's parser, without one for the number of data fields. -/
def ModernSseLimits.forClient (limits : ModernSseLimits) : SseLimits :=
  ⟨limits.lineBytes, limits.eventBytes, limits.keepaliveLines, usizeMax, limits.lineBytes_pos,
    limits.eventBytes_pos, limits.keepaliveLines_pos, by decide⟩

/-- The decoder after a prefix of a stream that exceeds no budget. -/
def Framed (limits : ModernSseLimits) (content : Bytes) (decoder : ModernSseDecoder)
    (payloads : List Text) : Prop :=
  ∃ parser, Agree parser decoder ∧ After limits.forClient content parser payloads

/-- One byte of a stream: what the decoder does and what the byte means. -/
inductive FramedStep (limits : ModernSseLimits) (content : Bytes) (payloads : List Text)
    (answer : Answer) : Prop where
  | quiet (next : ModernSseDecoder)
      (answers : ∀ Refusal Sink consume sink, answer Refusal Sink consume sink =
        (.ok (), next, sink))
      (framed : Framed limits content next payloads)
  | dispatches (payload : Text) (next refused : ModernSseDecoder)
      (answers : ∀ Refusal Sink consume sink, answer Refusal Sink consume sink =
        match consume payload sink with
        | (.ok (), sink) => (.ok (), next, sink)
        | (.error error, sink) => (.error (.consumer error), refused, sink))
      (framed : Framed limits content next (payloads ++ [payload]))
  | refuses (error : ModernSseParseError) (next : ModernSseDecoder)
      (answers : ∀ Refusal Sink consume sink, answer Refusal Sink consume sink =
        (.error (.parse error), next, sink))
      (exceeds : refusal limits.forClient content ≠ none)

section Prefixes

variable {limits : ModernSseLimits} {content : Bytes} {decoder : ModernSseDecoder}
  {payloads : List Text}

theorem Framed.new (limits : ModernSseLimits) : Framed limits [] (.new limits) [] :=
  ⟨.new limits.forClient, ⟨rfl, rfl, rfl, rfl, rfl, rfl, rfl, rfl, rfl, rfl, rfl, .inl rfl⟩,
    After.new _⟩

theorem Framed.notRefused (framed : Framed limits content decoder payloads) :
    refusal limits.forClient content = none := by
  obtain ⟨parser, -, after⟩ := framed
  exact after.notRefused

theorem Framed.payloads_eq (framed : Framed limits content decoder payloads) :
    payloads = (reference content).payloads := by
  obtain ⟨parser, -, after⟩ := framed
  rw [after.payloads, reference, cutLines_stripBom]

theorem Framed.notPoisoned (framed : Framed limits content decoder payloads) :
    decoder.poisoned = false := by
  obtain ⟨parser, agree, after⟩ := framed
  obtain ⟨budget, -, mirrors⟩ := after.charged
  rw [← agree.poisoned, mirrors.poisoned]

/-- What the decoder reports at the end, of which it takes a lone byte-order mark for a line. -/
theorem Framed.finish (framed : Framed limits content decoder payloads) :
    decoder.finish = .ok ⟨(reference content).fields ≠ [], (cutLines content).2 ≠ []⟩ := by
  have notPoisoned := framed.notPoisoned
  obtain ⟨parser, agree, after⟩ := framed
  obtain ⟨budget, -, mirrors⟩ := after.charged
  simp only [ModernSseDecoder.finish, notPoisoned, Bool.false_eq_true, if_false, ← agree.data,
    mirrors.data, ← agree.rawLine, after.rawLine, reference, cutLines_stripBom, ne_eq,
    dataBuffer_eq_nil]

/-- The decoder that collects all payloads shows what a byte means, and every consumer is treated
as that one is. -/
theorem Framed.pushByte (framed : Framed limits content decoder payloads) (byte : UInt8) :
    FramedStep limits (content ++ [byte]) payloads
      fun _ _ consume sink => ModernSseDecoder.pushBytes consume [byte] decoder sink := by
  obtain ⟨parser, agree, after⟩ := framed
  have fresh : After limits.forClient content parser (payloads ++ []) := by simpa using after
  have same := agree.pushBytes [byte] false []
  have pushed := fresh.pushBytes [byte] false
  generalize BoundedSseParser.pushBytes _ _ _ _ _ = answer at same pushed
  cases decoder.pushByte_dispatching byte with
  | quiet next answers =>
    rw [answers] at same
    cases same with
    | ok agree =>
      cases pushed with
      | ok after => exact .quiet next answers ⟨_, agree, by simpa using after⟩
  | dispatches payload next refused answers =>
    rw [answers] at same
    cases same with
    | ok agree =>
      cases pushed with
      | ok after => exact .dispatches payload next refused answers ⟨_, agree, after⟩
  | refuses error next answers =>
    rw [answers] at same
    cases same with
    | error agree =>
      cases pushed with
      | error refused => exact .refuses error next answers (by simp [refused])

end Prefixes

/-! ## Longer prefixes -/

theorem Stream.payloads_prefix_read (stream : Stream) (line : Text) :
    stream.payloads <+: (stream.read line).payloads := by
  unfold Stream.read
  split
  · split
    · exact List.prefix_refl _
    · exact List.prefix_append _ _
  all_goals exact List.prefix_refl _

theorem reference_payloads_append_byte (content : Bytes) (byte : UInt8) :
    (reference content).payloads <+: (reference (content ++ [byte])).payloads := by
  simp only [reference, cutLines_stripBom]
  by_cases second : endsWithReturn false content = true ∧ byte = lineFeed
  · obtain ⟨pending, rfl⟩ := second
    rw [cutLines_second pending]
  by_cases ends : byte = carriageReturn ∨ byte = lineFeed
  · rw [cutLines_end second ends]
    simp only [stripFirst_append, readLines, List.map_append, List.foldl_append, List.map_cons,
      List.map_nil, List.foldl_cons, List.foldl_nil]
    exact Stream.payloads_prefix_read _ _
  · rw [cutLines_continue ends]

/-- The events of a prefix are the first events of the stream. -/
theorem reference_payloads_mono {front content : Bytes} (begins : front <+: content) :
    (reference front).payloads <+: (reference content).payloads := by
  obtain ⟨rest, rfl⟩ := begins
  induction rest generalizing front with
  | nil => simp
  | cons byte rest ih =>
    rw [List.append_cons]
    exact (reference_payloads_append_byte front byte).trans ih

theorem refusal_of_begins {limits : SseLimits} {front content : Bytes} (begins : front <+: content)
    (within : refusal limits content = none) : refusal limits front = none := by
  obtain ⟨rest, rfl⟩ := begins
  cases refused : refusal limits front with
  | none => rfl
  | some error => exact nomatch within.symm.trans (refusal_append refused rest)

/-- The part of a stream up to the byte that exceeds a budget, or all of it. -/
structure LongestWithin (limits : SseLimits) (content front : Bytes) : Prop where
  begins : front <+: content
  within : refusal limits front = none
  longest : ∀ other, other <+: content → refusal limits other = none → other <+: front

theorem exists_longestWithin (limits : SseLimits) (content : Bytes) :
    ∃ front, LongestWithin limits content front := by
  induction content using List.reverseRecOn with
  | nil => exact ⟨[], List.prefix_refl _, rfl, fun _ begins _ => begins⟩
  | append_singleton content byte ih =>
    obtain ⟨front, begins, within, longest⟩ := ih
    by_cases all : refusal limits (content ++ [byte]) = none
    · exact ⟨content ++ [byte], List.prefix_refl _, all, fun _ begins _ => begins⟩
    · refine ⟨front, begins.trans (List.prefix_append _ _), within, fun other begins within => ?_⟩
      rcases List.prefix_concat_iff.mp begins with rfl | shorter
      · exact absurd within all
      · exact longest other shorter within

theorem LongestWithin.of_exceeds {limits : SseLimits} {content front : Bytes} {byte : UInt8}
    (begins : front ++ [byte] <+: content) (within : refusal limits front = none)
    (exceeds : refusal limits (front ++ [byte]) ≠ none) : LongestWithin limits content front := by
  refine ⟨(List.prefix_append _ _).trans begins, within, fun other beginsOther withinOther => ?_⟩
  rcases List.prefix_or_prefix_of_prefix beginsOther begins with shorter | longer
  · rcases List.prefix_concat_iff.mp shorter with rfl | shorter
    · exact absurd withinOther exceeds
    · exact shorter
  · exact absurd (refusal_of_begins longer withinOther) exceeds

/-! ## Feeding a consumer -/

section Feeding

variable {Refusal Sink : Type} (consume : Text → Sink → Except Refusal Unit × Sink)

/-- The payloads one after another, up to the first that is refused. -/
def feed : List Text → Sink → Except Refusal Unit × Sink
  | [], sink => (.ok (), sink)
  | payload :: payloads, sink =>
    match consume payload sink with
    | (.ok (), sink) => feed payloads sink
    | (.error error, sink) => (.error error, sink)

theorem feed_append (front back : List Text) (sink : Sink) :
    feed consume (front ++ back) sink =
      match feed consume front sink with
      | (.ok (), sink) => feed consume back sink
      | (.error error, sink) => (.error error, sink) := by
  induction front generalizing sink with
  | nil => rfl
  | cons payload front ih =>
    simp only [List.cons_append, feed]
    rcases consume payload sink with ⟨_ | _, next⟩
    · rfl
    · exact ih next

variable {consume} {limits : ModernSseLimits} {content : Bytes} {start sink : Sink}

/-- The answer to a prefix of a stream, for a consumer that has been fed from the start. -/
inductive Consumed (limits : ModernSseLimits) (content : Bytes)
    (consume : Text → Sink → Except Refusal Unit × Sink) (start : Sink) :
    Except (ModernSsePushError Refusal) Unit × ModernSseDecoder × Sink → Prop where
  | ok {decoder : ModernSseDecoder} {payloads : List Text} {sink : Sink}
      (framed : Framed limits content decoder payloads)
      (fed : feed consume payloads start = (.ok (), sink)) :
      Consumed limits content consume start (.ok (), decoder, sink)
  | exceeded {error : ModernSseParseError} {decoder : ModernSseDecoder} {sink : Sink}
      {front : Bytes} {byte : UInt8} (begins : front ++ [byte] <+: content)
      (within : refusal limits.forClient front = none)
      (exceeds : refusal limits.forClient (front ++ [byte]) ≠ none)
      (fed : feed consume (reference front).payloads start = (.ok (), sink)) :
      Consumed limits content consume start (.error (.parse error), decoder, sink)
  | refused {error : Refusal} {decoder : ModernSseDecoder} {sink : Sink} {front : Bytes}
      (begins : front <+: content) (within : refusal limits.forClient front = none)
      (fed : feed consume (reference front).payloads start = (.error error, sink)) :
      Consumed limits content consume start (.error (.consumer error), decoder, sink)

theorem Framed.pushBytes {decoder : ModernSseDecoder} {payloads : List Text}
    (framed : Framed limits content decoder payloads)
    (fed : feed consume payloads start = (.ok (), sink)) (chunk : Bytes) :
    Consumed limits (content ++ chunk) consume start
      (ModernSseDecoder.pushBytes consume chunk decoder sink) := by
  induction chunk generalizing content decoder payloads sink with
  | nil =>
    rw [List.append_nil]
    exact .ok framed fed
  | cons byte chunk ih =>
    rw [ModernSseDecoder.pushBytes_cons, List.append_cons]
    cases framed.pushByte byte with
    | quiet next answers framed =>
      rw [answers]
      exact ih framed fed
    | dispatches payload next refused answers framed =>
      rw [answers]
      have more := feed_append consume payloads [payload] start
      rw [fed] at more
      simp only [feed] at more
      generalize consume payload sink = answer at more ⊢
      obtain ⟨_ | _, after⟩ := answer
      · exact .refused (List.prefix_append _ _) framed.notRefused (framed.payloads_eq ▸ more)
      · exact ih framed more
    | refuses error next answers exceeds =>
      rw [answers]
      exact .exceeded (List.prefix_append _ _) framed.notRefused exceeds (framed.payloads_eq ▸ fed)

end Feeding

end FastMcp.Sse
