import FastMcp.StdioReader

/-! # Frames of the stdio transport

As long as the transport is open, no byte was given up: the lines before the current one,
empty ones included, were completed, and what was handed to the codec are their contents.
Whatever gives up a line or a part of one closes the transport.
-/

namespace FastMcp.Stdio

open BufferedReaders ByteLines ByteSources ByteText MeasuredLoops

variable {Failure Rejection Message : Type} {maxFrameSize : Nat}

/-! ## Reading a line -/

/-- How the read of a line ends, which begins with the given bytes. The proposition says that
nothing stopped it. -/
inductive LineRead (maxFrameSize : Nat) (ahead : Bytes) (undisturbed : Prop) :
    LineResult Failure Rejection → Prop where
  | line {state : Receiving Failure}
      (cut : lines ahead =
        state.transport.lineBuffer :: lines state.transport.reader.pending)
      (fits : (content state.transport.lineBuffer).length ≤ maxFrameSize)
      (isOpen : state.transport.closed = false)
      (complete : state.transport.lineInProgress = false)
      (calm : undisturbed → state.Undisturbed) :
      LineRead maxFrameSize ahead undisturbed
        (.ok (content state.transport.lineBuffer).length, state)
  | tooLong {state : Receiving Failure} {line : Bytes} {later : List Bytes} {size : Nat}
      (cut : lines ahead = line :: later) (long : maxFrameSize < (content line).length) :
      LineRead maxFrameSize ahead undisturbed
        (.error (.codec (.messageTooLarge size)), state)
  | ended {state : Receiving Failure} (nothing : ahead = []) :
      LineRead maxFrameSize ahead undisturbed (.error .closed, state)
  | stopped {state : Receiving Failure} {error : TransportError Failure Rejection}
      (soft : error.isTerminal = false) (disturbed : ¬undisturbed)
      (kept : state.transport.closed = false →
        state.transport.ahead = ahead ∧ lineFeed ∉ state.transport.carried) :
      LineRead maxFrameSize ahead undisturbed (.error error, state)

namespace LineRead

variable {ahead : Bytes} {undisturbed : Prop} {state : Receiving Failure}

theorem weaken {other : Prop} {result : LineResult Failure Rejection}
    (read : LineRead maxFrameSize ahead other result) (implies : undisturbed → other) :
    LineRead maxFrameSize ahead undisturbed result := by
  cases read with
  | line cut fits isOpen complete calm => exact .line cut fits isOpen complete (calm ∘ implies)
  | tooLong cut long => exact .tooLong cut long
  | ended nothing => exact .ended nothing
  | stopped soft disturbed kept => exact .stopped soft (disturbed ∘ implies) kept

/-- A whole line is in the buffer. -/
theorem complete
    (cut : lines ahead = state.transport.lineBuffer :: lines state.transport.reader.pending)
    (isOpen : state.transport.closed = false) (calm : undisturbed → state.Undisturbed) :
    LineRead maxFrameSize ahead undisturbed
      (completeLine maxFrameSize state : LineResult Failure Rejection) := by
  unfold completeLine
  split
  next long => exact .tooLong cut long
  next fits =>
    let read : Receiving Failure :=
      { state with transport := { state.transport with lineInProgress := false } }
    have isRead : undisturbed → read.Undisturbed := fun holds =>
      ⟨(calm holds).checkpoints, (calm holds).readiness, (calm holds).faults⟩
    exact @LineRead.line Failure Rejection _ _ _ read cut (not_lt.mp fits) isOpen rfl isRead

/-- A read that is aborted keeps the transport open only if it has taken nothing. -/
theorem aborted {error : TransportError Failure Rejection} (soft : error.isTerminal = false)
    (disturbed : ¬undisturbed) :
    LineRead maxFrameSize state.line undisturbed (fail state error (·.abortPendingRead)) := by
  apply LineRead.stopped soft disturbed
  intro isOpen
  simp only [StdioTransport.abortPendingRead, Bool.or_eq_false_iff, Bool.not_eq_false',
    List.isEmpty_iff] at isOpen
  rw [Receiving.line, isOpen.2]
  exact ⟨rfl, List.not_mem_nil⟩

end LineRead

/-- A call in the middle of a line. -/
structure InLine (state : Receiving Failure) : Prop where
  inProgress : state.transport.lineInProgress = true
  isOpen : state.transport.closed = false
  unbroken : lineFeed ∉ state.transport.lineBuffer

variable {state : Receiving Failure}

theorem Stop.error_soft (stop : Stop) :
    (stop.error : TransportError Failure Rejection).isTerminal = false := by
  cases stop <;> rfl

theorem Unready.error_soft (unready : Unready Failure) :
    (unready.error : TransportError Failure Rejection).isTerminal = false := by
  cases unready with
  | stopped stop => exact stop.error_soft
  | receiveDeadlineExceeded => rfl
  | io failure => rfl

/-- The prefix of a line that is longer than its content can be. -/
theorem InLine.tooLong {taken rest : Bytes} {size : Nat} (inLine : InLine state)
    (isLine : state.line = state.transport.lineBuffer ++ taken ++ rest)
    (begins : lineFeed ∉ taken ∨ ∃ front, taken = front ++ [lineFeed] ∧ lineFeed ∉ front)
    (long : maxFrameSize + 2 < state.transport.lineBuffer.length + taken.length)
    (next : Receiving Failure) :
    LineRead maxFrameSize state.line state.Undisturbed
      ((.error (.codec (.messageTooLarge size)), next) : LineResult Failure Rejection) := by
  rw [← List.length_append] at long
  rcases begins with unbroken | ⟨front, rfl, unbroken⟩
  · have unbroken : lineFeed ∉ state.transport.lineBuffer ++ taken := by
      rw [List.mem_append]
      exact not_or.mpr ⟨inLine.unbroken, unbroken⟩
    have nonempty : state.transport.lineBuffer ++ taken ≠ [] := by
      intro empty
      rw [empty, List.length_nil] at long
      omega
    obtain ⟨more, later, cut⟩ :
        ∃ more later, lines (state.transport.lineBuffer ++ taken ++ rest) =
          (state.transport.lineBuffer ++ taken ++ more) :: later := lines_begun unbroken nonempty
    have bound := length_content_begun unbroken more
    exact .tooLong (isLine ▸ cut) (by omega)
  · have cut : lines (state.transport.lineBuffer ++ front ++ lineFeed :: rest) =
        (state.transport.lineBuffer ++ front ++ [lineFeed]) :: lines rest :=
      lines_terminated (by
        rw [List.mem_append]
        exact not_or.mpr ⟨inLine.unbroken, unbroken⟩)
    have bound := length_content (state.transport.lineBuffer ++ front ++ [lineFeed])
    rw [← List.append_assoc] at long
    rw [← List.append_assoc, List.append_assoc _ [lineFeed]] at isLine
    exact .tooLong (isLine ▸ cut) (by omega)

theorem takeAvailable_read {available : Bytes} {result : LineResult Failure Rejection}
    (inLine : InLine state)
    (done : takeAvailable maxFrameSize state available = .done result)
    (filled : state.transport.reader.buffered = available) :
    LineRead maxFrameSize state.line state.Undisturbed result := by
  have isSplit (count : Nat) : state.line =
      state.transport.lineBuffer ++ available.take count ++
        (state.taken count).transport.reader.pending := by
    rw [← line_taken state count, ← filled]
    rfl
  obtain ⟨count, within, long, begins, isFail⟩ | ⟨front, isLine, unbroken, -, isComplete⟩ |
    ⟨-, ⟨⟩⟩ := takeAvailable_cases done filled
  · obtain rfl := Turn.done.inj isFail
    apply inLine.tooLong (isSplit count) begins
    rw [List.length_take_of_le within]
    exact long
  · obtain rfl := Turn.done.inj isComplete
    have buffer : (state.taken (front.length + 1)).transport.lineBuffer =
        state.transport.lineBuffer ++ front ++ [lineFeed] := by
      rw [List.append_assoc, ← isLine, ← filled]
      rfl
    apply LineRead.complete
    · rw [isSplit (front.length + 1), isLine, buffer, ← List.append_assoc,
        List.append_assoc _ [lineFeed]]
      apply lines_terminated
      rw [List.mem_append]
      exact not_or.mpr ⟨inLine.unbroken, unbroken⟩
    · exact inLine.isOpen
    · exact fun calm => ⟨calm.checkpoints, calm.readiness, calm.faults⟩

theorem fillTurn_read {result : LineResult Failure Rejection} (inLine : InLine state)
    (done : fillTurn maxFrameSize state = .done result) :
    LineRead maxFrameSize state.line state.Undisturbed result := by
  unfold fillTurn at done
  have calm := fun undisturbed : state.Undisturbed => undisturbed.filled
  split at done
  next reader filled =>
    obtain ⟨same, -, -⟩ := BufReader.fillBuf_interrupted filled
    have sameLine : (state.withReader reader).line = state.line :=
      congrArg (state.transport.lineBuffer ++ ·) same
    split at done
    next stop stopped =>
      obtain rfl := Turn.done.inj done
      rw [← sameLine]
      exact .aborted stop.error_soft fun calm => calm.not_stopped stopped
    next => exact nomatch done
  next failure reader filled =>
    obtain rfl := Turn.done.inj done
    have faulty := BufReader.fillBuf_failed filled
    exact .stopped rfl (fun calm => nomatch calm.faults _ faulty) nofun
  next available reader filled =>
    rw [filled] at calm
    obtain ⟨buffered, same, -, -, ended⟩ := BufReader.fillBuf_available bufferCapacity_pos filled
    have sameLine : (state.withReader reader).line = state.line :=
      congrArg (state.transport.lineBuffer ++ ·) same
    split at done
    next empty =>
      have nothing := ended.mp empty
      split at done
      next noPrefix =>
        obtain rfl := Turn.done.inj done
        exact .ended (by rw [Receiving.line, noPrefix, nothing]; rfl)
      next begun =>
        obtain rfl := Turn.done.inj done
        refine LineRead.complete ?_ inLine.isOpen calm
        change lines (_ ++ _) = state.transport.lineBuffer :: lines reader.pending
        rw [same, nothing, List.append_nil]
        exact lines_unterminated inLine.unbroken begun
    next =>
      rw [← sameLine]
      have begun : InLine (state.withReader reader) :=
        ⟨inLine.inProgress, inLine.isOpen, inLine.unbroken⟩
      exact (takeAvailable_read begun done buffered).weaken calm

theorem lineTurn_read {result : LineResult Failure Rejection} (inLine : InLine state)
    (done : lineTurn maxFrameSize state = .done result) :
    LineRead maxFrameSize state.line state.Undisturbed result := by
  unfold lineTurn at done
  split at done
  next stop stopped =>
    obtain rfl := Turn.done.inj done
    exact .aborted stop.error_soft fun calm => calm.not_stopped stopped
  have aborted {error : TransportError Failure Rejection} (soft : error.isTerminal = false)
      (disturbed : ¬state.Undisturbed) :
      LineRead maxFrameSize state.line state.Undisturbed
        (fail state.checked error (·.abortPendingRead)) := by
    change LineRead maxFrameSize state.checked.line _ _
    exact .aborted soft disturbed
  unfold waitTurn at done
  split at done
  next isUnready =>
    obtain rfl := Turn.done.inj done
    have disturbed : ¬state.Undisturbed := fun calm => calm.checked.not_unready isUnready
    cases retain : state.checked.call.retainOnSliceExpiry with
    | true =>
      simp only [if_true]
      apply LineRead.stopped rfl disturbed
      intro _
      have carried : state.transport.carried = state.transport.lineBuffer :=
        if_pos inLine.inProgress
      change state.transport.ahead = _ ∧ lineFeed ∉ state.transport.carried
      rw [StdioTransport.ahead, carried]
      exact ⟨rfl, inLine.unbroken⟩
    | false => exact aborted rfl disturbed
  next unready _ isUnready =>
    obtain rfl := Turn.done.inj done
    exact aborted unready.error_soft fun calm => calm.checked.not_unready isUnready
  next =>
    have begun : InLine state.checked.waited :=
      ⟨inLine.inProgress, inLine.isOpen, inLine.unbroken⟩
    exact (fillTurn_read begun done).weaken fun calm => calm.checked.waited

/-! ## A whole line -/

theorem lineLoop_read (state : Receiving Failure) (inLine : InLine state) :
    LineRead maxFrameSize state.line state.Undisturbed
      ((lineLoop Rejection maxFrameSize).run state) := by
  induction state using (lineLoop Rejection maxFrameSize).induct with
  | turn state ih =>
    cases turn : (lineLoop Rejection maxFrameSize).turn state with
    | done result =>
      rw [Loop.run_of_done turn]
      exact lineTurn_read inLine turn
    | again next =>
      rw [Loop.run_of_again turn]
      have continues := lineTurn_again turn
      have still : InLine next :=
        ⟨continues.inProgress.trans inLine.inProgress, continues.closed.trans inLine.isOpen,
          continues.unbroken inLine.unbroken⟩
      rw [← continues.line]
      exact (ih next turn still).weaken continues.undisturbed

theorem readLineWithReadiness_read (isOpen : state.transport.closed = false)
    (unbroken : lineFeed ∉ state.transport.carried) :
    LineRead maxFrameSize state.transport.ahead state.Undisturbed
      (readLineWithReadiness maxFrameSize state : LineResult Failure Rejection) := by
  have inLine : InLine state.begun := ⟨rfl, isOpen, unbroken⟩
  exact (lineLoop_read state.begun inLine).weaken fun calm =>
    ⟨calm.checkpoints, calm.readiness, calm.faults⟩

/-! ## Receiving a message -/

/-- How a receive call ends on a stream that goes on with the given bytes. The lines that are
given were completed before. -/
inductive Receipt (codec : Codec Rejection Message) (ahead : Bytes) (undisturbed : Prop)
    (completed : List Bytes) :
    Received Failure Rejection Message × StdioTransport Failure → Prop where
  | decoded {transport : StdioTransport Failure} {read : List Bytes} {line : Bytes}
      (cut : lines ahead = read ++ line :: lines transport.ahead) (blank : contents read = [])
      (nonempty : content line ≠ []) (fits : (content line).length ≤ codec.maxMessageSize)
      (isOpen : transport.closed = false) (fresh : transport.carried = []) :
      Receipt codec ahead undisturbed completed
        (⟨some (content line), (codec.decodeCompleteMessage (content line)).mapError .codec,
          completed ++ (read ++ [line])⟩, transport)
  | withheld {transport : StdioTransport Failure} {read later : List Bytes} {line : Bytes}
      {stop : Stop} (cut : lines ahead = read ++ line :: later) (blank : contents read = [])
      (nonempty : content line ≠ []) (fits : (content line).length ≤ codec.maxMessageSize)
      (disturbed : ¬undisturbed) (closed : transport.closed = true) :
      Receipt codec ahead undisturbed completed
        (⟨some (content line), .error stop.error, completed ++ (read ++ [line])⟩, transport)
  | refused {transport : StdioTransport Failure} {read later : List Bytes} {line : Bytes}
      {size : Nat} (cut : lines ahead = read ++ line :: later) (blank : contents read = [])
      (long : codec.maxMessageSize < (content line).length) (closed : transport.closed = true) :
      Receipt codec ahead undisturbed completed
        (⟨none, .error (.codec (.messageTooLarge size)), completed ++ read⟩, transport)
  | ended {transport : StdioTransport Failure} (blank : contents (lines ahead) = [])
      (closed : transport.closed = true) :
      Receipt codec ahead undisturbed completed
        (⟨none, .error .closed, completed ++ lines ahead⟩, transport)
  | stopped {transport : StdioTransport Failure} {error : TransportError Failure Rejection}
      {read later : List Bytes} (soft : error.isTerminal = false) (disturbed : ¬undisturbed)
      (cut : lines ahead = read ++ later) (blank : contents read = [])
      (kept : transport.closed = false → lineFeed ∉ transport.carried ∧
        later = lines transport.ahead) :
      Receipt codec ahead undisturbed completed
        (⟨none, .error error, completed ++ read⟩, transport)

theorem StdioTransport.ahead_of_complete {transport : StdioTransport Failure}
    (complete : transport.lineInProgress = false) :
    transport.carried = [] ∧ transport.ahead = transport.reader.pending := by
  have fresh : transport.carried = [] := by
    rw [carried, complete]
    rfl
  exact ⟨fresh, by rw [ahead, fresh]; rfl⟩

variable {codec : Codec Rejection Message}

/-- A blank line before what is received. -/
theorem Receipt.after_blank {ahead later line : Bytes} {undisturbed other : Prop}
    {completed : List Bytes}
    {result : Received Failure Rejection Message × StdioTransport Failure}
    (receipt : Receipt codec later other (completed ++ [line]) result)
    (cut : lines ahead = line :: lines later)
    (blank : content line = []) (implies : undisturbed → other) :
    Receipt codec ahead undisturbed completed result := by
  have before (read : List Bytes) (empty : contents read = []) : contents (line :: read) = [] := by
    rw [contents_cons_of_empty blank, empty]
  cases receipt with
  | decoded laterCut empty nonempty fits isOpen fresh =>
    rw [List.append_assoc, List.singleton_append, ← List.cons_append]
    exact .decoded (by rw [cut, laterCut]; rfl) (before _ empty) nonempty fits isOpen fresh
  | withheld laterCut empty nonempty fits disturbed closed =>
    rw [List.append_assoc, List.singleton_append, ← List.cons_append]
    exact .withheld (by rw [cut, laterCut]; rfl) (before _ empty) nonempty fits
      (disturbed ∘ implies) closed
  | refused laterCut empty long closed =>
    rw [List.append_assoc, List.singleton_append]
    exact .refused (by rw [cut, laterCut]; rfl) (before _ empty) long closed
  | ended empty closed =>
    rw [List.append_assoc, List.singleton_append, ← cut]
    exact .ended (by rw [cut]; exact before _ empty) closed
  | stopped soft disturbed laterCut empty kept =>
    rw [List.append_assoc, List.singleton_append]
    exact .stopped soft (disturbed ∘ implies) (by rw [cut, laterCut]; rfl) (before _ empty) kept

theorem recvTurn_receipt {result : Received Failure Rejection Message × StdioTransport Failure}
    {completed : List Bytes} (isOpen : state.transport.closed = false)
    (unbroken : lineFeed ∉ state.transport.carried)
    (done : recvTurn codec state completed = .done result) :
    Receipt codec state.transport.ahead state.Undisturbed completed result := by
  have read : LineRead codec.maxMessageSize state.transport.ahead state.Undisturbed
      (readLineWithReadiness codec.maxMessageSize state : LineResult Failure Rejection) :=
    readLineWithReadiness_read isOpen unbroken
  unfold recvTurn at done
  split at done
  next error next isRead =>
    rw [isRead] at read
    obtain rfl := Turn.done.inj done
    nth_rewrite 2 [← List.append_nil completed]
    cases read with
    | @tooLong _ line later _ cut long =>
      have single : lines state.transport.ahead = [] ++ line :: later := cut
      exact .refused single rfl long rfl
    | ended nothing =>
      have noLines : lines state.transport.ahead = [] := by
        rw [nothing]
        rfl
      rw [← noLines]
      exact .ended (by rw [noLines]; rfl) rfl
    | stopped soft disturbed kept =>
      rw [soft]
      refine .stopped soft disturbed rfl rfl fun still => ?_
      obtain ⟨same, fresh⟩ := kept still
      exact ⟨fresh, congrArg lines same.symm⟩
  next frameLen next isRead =>
    rw [isRead] at read
    cases read with
    | line cut fits stillOpen complete calm =>
      obtain ⟨fresh, isAhead⟩ := StdioTransport.ahead_of_complete complete
      split at done
      next stop stopped =>
        obtain rfl := Turn.done.inj done
        nth_rewrite 2 [← List.append_nil completed]
        exact .stopped stop.error_soft (fun undisturbed => (calm undisturbed).not_stopped stopped)
          rfl rfl nofun
      next =>
        dsimp only at done
        split at done
        next => exact nomatch done
        next positive =>
          have nonempty : content next.transport.lineBuffer ≠ [] := by
            intro empty
            rw [empty] at positive
            exact positive rfl
          have single : lines state.transport.ahead =
              [] ++ next.transport.lineBuffer :: lines next.transport.ahead := by
            rw [cut, isAhead]
            rfl
          simp only [take_length_content] at done
          have receipt : Receipt codec state.transport.ahead state.Undisturbed completed
              (⟨some (content next.transport.lineBuffer),
                (codec.decodeCompleteMessage (content next.transport.lineBuffer)).mapError .codec,
                completed ++ ([] ++ [next.transport.lineBuffer])⟩,
                next.transport) := .decoded single rfl nonempty fits stillOpen fresh
          split at done
          next error rejected =>
            obtain rfl := Turn.done.inj done
            rw [rejected] at receipt
            exact receipt
          next message accepted =>
            split at done
            next stop stopped =>
              obtain rfl := Turn.done.inj done
              exact .withheld single rfl nonempty fits
                (fun undisturbed => (calm undisturbed).checked.not_stopped stopped) rfl
            next =>
              obtain rfl := Turn.done.inj done
              rw [accepted] at receipt
              exact receipt

theorem recvLoop_receipt (state : Receiving Failure × List Bytes)
    (isOpen : state.1.transport.closed = false)
    (unbroken : lineFeed ∉ state.1.transport.carried) :
    Receipt codec state.1.transport.ahead state.1.Undisturbed state.2
      ((recvLoop codec).run state) := by
  induction state using (recvLoop codec).induct with
  | turn state ih =>
    cases turn : (recvLoop codec).turn state with
    | done result =>
      rw [Loop.run_of_done turn]
      exact recvTurn_receipt isOpen unbroken turn
    | again next =>
      rw [Loop.run_of_again turn]
      obtain ⟨read, isRead, -, rfl⟩ := recvTurn_again codec turn
      have line : LineRead codec.maxMessageSize state.1.transport.ahead state.1.Undisturbed
          (readLineWithReadiness codec.maxMessageSize state.1 : LineResult Failure Rejection) :=
        readLineWithReadiness_read isOpen unbroken
      rw [isRead] at line
      generalize isZero : 0 = count at line
      cases line with
      | line cut fits stillOpen complete calm =>
        obtain ⟨fresh, isAhead⟩ := StdioTransport.ahead_of_complete complete
        have receipt := ih _ turn stillOpen (fresh ▸ List.not_mem_nil)
        change Receipt codec read.transport.ahead _ _ _ at receipt
        rw [isAhead] at receipt
        exact receipt.after_blank cut (List.eq_nil_of_length_eq_zero isZero.symm)
          fun undisturbed => (calm undisturbed).checked

/-! ## All receive calls -/

/-- What was completed so far are the first lines of the stream, and what was handed over are their
contents. As long as the transport is open they are all lines before the bytes that are ahead. -/
structure Aligned (codec : Codec Rejection Message) (stream : Bytes) (completed handed : List Bytes)
    (transport : StdioTransport Failure) : Prop where
  first : completed <+: lines stream
  frames : contents completed = handed
  fit : ∀ frame ∈ handed, frame.length ≤ codec.maxMessageSize
  kept : transport.closed = false → lineFeed ∉ transport.carried ∧
    lines stream = completed ++ lines transport.ahead

namespace Aligned

variable {stream : Bytes} {completed handed : List Bytes} {transport : StdioTransport Failure}

theorem start (source : ByteSource) (faults : List (Option Failure)) :
    Aligned codec source.remaining [] [] (StdioTransport.new source faults) :=
  ⟨List.nil_prefix, rfl, by simp, fun _ => ⟨List.not_mem_nil, rfl⟩⟩

/-- The frames that are still to come. -/
theorem frames_ahead (aligned : Aligned codec stream completed handed transport)
    (isOpen : transport.closed = false) :
    contents (lines stream) = handed ++ contents (lines transport.ahead) := by
  rw [(aligned.kept isOpen).2, contents_append, aligned.frames]

theorem receipt (aligned : Aligned codec stream completed handed transport)
    (isOpen : transport.closed = false) (call : Call Failure) :
    Receipt codec transport.ahead (Receiving.mk transport call).Undisturbed []
      (recvWithReadiness codec transport call) := by
  rw [recvWithReadiness, isOpen]
  exact recvLoop_receipt (⟨transport, call⟩, []) isOpen (aligned.kept isOpen).1

/-- Some lines are completed and their contents handed over. -/
theorem complete {next : StdioTransport Failure} {read later : List Bytes}
    (aligned : Aligned codec stream completed handed transport) (isOpen : transport.closed = false)
    (cut : lines transport.ahead = read ++ later)
    (fits : ∀ frame ∈ contents read, frame.length ≤ codec.maxMessageSize)
    (kept : next.closed = false → lineFeed ∉ next.carried ∧ later = lines next.ahead) :
    Aligned codec stream (completed ++ read) (handed ++ contents read) next := by
  have whole := (aligned.kept isOpen).2
  rw [cut, ← List.append_assoc] at whole
  refine ⟨⟨later, whole.symm⟩, by rw [contents_append, aligned.frames], ?_, fun stillOpen => ?_⟩
  · exact List.forall_mem_append.mpr ⟨aligned.fit, fits⟩
  · obtain ⟨unbroken, rfl⟩ := kept stillOpen
    exact ⟨unbroken, whole⟩

/-- Empty lines are completed. -/
theorem skip {next : StdioTransport Failure} {read later : List Bytes}
    (aligned : Aligned codec stream completed handed transport) (isOpen : transport.closed = false)
    (cut : lines transport.ahead = read ++ later) (blank : contents read = [])
    (kept : next.closed = false → lineFeed ∉ next.carried ∧ later = lines next.ahead) :
    Aligned codec stream (completed ++ read) (handed ++ []) next :=
  blank ▸ aligned.complete isOpen cut (by simp [blank]) kept

/-- The next frame is handed over. -/
theorem hand {next : StdioTransport Failure} {read later : List Bytes} {line : Bytes}
    (aligned : Aligned codec stream completed handed transport) (isOpen : transport.closed = false)
    (cut : lines transport.ahead = read ++ line :: later) (blank : contents read = [])
    (nonempty : content line ≠ []) (fits : (content line).length ≤ codec.maxMessageSize)
    (kept : next.closed = false → lineFeed ∉ next.carried ∧ later = lines next.ahead) :
    Aligned codec stream (completed ++ (read ++ [line])) (handed ++ [content line]) next := by
  have single : contents (read ++ [line]) = [content line] := by
    rw [contents_append, blank, contents_cons_of_some nonempty]
    rfl
  rw [← List.singleton_append, ← List.append_assoc] at cut
  rw [← single]
  exact aligned.complete isOpen cut (by simpa [single] using fits) kept

theorem step (aligned : Aligned codec stream completed handed transport) (call : Call Failure) :
    Aligned codec stream (completed ++ (recvWithReadiness codec transport call).1.completed)
      (handed ++ (recvWithReadiness codec transport call).1.handed.toList)
      (recvWithReadiness codec transport call).2 := by
  cases isOpen : transport.closed with
  | true =>
    rw [recvWithReadiness, isOpen]
    simpa using aligned
  | false =>
    have receipt := aligned.receipt isOpen call
    generalize recvWithReadiness codec transport call = result at receipt ⊢
    cases receipt with
    | decoded cut blank nonempty fits stillOpen fresh =>
      exact aligned.hand isOpen cut blank nonempty fits fun _ => ⟨fresh ▸ List.not_mem_nil, rfl⟩
    | withheld cut blank nonempty fits disturbed closed =>
      exact aligned.hand isOpen cut blank nonempty fits fun contrary =>
        nomatch closed.symm.trans contrary
    | refused cut blank long closed =>
      exact aligned.skip isOpen cut blank fun contrary => nomatch closed.symm.trans contrary
    | ended blank closed =>
      exact aligned.skip isOpen (List.append_nil _).symm blank fun contrary =>
        nomatch closed.symm.trans contrary
    | stopped soft disturbed cut blank kept => exact aligned.skip isOpen cut blank kept

theorem receiveAll (aligned : Aligned codec stream completed handed transport)
    (calls : List (Call Failure)) :
    Aligned codec stream
      (completed ++ (Stdio.receiveAll codec transport calls).1.flatMap (·.completed))
      (handed ++ (Stdio.receiveAll codec transport calls).1.filterMap (·.handed))
      (Stdio.receiveAll codec transport calls).2 := by
  induction calls generalizing completed handed transport with
  | nil => simpa [Stdio.receiveAll] using aligned
  | cons call calls ih =>
    have later := ih (aligned.step call)
    rw [List.append_assoc, List.append_assoc] at later
    rw [Stdio.receiveAll, List.flatMap_cons, List.filterMap_cons]
    cases isHanded : (recvWithReadiness codec transport call).1.handed with
    | none =>
      rw [isHanded] at later
      exact later
    | some frame =>
      rw [isHanded] at later
      exact later

end Aligned

/-- What a call returns that nothing stops, depending on the next frame. -/
def Answers (codec : Codec Rejection Message) (next : Received Failure Rejection Message)
    (after : StdioTransport Failure) : Option Bytes → Prop
  | none => next.handed = none ∧ next.result = .error .closed ∧ after.closed = true
  | some frame =>
    if codec.maxMessageSize < frame.length then
      next.handed = none ∧ (∃ size, next.result = .error (.codec (.messageTooLarge size))) ∧
        after.closed = true
    else
      next.handed = some frame ∧
        next.result = (codec.decodeCompleteMessage frame).mapError .codec ∧ after.closed = false

theorem head_contents {read later : List Bytes} {line : Bytes} (blank : contents read = [])
    (nonempty : content line ≠ []) :
    (contents (read ++ line :: later)).head? = content line := by
  rw [contents_append, blank, contents_cons_of_some nonempty]
  rfl

theorem content_ne_nil_of_long {line : Bytes} (long : maxFrameSize < (content line).length) :
    content line ≠ [] := by
  intro empty
  rw [empty] at long
  exact nomatch long

namespace Receipt

variable {ahead : Bytes} {undisturbed : Prop} {completed : List Bytes}
  {result : Received Failure Rejection Message × StdioTransport Failure}

theorem answers (receipt : Receipt codec ahead undisturbed completed result) (calm : undisturbed) :
    Answers codec result.1 result.2 (contents (lines ahead)).head? := by
  cases receipt with
  | decoded cut blank nonempty fits isOpen fresh =>
    rw [cut, head_contents blank nonempty]
    exact (if_neg (not_lt.mpr fits)).mpr ⟨rfl, rfl, isOpen⟩
  | withheld _ _ _ _ disturbed => exact absurd calm disturbed
  | refused cut blank long closed =>
    rw [cut, head_contents blank (content_ne_nil_of_long long)]
    exact (if_pos long).mpr ⟨rfl, ⟨_, rfl⟩, closed⟩
  | ended blank closed =>
    rw [blank]
    exact ⟨rfl, rfl, closed⟩
  | stopped _ disturbed => exact absurd calm disturbed

/-- A frame that is handed over and whose message is not returned closes the transport. -/
theorem handed {frame : Bytes} (receipt : Receipt codec ahead undisturbed completed result)
    (isHanded : result.1.handed = some frame) :
    result.2.closed = true ∨
      result.1.result = (codec.decodeCompleteMessage frame).mapError .codec := by
  cases receipt with
  | decoded =>
    obtain rfl := Option.some.inj isHanded
    exact .inr rfl
  | withheld _ _ _ _ _ closed => exact .inl closed
  | _ => exact nomatch isHanded

/-- Only a frame that is too long is refused. -/
theorem refused_long {size : Nat} (receipt : Receipt codec ahead undisturbed completed result)
    (unhanded : result.1.handed = none)
    (refused : result.1.result = .error (.codec (.messageTooLarge size))) :
    result.2.closed = true ∧
      ∃ frame ∈ (contents (lines ahead)).head?, codec.maxMessageSize < frame.length := by
  cases receipt with
  | refused cut blank long closed =>
    rw [cut, head_contents blank (content_ne_nil_of_long long)]
    exact ⟨closed, _, rfl, long⟩
  | stopped soft =>
    rw [Except.error.inj refused] at soft
    exact nomatch soft
  | ended => exact nomatch refused
  | _ => exact nomatch unhanded

end Receipt

/-- The lines that are completed, empty ones included, are those of the stream, from the first one
on. What is handed to the codec are their nonempty contents, at most one by each call. An open
transport has given up nothing: every line was completed whose end it has read, and the rest is
still ahead. A closed one receives nothing any more. The next frame is refused exactly if it is too
long, unless something else stops the call first. -/
theorem stdio_frames_exact (codec : Codec Rejection Message) (source : ByteSource)
    (faults : List (Option Failure)) (calls : List (Call Failure)) :
    let run := receiveAll codec (StdioTransport.new source faults) calls
    let completed := run.1.flatMap (·.completed)
    let handed := run.1.filterMap (·.handed)
    let frames := contents (lines source.remaining)
    completed <+: lines source.remaining ∧ contents completed = handed ∧ handed <+: frames ∧
    (∀ frame ∈ handed, frame.length ≤ codec.maxMessageSize) ∧
    (run.2.closed = false → lines source.remaining = completed ++ lines run.2.ahead) ∧
    ∀ call,
      let next := recvWithReadiness codec run.2 call
      (run.2.closed = true →
        next.1 = ⟨none, .error .closed, []⟩ ∧ next.2.closed = true) ∧
      (∀ frame, next.1.handed = some frame → next.2.closed = true ∨
        next.1.result = (codec.decodeCompleteMessage frame).mapError .codec) ∧
      (run.2.closed = false →
        (∀ size, next.1.handed = none →
          next.1.result = .error (.codec (.messageTooLarge size)) →
          next.2.closed = true ∧
            ∃ frame ∈ frames[handed.length]?, codec.maxMessageSize < frame.length) ∧
        ((Receiving.mk run.2 call).Undisturbed →
          Answers codec next.1 next.2 frames[handed.length]?)) := by
  intro run completed handed frames
  have aligned : Aligned codec source.remaining completed handed run.2 :=
    (Aligned.start source faults).receiveAll calls
  have isFirst : handed <+: frames := by
    obtain ⟨rest, whole⟩ := aligned.first
    exact ⟨contents rest, by rw [← aligned.frames, ← contents_append, whole]⟩
  refine ⟨aligned.first, aligned.frames, isFirst, aligned.fit,
    fun isOpen => (aligned.kept isOpen).2, fun call => ?_⟩
  intro next
  refine ⟨fun closed => ?_, fun frame isHanded => ?_, fun isOpen => ?_⟩
  · simp [next, recvWithReadiness, closed]
  · cases isOpen : run.2.closed with
    | true => simp [next, recvWithReadiness, isOpen] at isHanded
    | false => exact (aligned.receipt isOpen call).handed isHanded
  · have isNext : frames[handed.length]? = (contents (lines run.2.ahead)).head? := by
      rw [show frames = handed ++ contents (lines run.2.ahead) from aligned.frames_ahead isOpen,
        List.getElem?_append_right le_rfl, Nat.sub_self, List.head?_eq_getElem?]
    rw [isNext]
    exact ⟨fun size => (aligned.receipt isOpen call).refused_long,
      (aligned.receipt isOpen call).answers⟩

end FastMcp.Stdio
