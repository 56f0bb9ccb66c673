import FastMcp.StdioReader

/-! # Decoding messages that arrive in pieces

`decode` takes the next piece of a stream, decodes every line that it completes
and keeps the rest for the next call. The size of a message is checked for
complete lines and for the rest alike, where a carriage return at the end is not
counted because it may belong to the delimiter. How the stream is cut makes no
difference: a line that is too long is refused wherever the cuts are.
-/

namespace FastMcp.Ndjson

open ByteLines ByteText Stdio

variable {Rejection Message : Type}

/-- The length of what is buffered and a fragment after it, without a trailing carriage return. -/
def frameLen (buffer fragment : Bytes) : Nat :=
  buffer.length + fragment.length -
    if fragment.getLast?.or buffer.getLast? = some carriageReturn then 1 else 0

/-- Decodes the lines of the data after the messages of the lines before, and says what is
buffered afterwards. -/
def decodeFrom (codec : Codec Rejection Message) (buffer : Bytes) (messages : List Message)
    (remaining : Bytes) : Except (CodecError Rejection) (List Message) × Bytes :=
  match _found : remaining.idxOf? lineFeed with
  | some newlinePosition =>
    let fragment := remaining.take newlinePosition
    if frameLen buffer fragment > codec.maxMessageSize then
      (.error (.messageTooLarge (frameLen buffer fragment)), [])
    else
      let frame :=
        if buffer.isEmpty then stripSuffix carriageReturn fragment
        else stripSuffix carriageReturn (buffer ++ fragment)
      if frame.isEmpty then decodeFrom codec [] messages (remaining.drop (newlinePosition + 1))
      else
        match codec.decodeCompleteMessage frame with
        | .ok message =>
          decodeFrom codec [] (messages ++ [message]) (remaining.drop (newlinePosition + 1))
        | .error error => (.error error, [])
  | none =>
    if frameLen buffer remaining > codec.maxMessageSize then
      (.error (.messageTooLarge (frameLen buffer remaining)), [])
    else (.ok messages, buffer ++ remaining)
termination_by remaining.length
decreasing_by
  all_goals
    have bound := (List.findIdx?_eq_some_iff_getElem.mp _found).1
    simp only [List.length_drop]
    omega

def decode (codec : Codec Rejection Message) (buffer data : Bytes) :
    Except (CodecError Rejection) (List Message) × Bytes :=
  decodeFrom codec buffer [] data

/-- The result of a call that succeeds. -/
def succeeded : Except (CodecError Rejection) (List Message) × Bytes →
    Option (List Message × Bytes)
  | (.ok messages, buffer) => some (messages, buffer)
  | (.error _, _) => none

/-- What is found after some messages. -/
def after (messages : List Message) (found : Option (List Message × Bytes)) :
    Option (List Message × Bytes) :=
  found.map fun (later, line) => (messages ++ later, line)

/-- The messages of successive calls and what is buffered after them, if every call succeeds. -/
def decodeAll (codec : Codec Rejection Message) (buffer : Bytes) :
    List Bytes → Option (List Message × Bytes)
  | [] => some ([], buffer)
  | chunk :: chunks =>
    (succeeded (decode codec buffer chunk)).bind fun (messages, buffer) =>
      after messages (decodeAll codec buffer chunks)

/-! ## The whole stream at once -/

/-- The messages of a stream that is read byte by byte, and its unfinished last line. -/
def scan (codec : Codec Rejection Message) : Bytes → Bytes → Option (List Message × Bytes)
  | line, [] =>
    if (stripSuffix carriageReturn line).length ≤ codec.maxMessageSize then some ([], line)
    else none
  | line, byte :: rest =>
    if byte ≠ lineFeed then scan codec (line ++ [byte]) rest
    else if stripSuffix carriageReturn line = [] then scan codec [] rest
    else
      match codec.decodeCompleteMessage (stripSuffix carriageReturn line) with
      | .ok message => after [message] (scan codec [] rest)
      | .error _ => none

variable {codec : Codec Rejection Message} {line : Bytes}

@[simp]
theorem after_nil (found : Option (List Message × Bytes)) : after [] found = found := by
  simp [after]

@[simp]
theorem after_after (first second : List Message) (found : Option (List Message × Bytes)) :
    after first (after second found) = after (first ++ second) found := by
  simp [after, Function.comp_def]

theorem frameLen_eq (buffer fragment : Bytes) :
    frameLen buffer fragment = (stripSuffix carriageReturn (buffer ++ fragment)).length := by
  unfold frameLen stripSuffix
  rw [List.getLast?_append]
  split
  · rw [List.length_dropLast, List.length_append]
  · rw [Nat.sub_zero, List.length_append]

theorem decodeCompleteMessage_tooLong {frame : Bytes}
    (long : codec.maxMessageSize < frame.length) :
    codec.decodeCompleteMessage frame = .error (.messageTooLarge frame.length) := by
  rw [Codec.decodeCompleteMessage, if_pos long]

theorem scan_unbroken (rest : Bytes) {fragment : Bytes} (unbroken : lineFeed ∉ fragment) :
    scan codec line (fragment ++ rest) = scan codec (line ++ fragment) rest := by
  induction fragment generalizing line with
  | nil => simp
  | cons byte fragment ih =>
    obtain ⟨other, unbroken⟩ := not_or.mp (mt List.mem_cons.mpr unbroken)
    rw [List.cons_append, scan, if_pos (Ne.symm other), ih unbroken, List.append_assoc]
    rfl

/-- A line that has become too long is refused, whatever follows. -/
theorem scan_tooLong (rest : Bytes)
    (long : codec.maxMessageSize < (stripSuffix carriageReturn line).length) :
    scan codec line rest = none := by
  induction rest generalizing line with
  | nil => rw [scan, if_neg (by omega)]
  | cons byte rest ih =>
    rw [scan]
    split
    · apply ih
      have shorter := (stripSuffix_isPrefix carriageReturn line).length_le
      have longer := length_stripSuffix carriageReturn (line ++ [byte])
      rw [List.length_append, List.length_singleton] at longer
      omega
    · have nonempty : stripSuffix carriageReturn line ≠ [] := by
        intro empty
        simp [empty] at long
      rw [if_neg nonempty, decodeCompleteMessage_tooLong long]

theorem scan_append (first rest : Bytes) :
    scan codec line (first ++ rest) = (scan codec line first).bind fun (messages, line) =>
      after messages (scan codec line rest) := by
  induction first generalizing line with
  | nil =>
    by_cases fits : (stripSuffix carriageReturn line).length ≤ codec.maxMessageSize
    · simp [scan, fits]
    · rw [List.nil_append, scan_tooLong rest (by omega), scan, if_neg fits]
      rfl
  | cons byte first ih =>
    rw [List.cons_append, scan, scan]
    split
    · exact ih
    · split
      · exact ih
      · split
        · rw [ih]
          cases scan codec [] first with
          | none => rfl
          | some found => rw [Option.bind_some, after_after]; rfl
        · rfl

/-- What the next line feed makes of the line before it. -/
theorem scan_terminated {remaining : Bytes} {position : Nat}
    (found : remaining.idxOf? lineFeed = some position) :
    scan codec line remaining =
      scan codec (line ++ remaining.take position)
        (lineFeed :: remaining.drop (position + 1)) := by
  obtain ⟨front, rest, rfl, unbroken, rfl⟩ := split_of_idxOf? found
  rw [scan_unbroken _ unbroken]
  simp

/-- One call reads its data as the scan does, from the buffered line on. -/
theorem decodeFrom_eq_scan (buffer : Bytes) (messages : List Message) (remaining : Bytes) :
    succeeded (decodeFrom codec buffer messages remaining) =
      after messages (scan codec buffer remaining) := by
  -- the frame of a line does not depend on whether part of it was buffered
  have frameOf (buffer fragment : Bytes) : (if buffer.isEmpty then
      stripSuffix carriageReturn fragment else stripSuffix carriageReturn (buffer ++ fragment)) =
        stripSuffix carriageReturn (buffer ++ fragment) := by
    cases buffer <;> rfl
  fun_induction decodeFrom codec buffer messages remaining with
  | case1 buffer messages remaining position found fragment long =>
    rw [frameLen_eq] at long
    rw [scan_terminated found, scan_tooLong _ long]
    rfl
  | case2 buffer messages remaining position found fragment fits frame empty ih =>
    have isEmpty : stripSuffix carriageReturn (buffer ++ fragment) = [] := by
      rw [← frameOf]
      exact List.isEmpty_iff.mp empty
    rw [ih, scan_terminated found, scan, if_neg (by simp), if_pos isEmpty]
  | case3 buffer messages remaining position found fragment fits frame some message decoded ih =>
    have isFrame : stripSuffix carriageReturn (buffer ++ fragment) = frame :=
      (frameOf buffer fragment).symm
    rw [ih, scan_terminated found, scan, if_neg (by simp), isFrame, decoded,
      if_neg (by simpa using some), after_after]
  | case4 buffer messages remaining position found fragment fits frame some error decoded =>
    have isFrame : stripSuffix carriageReturn (buffer ++ fragment) = frame :=
      (frameOf buffer fragment).symm
    rw [scan_terminated found, scan, if_neg (by simp), isFrame, decoded,
      if_neg (by simpa using some)]
    rfl
  | case5 buffer messages remaining found long =>
    have unbroken : lineFeed ∉ remaining := List.idxOf?_eq_none_iff.mp found
    rw [frameLen_eq] at long
    rw [← List.append_nil remaining, scan_unbroken _ unbroken, scan_tooLong _ long]
    rfl
  | case6 buffer messages remaining found fits =>
    have unbroken : lineFeed ∉ remaining := List.idxOf?_eq_none_iff.mp found
    rw [frameLen_eq, Nat.not_lt] at fits
    rw [← List.append_nil remaining, scan_unbroken _ unbroken, scan, if_pos fits]
    simp [succeeded, after]

/-- What is buffered after a scan is not too long. -/
theorem scan_fits {rest tail : Bytes} {messages : List Message}
    (scanned : scan codec line rest = some (messages, tail)) :
    (stripSuffix carriageReturn tail).length ≤ codec.maxMessageSize := by
  fun_induction scan codec line rest generalizing messages with
  | case1 line fits => cases scanned; exact fits
  | case2 => contradiction
  | case3 _ _ _ _ ih => exact ih scanned
  | case4 _ _ _ _ _ ih => exact ih scanned
  | case5 _ _ _ _ _ _ _ ih =>
    obtain ⟨⟨later, line⟩, isFound, same⟩ := Option.map_eq_some_iff.mp scanned
    cases same
    exact ih isFound
  | case6 => contradiction

theorem decodeAll_eq_scan {buffer : Bytes}
    (fits : (stripSuffix carriageReturn buffer).length ≤ codec.maxMessageSize)
    (chunks : List Bytes) : decodeAll codec buffer chunks = scan codec buffer chunks.flatten := by
  induction chunks generalizing buffer with
  | nil => rw [decodeAll, List.flatten_nil, scan, if_pos fits]
  | cons chunk chunks ih =>
    rw [decodeAll, decode, decodeFrom_eq_scan, after_nil, List.flatten_cons, scan_append]
    cases scanned : scan codec buffer chunk with
    | none => rfl
    | some found =>
      obtain ⟨messages, buffered⟩ := found
      simp only [Option.bind_some, ih (scan_fits scanned)]

/-- The frames of some lines, without those that are empty. -/
def frames (bodies : List Bytes) : List Bytes :=
  (bodies.map (stripSuffix carriageReturn)).filter (· ≠ [])

theorem scan_lines {bodies : List Bytes} {tail : Bytes}
    (unbroken : ∀ body ∈ bodies, lineFeed ∉ body) (tailUnbroken : lineFeed ∉ tail) :
    scan codec [] (bodies.flatMap (· ++ [lineFeed]) ++ tail) =
      ((frames bodies).mapM fun frame => (codec.decodeCompleteMessage frame).toOption).bind
        fun messages =>
          if (stripSuffix carriageReturn tail).length ≤ codec.maxMessageSize then
            some (messages, tail)
          else none := by
  induction bodies with
  | nil =>
    rw [List.flatMap_nil, List.nil_append, ← List.append_nil tail, scan_unbroken _ tailUnbroken,
      List.append_nil, scan]
    simp [frames]
  | cons body bodies ih =>
    obtain ⟨bodyUnbroken, unbroken⟩ := List.forall_mem_cons.mp unbroken
    rw [List.flatMap_cons, List.append_assoc, List.append_assoc, scan_unbroken _ bodyUnbroken,
      List.nil_append, List.singleton_append, scan, if_neg (by simp), ih unbroken]
    by_cases empty : stripSuffix carriageReturn body = []
    · simp [frames, empty]
    · have first : frames (body :: bodies) = stripSuffix carriageReturn body :: frames bodies := by
        simp [frames, empty]
      rw [if_neg empty, first, List.mapM_cons]
      cases codec.decodeCompleteMessage (stripSuffix carriageReturn body) with
      | error error => rfl
      | ok message =>
        cases (frames bodies).mapM fun frame => (codec.decodeCompleteMessage frame).toOption with
        | none => rfl
        | some messages =>
          by_cases fits : (stripSuffix carriageReturn tail).length ≤ codec.maxMessageSize
          · simp [after, fits, Except.toOption]
          · simp [after, fits, Except.toOption]

/-- The messages and the buffered rest do not depend on how a stream is cut into pieces, nor does
it whether all calls succeed. There is one message for each nonempty line of the stream that ends
with a line feed. -/
theorem decodeAll_cut (codec : Codec Rejection Message) (chunks others : List Bytes)
    (same : chunks.flatten = others.flatten) :
    decodeAll codec [] chunks = decodeAll codec [] others ∧
      ∀ bodies tail, chunks.flatten = bodies.flatMap (· ++ [lineFeed]) ++ tail →
        (∀ body ∈ bodies, lineFeed ∉ body) → lineFeed ∉ tail →
        decodeAll codec [] chunks =
          ((frames bodies).mapM fun frame => (codec.decodeCompleteMessage frame).toOption).bind
            fun messages =>
              if (stripSuffix carriageReturn tail).length ≤ codec.maxMessageSize then
                some (messages, tail)
              else none := by
  have fits : (stripSuffix carriageReturn []).length ≤ codec.maxMessageSize := Nat.zero_le _
  rw [decodeAll_eq_scan fits, decodeAll_eq_scan fits]
  refine ⟨by rw [same], fun bodies tail cut unbroken tailUnbroken => ?_⟩
  rw [cut]
  exact scan_lines unbroken tailUnbroken

/-- A codec that takes every message of one byte. -/
def byteCodec : Codec Empty Unit := ⟨1, fun _ => .ok ()⟩

/-- The cut may be between the two bytes of a delimiter. -/
theorem decodeAll_cut_delimiter :
    decodeAll byteCodec [] [[97, 13], [10]] = decodeAll byteCodec [] [[97], [13, 10]] :=
  (decodeAll_cut byteCodec [[97, 13], [10]] [[97], [13, 10]] rfl).1

end FastMcp.Ndjson
