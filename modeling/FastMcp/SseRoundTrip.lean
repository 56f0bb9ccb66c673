import FastMcp.SseEvents
import Mathlib.Data.List.TakeWhile
import Mathlib.Data.Nat.Digits.Defs

/-! # Writing events and reading them back

What `SseEvent.toBytes` accepts and writes, `SseReader.readEvent` reads, whatever
the sizes of the reads below it: no limit or field rule of the reader is hit by
an event that passed the writer's checks.
-/

namespace FastMcp.Sse

open BufferedReaders ByteSources ByteText IntegerText MachineWords MeasuredLoops TextCutting

/-! ## Texts and their bytes -/

theorem utf8_append (left right : Text) : utf8 (left ++ right) = utf8 left ++ utf8 right :=
  List.flatMap_append

theorem fromUtf8_utf8 (text : Text) : fromUtf8 (utf8 text) = some (String.ofList text) := by
  rw [utf8, ← bytes_ofList, fromUtf8_bytes]

theorem length_utf8 (text : Text) : (utf8 text).length = byteLength text := by
  simp [utf8, byteLength, List.length_flatMap]

theorem byteLength_le (text : Text) : byteLength text ≤ 4 * text.length := by
  induction text with
  | nil => exact Nat.le_refl _
  | cons character rest ih =>
    have four := character.utf8Size_le_four
    simp only [byteLength, List.map_cons, List.sum_cons, List.length_cons] at ih ⊢
    omega

theorem mem_of_mem_utf8 {text : Text} {byte : UInt8} (ascii : byte < 128)
    (member : byte ∈ utf8 text) : Char.ofNat byte.toNat ∈ text := by
  obtain ⟨character, charMember, member⟩ := List.mem_flatMap.mp member
  rwa [← eq_of_mem_utf8EncodeChar ascii member]

theorem mem_utf8 {text : Text} {byte : UInt8} (ascii : byte < 128)
    (member : Char.ofNat byte.toNat ∈ text) : byte ∈ utf8 text := by
  refine List.mem_flatMap.mpr ⟨_, member, ?_⟩
  rw [utf8EncodeChar_ascii byte ascii]
  exact List.mem_singleton_self byte

/-- The text stays within a line. -/
def Inline (text : Text) : Prop :=
  '\r' ∉ text ∧ '\n' ∉ text

theorem Inline.bytes {text : Text} (inline : Inline text) :
    ∀ byte ∈ utf8 text, byte ≠ carriageReturn ∧ byte ≠ lineFeed := by
  intro byte member
  constructor
  · rintro rfl
    exact inline.1 (mem_of_mem_utf8 (by decide) member)
  · rintro rfl
    exact inline.2 (mem_of_mem_utf8 (by decide) member)

theorem Inline.append {left right : Text} (first : Inline left) (second : Inline right) :
    Inline (left ++ right) := by
  simp only [Inline, List.mem_append, not_or] at *
  exact ⟨⟨first.1, second.1⟩, first.2, second.2⟩

/-! ## Data -/

/-- The text with a line feed in place of every pair of a return and a feed. -/
def crlfToLf : Text → Text
  | [] => []
  | character :: rest =>
    if character = '\r' ∧ rest.head? = some '\n' then crlfToLf rest
    else character :: crlfToLf rest

theorem byteLength_crlfToLf (data : Text) : byteLength (crlfToLf data) ≤ byteLength data := by
  induction data with
  | nil => exact Nat.le_refl _
  | cons character rest ih =>
    unfold crlfToLf
    simp only [byteLength, List.map_cons, List.sum_cons] at ih ⊢
    split
    · omega
    · simp only [List.map_cons, List.sum_cons]
      omega

/-- Every return is followed by a feed. -/
def Paired : Text → Prop
  | [] => True
  | character :: rest => (character = '\r' → rest.head? = some '\n') ∧ Paired rest

theorem head_utf8 {text : Text} (feed : (utf8 text).head? = some lineFeed) :
    text.head? = some '\n' := by
  cases text with
  | nil => cases feed
  | cons character rest =>
    have first : lineFeed ∈ String.utf8EncodeChar character := by
      cases encoded : String.utf8EncodeChar character with
      | nil =>
        have length := String.length_utf8EncodeChar character
        rw [encoded] at length
        exact absurd length.symm (Nat.ne_of_gt character.utf8Size_pos)
      | cons byte later =>
        rw [utf8, List.flatMap_cons, encoded] at feed
        rw [← Option.some.inj feed]
        exact List.mem_cons_self
    rw [eq_of_mem_utf8EncodeChar (by decide) first]
    rfl

theorem hasInvalidSseDataCharacters_append {front rest : Bytes}
    (valid : hasInvalidSseDataCharacters (front ++ rest) = false) :
    hasInvalidSseDataCharacters rest = false := by
  induction front with
  | nil => exact valid
  | cons byte front ih =>
    rw [List.cons_append, hasInvalidSseDataCharacters, Bool.or_eq_false_iff] at valid
    exact ih valid.2

theorem paired_of_valid {data : Text}
    (valid : hasInvalidSseDataCharacters (utf8 data) = false) : Paired data := by
  induction data with
  | nil => trivial
  | cons character rest ih =>
    have split : utf8 (character :: rest) = String.utf8EncodeChar character ++ utf8 rest :=
      List.flatMap_cons
    rw [split] at valid
    refine ⟨?_, ih (hasInvalidSseDataCharacters_append valid)⟩
    rintro rfl
    have encoded : String.utf8EncodeChar '\r' = [carriageReturn] := by decide
    rw [encoded] at valid
    refine head_utf8 ?_
    simpa [hasInvalidSseDataCharacters, carriageReturn] using
      (Bool.or_eq_false_iff.mp valid).1

theorem splitOn_cons (character : Char) (data : Text) :
    (character :: data).splitOn '\n' =
      if character = '\n' then [] :: data.splitOn '\n'
      else (data.splitOn '\n').modifyHead (character :: ·) := by
  rw [List.splitOn, List.splitOnP_cons_eq_if_modifyHead]
  simp only [beq_iff_eq]
  rfl

theorem dataLinesOf_feed (data : Text) : dataLinesOf ('\n' :: data) = [] :: dataLinesOf data := by
  rw [dataLinesOf, splitOn_cons, if_pos rfl]
  rfl

theorem dataLinesOf_ne_nil (data : Text) : dataLinesOf data ≠ [] := by
  simp [dataLinesOf]

theorem dataLinesOf_return (data : Text) :
    dataLinesOf ('\r' :: '\n' :: data) = dataLinesOf ('\n' :: data) := by
  rw [dataLinesOf, splitOn_cons, if_neg (by decide), splitOn_cons, if_pos rfl]
  rw [dataLinesOf_feed]
  rfl

theorem stripReturn_cons {character : Char} (other : character ≠ '\r') (line : Text) :
    stripReturn (character :: line) = character :: stripReturn line := by
  cases line with
  | nil => simp [stripReturn, other]
  | cons next line =>
    unfold stripReturn
    rw [List.getLast?_cons_cons, List.dropLast_cons_cons]
    split <;> rfl

theorem dataLinesOf_cons {character : Char} (notReturn : character ≠ '\r')
    (notFeed : character ≠ '\n') (data : Text) :
    dataLinesOf (character :: data) = (dataLinesOf data).modifyHead (character :: ·) := by
  rw [dataLinesOf, splitOn_cons, if_neg notFeed, dataLinesOf]
  cases data.splitOn '\n' with
  | nil => rfl
  | cons line lines => simp [stripReturn_cons notReturn]

/-- Data is written in lines that have no terminator in them, and put together they are the data
with line feeds alone. -/
theorem dataLinesOf_paired {data : Text} (paired : Paired data) :
    ['\n'].intercalate (dataLinesOf data) = crlfToLf data ∧
      ∀ line ∈ dataLinesOf data, Inline line := by
  induction data with
  | nil => exact ⟨rfl, by simp [dataLinesOf, stripReturn, Inline]⟩
  | cons character rest ih =>
    obtain ⟨joined, inline⟩ := ih paired.2
    by_cases feed : character = '\n'
    · subst feed
      rw [dataLinesOf_feed]
      constructor
      · rw [crlfToLf, if_neg (by simp), ← joined]
        obtain ⟨line, lines, cut⟩ := List.exists_cons_of_ne_nil (dataLinesOf_ne_nil rest)
        simp [cut, List.intercalate]
      · exact List.forall_mem_cons.mpr ⟨by simp [Inline], inline⟩
    by_cases isReturn : character = '\r'
    · subst isReturn
      have next := paired.1 rfl
      cases rest with
      | nil => cases next
      | cons other rest =>
        rw [List.head?_cons, Option.some.injEq] at next
        subst next
        rw [dataLinesOf_return, crlfToLf, if_pos ⟨rfl, rfl⟩]
        exact ⟨joined, inline⟩
    · rw [dataLinesOf_cons isReturn feed, crlfToLf, if_neg fun both => isReturn both.1, ← joined]
      obtain ⟨line, lines, cut⟩ := List.exists_cons_of_ne_nil (dataLinesOf_ne_nil rest)
      rw [cut] at inline ⊢
      obtain ⟨first, others⟩ := List.forall_mem_cons.mp inline
      constructor
      · cases lines <;> simp [List.intercalate]
      · refine List.forall_mem_cons.mpr ⟨?_, others⟩
        simpa [Inline, Ne.symm isReturn, Ne.symm feed] using first

theorem byteLength_intercalate_snoc (lines : List Text) (line : Text) :
    byteLength (['\n'].intercalate (lines ++ [line])) =
      byteLength (['\n'].intercalate lines) + (if lines = [] then 0 else 1) + byteLength line := by
  have joined (first next : Text) (others : List Text) :
      byteLength (['\n'].intercalate (first :: next :: others)) =
        byteLength first + (1 + byteLength (['\n'].intercalate (next :: others))) := by
    have cut : ['\n'].intercalate (first :: next :: others) =
        first ++ '\n' :: ['\n'].intercalate (next :: others) := by
      simp [List.intercalate]
    rw [cut, byteLength_append]
    rfl
  induction lines with
  | nil => simp [List.intercalate, byteLength]
  | cons first lines ih =>
    cases lines with
    | nil =>
      rw [List.singleton_append, joined]
      simp [List.intercalate, Nat.add_assoc]
    | cons next lines =>
      simp only [List.cons_append, joined, reduceCtorEq, if_false] at ih ⊢
      omega

theorem byteLength_intercalate_le (lines more : List Text) :
    byteLength (['\n'].intercalate lines) ≤ byteLength (['\n'].intercalate (lines ++ more)) := by
  induction more using List.reverseRecOn with
  | nil => simp
  | append_singleton more line ih =>
    rw [← List.append_assoc, byteLength_intercalate_snoc]
    omega

/-! ## Numbers -/

theorem parseRetry_toDigits (retry : UInt64) :
    SseReader.parseRetry (Nat.toDigits 10 retry.toNat) = some retry := by
  have small : retry.toNat ≤ u64Max := Nat.le_of_lt_succ retry.toNat_lt
  have digits := isDigit_toDigits retry.toNat
  rw [SseReader.parseRetry, if_pos ⟨Nat.toDigits_ne_nil, List.all_eq_true.mpr digits⟩,
    parseUnsigned_toDigits small]
  simp

/-! ## Reading a line -/

namespace SseReader

/-- Nothing but interruptions happens to the reader, and it waits for no line feed. -/
structure Undisturbed (reader : SseReader) : Prop where
  faults : reader.input.faults = []
  checkpoints : reader.checkpoints = []
  discardLfAfterCr : reader.discardLfAfterCr = false
  maxLineSize : reader.maxLineSize = maxSseLineSize

theorem Undisturbed.sseCheckpoint {reader : SseReader} (undisturbed : Undisturbed reader) :
    reader.sseCheckpoint = (.ok (), reader) := by
  simp only [SseReader.sseCheckpoint, undisturbed.checkpoints]

/-- What a turn of an undisturbed reader does: it is interrupted, or it takes available bytes. -/
theorem Undisturbed.lineTurn {state : LineState} (undisturbed : Undisturbed state.reader) :
    ∃ input : BufReader String, input.faults = [] ∧
      input.pending = state.reader.input.pending ∧
      (SseReader.lineTurn state =
          .again { state with reader := { state.reader with input := input } } ∨
        (input.buffered = [] ↔ state.reader.input.pending = []) ∧
          SseReader.lineTurn state =
            takeAvailable { state with reader := { state.reader with input := input } }
              input.buffered) := by
  unfold SseReader.lineTurn
  simp only [undisturbed.sseCheckpoint]
  rcases BufReader.fillBuf_of_faultless undisturbed.faults with
    ⟨input, filled⟩ | ⟨content, input, filled⟩
  · obtain ⟨pending, faults, -⟩ := BufReader.fillBuf_interrupted filled
    refine ⟨input, by rw [faults, undisturbed.faults]; rfl, pending, .inl ?_⟩
    rw [filled]
  · obtain ⟨rfl, pending, faults, -, ended⟩ := BufReader.fillBuf_available (by decide) filled
    refine ⟨input, faults undisturbed.faults, pending, .inr ⟨ended, ?_⟩⟩
    rw [filled]

theorem takeAvailable_plain {state : LineState} (plain : state.reader.discardLfAfterCr = false)
    {available : Bytes} (nonempty : available ≠ []) :
    takeAvailable state available = takeContent state available := by
  obtain ⟨reader, consumedInput, totalRead⟩ := state
  cases reader with
  | mk input checkpoints lineBuffer maxLineSize terminal discardLfAfterCr =>
    dsimp only at plain
    subst plain
    cases available with
    | nil => contradiction
    | cons first rest => simp [takeAvailable]

/-- The line ends beyond the available bytes: all of them are taken. -/
theorem takeContent_inside {state : LineState} {available : Bytes}
    (plain : ∀ byte ∈ available, byte ≠ carriageReturn ∧ byte ≠ lineFeed)
    (maxLineSize : state.reader.maxLineSize = maxSseLineSize)
    (fits : state.reader.lineBuffer.length + available.length ≤ maxSseLineSize) :
    takeContent state available =
      .again
        ⟨{ state.reader with
            lineBuffer := state.reader.lineBuffer ++ available
            input := state.reader.input.consume available.length },
          true, state.totalRead + available.length⟩ := by
  have whole : available.takeWhile (fun byte => byte ≠ carriageReturn ∧ byte ≠ lineFeed) =
      available := by
    simpa [List.takeWhile_eq_self_iff] using plain
  have short : ¬ saturatingAdd usizeMax state.reader.lineBuffer.length available.length >
      state.reader.maxLineSize := by
    rw [maxLineSize, saturatingAdd]
    omega
  have ended : available[available.length]? = none := List.getElem?_eq_none (Nat.le_refl _)
  simp only [takeContent, whole, ended, Option.isSome_none, Bool.toNat_false, Nat.add_zero,
    if_neg short]

/-- The line ends within the available bytes: it is completed. -/
theorem takeContent_end {state : LineState} {line more : Bytes}
    (plain : ∀ byte ∈ line, byte ≠ carriageReturn ∧ byte ≠ lineFeed)
    (undisturbed : Undisturbed state.reader)
    (fits : state.reader.lineBuffer.length + line.length + 1 ≤ maxSseLineSize) :
    takeContent state (line ++ lineFeed :: more) =
      .done
        (.ok (state.totalRead + line.length + 1),
          ⟨{ state.reader with
              lineBuffer := state.reader.lineBuffer ++ line
              input := state.reader.input.consume (line.length + 1) },
            true, state.totalRead + line.length + 1⟩) := by
  have whole : (line ++ lineFeed :: more).takeWhile
      (fun byte => byte ≠ carriageReturn ∧ byte ≠ lineFeed) = line := by
    rw [List.takeWhile_append_of_pos (by simpa using plain)]
    simp
  have short : ¬ saturatingAdd usizeMax state.reader.lineBuffer.length (line.length + 1) >
      state.reader.maxLineSize := by
    rw [undisturbed.maxLineSize, saturatingAdd]
    omega
  have delimiter : (line ++ lineFeed :: more)[line.length]? = some lineFeed := by simp
  have notReturn : decide (lineFeed = carriageReturn) = state.reader.discardLfAfterCr := by
    rw [undisturbed.discardLfAfterCr]
    rfl
  simp only [takeContent, whole, delimiter, Option.isSome_some, Bool.toNat_true, if_neg short,
    notReturn, Nat.add_assoc]

/-- A line that is still to come is read whole. -/
theorem lineLoop_line {line rest : Bytes} (state : LineState)
    (undisturbed : Undisturbed state.reader)
    (pending : state.reader.input.pending = line ++ lineFeed :: rest)
    (plain : ∀ byte ∈ line, byte ≠ carriageReturn ∧ byte ≠ lineFeed)
    (fits : state.reader.lineBuffer.length + line.length + 1 ≤ maxSseLineSize) :
    ∃ input : BufReader String, input.faults = [] ∧ input.pending = rest ∧
      lineLoop.run state =
        (.ok (state.totalRead + line.length + 1),
          ⟨{ state.reader with
              lineBuffer := state.reader.lineBuffer ++ line
              input := input },
            true, state.totalRead + line.length + 1⟩) := by
  induction state using lineLoop.induct generalizing line with
  | turn state ih =>
    obtain ⟨input, faults, same, again | ⟨ended, taken⟩⟩ := undisturbed.lineTurn
    · have filled : Undisturbed { state.reader with input := input } :=
        { undisturbed with faults := faults }
      rw [lineLoop.run_of_again again]
      exact ih _ again filled (same.trans pending) plain fits
    have nonempty : input.buffered ≠ [] := by
      rw [ne_eq, ended, pending]
      simp
    have filled : Undisturbed { state.reader with input := input } :=
      { undisturbed with faults := faults }
    rw [takeAvailable_plain (by exact filled.discardLfAfterCr) nonempty] at taken
    rw [pending, BufReader.pending, List.append_eq_append_iff] at same
    -- the terminator is beyond the available bytes, or among them
    have cases : (∃ middle, line = input.buffered ++ middle ∧
          input.source.remaining = middle ++ lineFeed :: rest) ∨
        ∃ more, input.buffered = line ++ lineFeed :: more ∧
          rest = more ++ input.source.remaining := by
      rcases same with inside | ⟨later, cut, tail⟩
      · exact .inl inside
      · cases later with
        | nil => exact .inl ⟨[], by simpa using cut.symm, by simpa using tail.symm⟩
        | cons byte later =>
          rw [List.cons_append, List.cons.injEq] at tail
          obtain ⟨rfl, tail⟩ := tail
          exact .inr ⟨later, cut, tail⟩
    rcases cases with ⟨middle, rfl, later⟩ | ⟨more, cut, later⟩
    · have inner : ∀ byte ∈ input.buffered, byte ≠ carriageReturn ∧ byte ≠ lineFeed :=
        fun byte member => plain byte (List.mem_append_left _ member)
      rw [List.length_append] at fits
      rw [takeContent_inside inner (by exact filled.maxLineSize) (by dsimp only; omega)] at taken
      obtain ⟨last, lastFaults, lastPending, ran⟩ := @ih _ taken middle
        { filled with faults := faults }
        (by simp [BufReader.pending, BufReader.consume, later])
        (fun byte member => plain byte (List.mem_append_right _ member))
        (by simp only [List.length_append]; omega)
      rw [lineLoop.run_of_again taken, ran]
      refine ⟨last, lastFaults, lastPending, ?_⟩
      simp only [List.append_assoc, List.length_append, Nat.add_assoc]
    · rw [cut, takeContent_end plain (by exact filled) (by exact fits)] at taken
      rw [lineLoop.run_of_done taken]
      refine ⟨input.consume (line.length + 1), faults, ?_, rfl⟩
      simp [BufReader.pending, BufReader.consume, cut, later]

/-- At the end of the stream there is no line. -/
theorem lineLoop_end (state : LineState) (undisturbed : Undisturbed state.reader)
    (pending : state.reader.input.pending = []) :
    ∃ last, lineLoop.run state = (.ok state.totalRead, last) := by
  induction state using lineLoop.induct with
  | turn state ih =>
    obtain ⟨input, faults, same, again | ⟨ended, taken⟩⟩ := undisturbed.lineTurn
    · rw [lineLoop.run_of_again again]
      exact ih _ again { undisturbed with faults := faults } (same.trans pending)
    · rw [ended.mpr pending] at taken
      exact ⟨_, lineLoop.run_of_done taken⟩

/-! ## Reading an event -/

/-- The reader in the middle of an event, with the bytes that are still to come. -/
structure Receiving (state : EventState) (content : Bytes) (fields : EventFields)
    (id : Option Text) (retry : Option UInt64) : Prop where
  undisturbed : Undisturbed state.reader
  open_ : state.reader.terminal = false
  pending : state.reader.input.pending = content
  fields : state.fields = fields
  lastEventId : state.reader.lastEventId = id
  reconnectionTime : state.reader.reconnectionTime = retry

section Lines

variable {state : EventState} {rest : Bytes} {fields : EventFields} {id : Option Text}
  {retry : Option UInt64}

theorem Receiving.line {line : Text}
    (receiving : Receiving state (utf8 line ++ lineFeed :: rest) fields id retry)
    (inline : Inline line) (fits : byteLength line + 1 ≤ maxSseLineSize) :
    ∃ read, Receiving read rest fields id retry ∧ eventTurn state = processLine read line := by
  obtain ⟨input, faults, pending, ran⟩ :=
    lineLoop_line ⟨{ state.reader with lineBuffer := [] }, state.consumedInput, 0⟩
      { receiving.undisturbed with } receiving.pending inline.bytes
      (by simpa [length_utf8] using fits)
  have quiet : Undisturbed
      { state.reader with
        lineBuffer := utf8 line
        input := input } := { receiving.undisturbed with faults := faults }
  refine ⟨⟨{ state.reader with
      lineBuffer := utf8 line
      input := input }, state.fields, true⟩, { receiving with
        undisturbed := quiet
        pending := pending }, ?_⟩
  unfold eventTurn readLineBounded
  rw [ran]
  simp only [List.nil_append, quiet.sseCheckpoint, fromUtf8_utf8, String.toList_ofList]

/-- A field is taken apart as it was put together. -/
theorem Receiving.field {name value : Text}
    (receiving : Receiving state (SseEvent.field (name ++ [':', ' ']) value ++ rest) fields id retry)
    (named : name ≠ []) (noColon : ':' ∉ name) (inlineName : Inline name) (inline : Inline value)
    (fits : byteLength name + byteLength value + 3 ≤ maxSseLineSize) :
    ∃ read, Receiving read rest fields id retry ∧
      eventTurn state = applyField read name value := by
  have whole : SseEvent.field (name ++ [':', ' ']) value ++ rest =
      utf8 (name ++ [':', ' '] ++ value) ++ lineFeed :: rest := by
    rw [SseEvent.field, utf8_append (name ++ _) value]
    simp only [List.append_assoc, List.singleton_append]
  rw [whole] at receiving
  have size : byteLength (name ++ [':', ' '] ++ value) = byteLength name + byteLength value + 2 := by
    simp only [byteLength, List.map_append, List.sum_append]
    have two : (List.map Char.utf8Size [':', ' ']).sum = 2 := rfl
    omega
  obtain ⟨read, after, taken⟩ := receiving.line
    ((inlineName.append ⟨by decide, by decide⟩).append inline) (by omega)
  refine ⟨read, after, ?_⟩
  have cut : fieldOf (name ++ [':', ' '] ++ value) = (name, value) := by
    have once : splitOnce ':' (name ++ [':', ' '] ++ value) = some (name, ' ' :: value) :=
      splitOnce_eq_some.mpr ⟨by simp, noColon⟩
    have space : stripPrefix [' '] (' ' :: value) = some value := stripPrefix_append [' '] value
    simp only [fieldOf, once, space, Option.getD_some]
  obtain ⟨first, others, rfl⟩ := List.exists_cons_of_ne_nil named
  have notComment : first ≠ ':' := fun colon => noColon (colon ▸ List.mem_cons_self)
  rw [taken, processLine, cut, if_neg (by simp), if_neg (by simpa using notComment)]

theorem Receiving.typeField {eventType : SseEventType}
    (receiving : Receiving state (SseEvent.field "event: ".toList eventType.asStr ++ rest)
      fields id retry) :
    ∃ next, eventLoop.run state = eventLoop.run next ∧
      Receiving next rest
        { fields with
          eventType := some eventType
          unknownEvent := false } id retry := by
  obtain ⟨read, after, taken⟩ := @Receiving.field _ _ _ _ _ "event".toList _ receiving
    (by decide) (by decide) ⟨by decide, by decide⟩
    (by cases eventType <;> exact ⟨by decide, by decide⟩) (by cases eventType <;> decide)
  refine ⟨_, eventLoop.run_of_again taken, { after with fields := ?_ }⟩
  rw [after.fields]
  cases eventType <;> rfl

theorem Receiving.idField {value : Text}
    (receiving : Receiving state (SseEvent.field "id: ".toList value ++ rest) fields id retry)
    (inline : Inline value) (noNul : Char.ofNat 0 ∉ value)
    (fits : byteLength value + 5 ≤ maxSseLineSize) :
    ∃ next, eventLoop.run state = eventLoop.run next ∧
      Receiving next rest fields (some value) retry := by
  have two : byteLength "id".toList = 2 := rfl
  obtain ⟨read, after, taken⟩ := @Receiving.field _ _ _ _ _ "id".toList _ receiving
    (by decide) (by decide) ⟨by decide, by decide⟩ inline (by omega)
  rw [applyField, if_neg (by decide), if_neg (by decide), if_pos rfl, if_neg noNul] at taken
  exact ⟨_, eventLoop.run_of_again taken, { after with
    undisturbed := { after.undisturbed with }
    lastEventId := rfl }⟩

theorem Receiving.retryField {value : UInt64}
    (receiving : Receiving state
      (SseEvent.field "retry: ".toList (Nat.toDigits 10 value.toNat) ++ rest) fields id retry) :
    ∃ next, eventLoop.run state = eventLoop.run next ∧
      Receiving next rest fields id (some value) := by
  have digits := isDigit_toDigits value.toNat
  have inline : Inline (Nat.toDigits 10 value.toNat) :=
    ⟨fun member => absurd (digits _ member) (by decide),
      fun member => absurd (digits _ member) (by decide)⟩
  have five : byteLength "retry".toList = 5 := rfl
  have length : (Nat.toDigits 10 value.toNat).length ≤ 20 :=
    Nat.toDigits_length 10 _ 20 (by decide) (Nat.lt_trans value.toNat_lt (by decide))
  have size := byteLength_le (Nat.toDigits 10 value.toNat)
  have large : maxSseLineSize = 65536 := rfl
  obtain ⟨read, after, taken⟩ := @Receiving.field _ _ _ _ _ "retry".toList _ receiving
    (by decide) (by decide) ⟨by decide, by decide⟩ inline (by omega)
  rw [applyField, if_neg (by decide), if_neg (by decide), if_neg (by decide), if_pos rfl,
    parseRetry_toDigits] at taken
  exact ⟨_, eventLoop.run_of_again taken, { after with
    undisturbed := { after.undisturbed with }
    reconnectionTime := rfl }⟩

/-- The size of the data after one more line. -/
def EventFields.sizeWith (fields : EventFields) (value : Text) : Nat :=
  fields.totalDataSize + (if fields.dataLines = [] then 0 else 1) + byteLength value

theorem Receiving.dataField {value : Text}
    (receiving : Receiving state (SseEvent.field "data: ".toList value ++ rest) fields id retry)
    (inline : Inline value) (fits : byteLength value + 7 ≤ maxSseLineSize)
    (small : fields.sizeWith value ≤ maxSseMessageSize) :
    ∃ next, eventLoop.run state = eventLoop.run next ∧
      Receiving next rest
        { fields with
          dataLines := fields.dataLines ++ [value]
          totalDataSize := fields.sizeWith value } id retry := by
  have four : byteLength Sse.dataField = 4 := rfl
  obtain ⟨read, after, taken⟩ := @Receiving.field _ _ _ _ _ Sse.dataField _ receiving
    (by decide) (by decide) ⟨by decide, by decide⟩ inline (by omega)
  have limit : maxSseMessageSize ≤ usizeMax := by decide
  have size :
      saturatingAdd usizeMax
          (saturatingAdd usizeMax fields.totalDataSize (if fields.dataLines = [] then 0 else 1))
          (byteLength value) = fields.sizeWith value := by
    unfold EventFields.sizeWith at small ⊢
    unfold saturatingAdd
    omega
  rw [applyField, if_neg (by decide), if_pos rfl, EventState.addData] at taken
  simp only [after.fields, size, if_neg (Nat.not_lt.mpr small)] at taken
  exact ⟨_, eventLoop.run_of_again taken, { after with fields := rfl }⟩

theorem Receiving.dataLines {lines : List Text}
    (receiving : Receiving state (lines.flatMap (SseEvent.field "data: ".toList) ++ rest)
      fields id retry)
    (inline : ∀ line ∈ lines, Inline line)
    (fits : ∀ line ∈ lines, byteLength line + 7 ≤ maxSseLineSize)
    (size : fields.totalDataSize = byteLength (['\n'].intercalate fields.dataLines))
    (small : byteLength (['\n'].intercalate (fields.dataLines ++ lines)) ≤ maxSseMessageSize) :
    ∃ next total, eventLoop.run state = eventLoop.run next ∧
      Receiving next rest
        { fields with
          dataLines := fields.dataLines ++ lines
          totalDataSize := total } id retry := by
  induction lines generalizing state fields with
  | nil => exact ⟨state, fields.totalDataSize, rfl, by simpa using receiving⟩
  | cons line lines ih =>
    rw [List.flatMap_cons, List.append_assoc] at receiving
    obtain ⟨firstInline, inline⟩ := List.forall_mem_cons.mp inline
    obtain ⟨firstFits, fits⟩ := List.forall_mem_cons.mp fits
    have sized : fields.sizeWith line =
        byteLength (['\n'].intercalate (fields.dataLines ++ [line])) := by
      rw [EventFields.sizeWith, size, byteLength_intercalate_snoc]
    rw [List.append_cons] at small
    have most := byteLength_intercalate_le (fields.dataLines ++ [line]) lines
    obtain ⟨read, same, after⟩ := receiving.dataField firstInline firstFits (by omega)
    obtain ⟨next, total, ran, last⟩ := ih after inline fits sized small
    refine ⟨next, total, same.trans ran, ?_⟩
    rwa [List.append_cons]

/-- A blank line dispatches the event. -/
theorem Receiving.blank (receiving : Receiving state (lineFeed :: rest) fields id retry)
    (nonempty : fields.dataLines ≠ []) (known : fields.unknownEvent = false) :
    ∃ reader, eventLoop.run state =
        (.ok (.some
          { eventType := fields.eventType.getD .message
            data := ['\n'].intercalate fields.dataLines
            id := id
            retry := retry }), reader) ∧
      Receiving ⟨reader, .none, false⟩ rest .none id retry := by
  obtain ⟨read, after, taken⟩ := @Receiving.line _ _ _ _ _ [] receiving
    ⟨by decide, by decide⟩ (by decide)
  refine ⟨read.reader, ?_, { after with fields := rfl }⟩
  rw [processLine, if_pos rfl, after.fields, if_pos ⟨nonempty, by simp [known]⟩] at taken
  rw [eventLoop.run_of_done taken, after.lastEventId, after.reconnectionTime]

end Lines

end SseReader

/-! ## Events that pass the writer's checks -/

/-- What the writer's checks say about an event. -/
structure SseEvent.Valid (event : SseEvent) : Prop where
  small : byteLength event.data ≤ maxSseMessageSize
  paired : Paired event.data
  lines : ∀ line ∈ dataLinesOf event.data, byteLength line + 7 ≤ maxSseLineSize
  id : ∀ value, event.id = some value →
    Inline value ∧ Char.ofNat 0 ∉ value ∧ byteLength value + 5 ≤ maxSseLineSize

theorem SseEvent.valid_of_validate {event : SseEvent} (accepted : event.validate = .ok ()) :
    event.Valid := by
  unfold validate at accepted
  split at accepted
  · cases accepted
  rename_i small
  split at accepted
  · cases accepted
  rename_i valid
  split at accepted
  · cases accepted
  rename_i short
  split at accepted
  · cases accepted
  refine ⟨Nat.not_lt.mp small, paired_of_valid (by simpa using valid), ?_, ?_⟩
  · intro line member
    have fits := List.find?_eq_none.mp short line member
    have overhead : sseDataLineWireOverhead = 7 := rfl
    have limit : maxSseLineSize < usizeMax := by decide
    simp only [decide_eq_true_eq, saturatingAdd, overhead] at fits
    omega
  · intro value present
    rw [present, validateId] at accepted
    split at accepted
    · cases accepted
    rename_i plain
    split at accepted
    · cases accepted
    rename_i fits
    have overhead : byteLength "id: \n".toList = 5 := rfl
    have limit : maxSseLineSize < usizeMax := by decide
    have absent (byte : UInt8) (ascii : byte < 128) (ends : endsField byte = true) :
        Char.ofNat byte.toNat ∉ value := by
      intro member
      exact plain (List.any_eq_true.mpr ⟨byte, mem_utf8 ascii member, ends⟩)
    refine ⟨⟨absent 13 (by decide) (by decide), absent 10 (by decide) (by decide)⟩,
      absent 0 (by decide) (by decide), ?_⟩
    rw [overhead, saturatingAdd] at fits
    omega

/-- What the writer makes of an event is its encoding, if the event is valid. -/
theorem SseEvent.valid_of_toBytes {event : SseEvent} {bytes : Bytes}
    (written : event.toBytes = .ok bytes) : event.Valid ∧ bytes = event.encode := by
  unfold toBytes at written
  cases validated : event.validate with
  | error error => simp [validated, Except.map] at written
  | ok =>
    rw [validated] at written
    exact ⟨valid_of_validate validated, (Except.ok.inj written).symm⟩

/-- The event as it is read after others, whose identifier and delay last. -/
def SseEvent.after (id : Option Text) (retry : Option UInt64) (event : SseEvent) : SseEvent where
  eventType := event.eventType
  data := crlfToLf event.data
  id := event.id.or id
  retry := event.retry.or retry

namespace SseReader

theorem Receiving.event {state : EventState} {rest : Bytes} {id : Option Text}
    {retry : Option UInt64} {event : SseEvent}
    (receiving : Receiving state (event.encode ++ rest) .none id retry) (valid : event.Valid) :
    ∃ reader, eventLoop.run state = (.ok (some (event.after id retry)), reader) ∧
      Receiving ⟨reader, .none, false⟩ rest .none (event.id.or id) (event.retry.or retry) := by
  obtain ⟨joined, inline⟩ := dataLinesOf_paired valid.paired
  rw [SseEvent.encode] at receiving
  simp only [List.append_assoc] at receiving
  obtain ⟨typed, toTyped, receiving⟩ := receiving.typeField
  obtain ⟨identified, toIdentified, receiving⟩ :
      ∃ next, eventLoop.run typed = eventLoop.run next ∧
        Receiving next _ _ (event.id.or id) retry := by
    cases present : event.id with
    | none => exact ⟨typed, rfl, by simpa [present] using receiving⟩
    | some value =>
      obtain ⟨plain, noNul, fits⟩ := valid.id value present
      simp only [present, Option.toList_some, List.flatMap_singleton] at receiving
      exact receiving.idField plain noNul fits
  obtain ⟨delayed, toDelayed, receiving⟩ :
      ∃ next, eventLoop.run identified = eventLoop.run next ∧
        Receiving next _ _ (event.id.or id) (event.retry.or retry) := by
    cases present : event.retry with
    | none => exact ⟨identified, rfl, by simpa [present] using receiving⟩
    | some value =>
      simp only [present, Option.toList_some, List.flatMap_singleton] at receiving
      exact receiving.retryField
  obtain ⟨filled, total, toFilled, receiving⟩ := receiving.dataLines inline valid.lines rfl
    (by simpa [EventFields.none, joined] using
      Nat.le_trans (byteLength_crlfToLf event.data) valid.small)
  obtain ⟨reader, dispatched, last⟩ := receiving.blank
    (by simpa [EventFields.none] using dataLinesOf_ne_nil event.data) rfl
  refine ⟨reader, ?_, last⟩
  rw [toTyped, toIdentified, toDelayed, toFilled, dispatched]
  simp [SseEvent.after, EventFields.none, joined]

/-- A reader between two events. -/
def Ready (reader : SseReader) (content : Bytes) (id : Option Text) (retry : Option UInt64) :
    Prop :=
  Receiving ⟨reader, .none, false⟩ content .none id retry

section Events

variable {reader : SseReader} {id : Option Text} {retry : Option UInt64}

theorem Ready.readEvent {content : Bytes} (ready : Ready reader content id retry) :
    reader.readEvent = eventLoop.run ⟨reader, .none, false⟩ := by
  have open_ := ready.open_
  have passed := ready.undisturbed.sseCheckpoint
  dsimp only at open_ passed
  simp only [SseReader.readEvent, open_, Bool.false_eq_true, if_false, passed]

theorem Ready.readEvent_end (ready : Ready reader [] id retry) :
    reader.readEvent.1 = .ok none := by
  have quiet : Undisturbed { reader with lineBuffer := [] } := { ready.undisturbed with }
  obtain ⟨last, ran⟩ := lineLoop_end ⟨{ reader with lineBuffer := [] }, false, 0⟩ quiet ready.pending
  have taken : eventTurn ⟨reader, .none, false⟩ =
      .done (.ok none, { last.reader with terminal := true }) := by
    unfold eventTurn readLineBounded
    simp only [ran]
  rw [ready.readEvent, eventLoop.run_of_done taken]

/-- The events of a stream are read in order, each after those before it, and what follows them
is left to the reads after these. -/
theorem Ready.readEvents_append {events : List SseEvent} (valid : ∀ event ∈ events, event.Valid)
    {rest : Bytes} (ready : Ready reader (events.flatMap SseEvent.encode ++ rest) id retry) :
    ∃ next lastId lastRetry, Ready next rest lastId lastRetry ∧ ∀ more,
      reader.readEvents (events.length + more) =
        events.mapIdx (fun index event => .ok (some (event.after
          (((events.take index).reverse.findSome? SseEvent.id).or id)
          (((events.take index).reverse.findSome? SseEvent.retry).or retry)))) ++
        next.readEvents more := by
  induction events generalizing reader id retry with
  | nil => exact ⟨reader, id, retry, ready, by simp⟩
  | cons event events ih =>
    obtain ⟨first, valid⟩ := List.forall_mem_cons.mp valid
    rw [List.flatMap_cons, List.append_assoc] at ready
    obtain ⟨second, ran, later⟩ := Receiving.event ready first
    have step : reader.readEvent = (.ok (some (event.after id retry)), second) :=
      ready.readEvent.trans ran
    obtain ⟨next, lastId, lastRetry, readyNext, reads⟩ := ih valid later
    refine ⟨next, lastId, lastRetry, readyNext, fun more => ?_⟩
    rw [List.length_cons, Nat.add_right_comm, SseReader.readEvents, step, reads, List.mapIdx_cons]
    simp [List.findSome?_append, Option.or_assoc]

/-- The events of a stream are read in order, and then its end. -/
theorem Ready.readEvents {events : List SseEvent} (valid : ∀ event ∈ events, event.Valid)
    (ready : Ready reader (events.flatMap SseEvent.encode) none none) :
    reader.readEvents (events.length + 1) =
      events.mapIdx (fun index event => .ok (some (event.after
        ((events.take index).reverse.findSome? SseEvent.id)
        ((events.take index).reverse.findSome? SseEvent.retry)))) ++ [.ok none] := by
  rw [← List.append_nil (events.flatMap _)] at ready
  obtain ⟨next, lastId, lastRetry, readyNext, reads⟩ := ready.readEvents_append valid
  simpa [SseReader.readEvents, readyNext.readEvent_end] using reads 1

end Events

/-- Events that the writer accepts are read back in order and then the end of the stream,
whatever sizes the reads below have and however often they are interrupted. An identifier or a
delay is the most recent one written. -/
theorem written_events_read_back {events : List SseEvent} {encodings : List Bytes}
    (accepted : List.Forall₂ (fun event encoding => event.toBytes = .ok encoding) events encodings)
    (plan : List Delivery) :
    (SseReader.new ⟨encodings.flatten, plan⟩ [] []).readEvents (events.length + 1) =
      events.mapIdx (fun index event =>
        .ok (some
          { eventType := event.eventType
            data := crlfToLf event.data
            id := (events.take (index + 1)).reverse.findSome? SseEvent.id
            retry := (events.take (index + 1)).reverse.findSome? SseEvent.retry })) ++
        [.ok none] := by
  have whole : (∀ event ∈ events, event.Valid) ∧
      encodings.flatten = events.flatMap SseEvent.encode := by
    induction accepted with
    | nil => exact ⟨nofun, rfl⟩
    | cons written _ ih =>
      obtain ⟨valid, rfl⟩ := SseEvent.valid_of_toBytes written
      exact ⟨List.forall_mem_cons.mpr ⟨valid, ih.1⟩, congrArg (_ ++ ·) ih.2⟩
  obtain ⟨valid, content⟩ := whole
  have ready : Ready (.new ⟨encodings.flatten, plan⟩ [] [])
      (events.flatMap SseEvent.encode) none none :=
    ⟨⟨rfl, rfl, rfl, rfl⟩, rfl, content, rfl, rfl, rfl⟩
  rw [ready.readEvents valid, List.append_cancel_right_eq, List.mapIdx_eq_mapIdx_iff]
  intro index within
  have latest {Value : Type} (field : SseEvent → Option Value) :
      (events.take (index + 1)).reverse.findSome? field =
        (field events[index]).or ((events.take index).reverse.findSome? field) := by
    rw [List.take_add_one, List.getElem?_eq_getElem within, Option.toList_some, List.reverse_append,
      List.reverse_singleton, List.findSome?_append, List.findSome?_singleton]
  rw [latest, latest]
  rfl

/-- Two events over three reads, one of them interrupted. -/
theorem written_events_read_back_split :
    (SseReader.new
        ⟨(SseEvent.encode ⟨.endpoint, "/m".toList, some "7".toList, none⟩) ++
          SseEvent.encode ⟨.message, "a\r\n b\n".toList, none, some 250⟩,
          [.upTo 9, .interrupted, .upTo 20]⟩ [] []).readEvents 3 =
      [.ok (some ⟨.endpoint, "/m".toList, some "7".toList, none⟩),
        .ok (some ⟨.message, "a\n b\n".toList, some "7".toList, some 250⟩), .ok none] := by
  have accepted :
      List.Forall₂ (fun event encoding => SseEvent.toBytes event = .ok encoding)
        [⟨.endpoint, "/m".toList, some "7".toList, none⟩,
          ⟨.message, "a\r\n b\n".toList, none, some 250⟩]
        [SseEvent.encode ⟨.endpoint, "/m".toList, some "7".toList, none⟩,
          SseEvent.encode ⟨.message, "a\r\n b\n".toList, none, some 250⟩] :=
    .cons (by decide) (.cons (by decide) .nil)
  have read := written_events_read_back accepted [.upTo 9, .interrupted, .upTo 20]
  simpa [crlfToLf] using read

end SseReader

end FastMcp.Sse
