import FastMcp.SseReference

/-! # The client's parser and the meaning of a stream

After every prefix of a stream the parser holds what the prefix leaves open: the
unterminated line, the data fields of the open event and the budgets spent. One
byte keeps that, so chunks of any size do, and a refusal is the one that the
whole stream deserves.
-/

namespace FastMcp.Sse

open ByteText LossyUtf8 MachineWords

/-! ## Refusals are final -/

variable {limits : SseLimits} {content : Bytes}

variable {error : SseParseError} {fields payloads : List Text}

theorem refusal_append_byte (refused : refusal limits content = some error) (byte : UInt8) :
    refusal limits (content ++ [byte]) = some error := by
  by_cases second : endsWithReturn false content = true ∧ byte = lineFeed
  · obtain ⟨pending, rfl⟩ := second
    rwa [refusal, cutLines_second pending]
  unfold refusal at refused ⊢
  by_cases ends : byte = carriageReturn ∨ byte = lineFeed
  · rw [cutLines_end second ends, chargeLines_append]
    cases charged : chargeLines limits (cutLines content).1 with
    | error => simpa only [charged, Except.bind] using refused
    | ok budget =>
      simp only [charged, Option.ite_none_right_eq_some, Option.some.injEq] at refused
      simp only [Except.bind, Budget.charge, if_pos refused.1, refused.2]
  · rw [cutLines_continue ends]
    cases charged : chargeLines limits (cutLines content).1 with
    | error => simpa only [charged] using refused
    | ok budget =>
      simp only [charged, Option.ite_none_right_eq_some, Option.some.injEq] at refused
      have longer := refused.1
      simp only [List.length_append, List.length_singleton, refused.2]
      exact if_pos (by omega)

theorem refusal_append (refused : refusal limits content = some error) (rest : Bytes) :
    refusal limits (content ++ rest) = some error := by
  induction rest generalizing content with
  | nil => simpa using refused
  | cons byte rest ih => simpa using ih (refusal_append_byte refused byte)

/-! ## What a prefix leaves open -/

/-- The data buffer of an event: every value is followed by a line feed. -/
def dataBuffer (fields : List Text) : Text :=
  fields.flatMap (· ++ ['\n'])

theorem dataBuffer_eq_nil : dataBuffer fields = [] ↔ fields = [] := by
  cases fields <;> simp [dataBuffer]

/-- Without its last line feed the buffer is the values with line feeds between them. -/
theorem dataBuffer_eq (nonempty : fields ≠ []) :
    dataBuffer fields = ['\n'].intercalate fields ++ ['\n'] := by
  induction fields with
  | nil => contradiction
  | cons value fields ih =>
    cases fields with
    | nil => simp [dataBuffer, List.intercalate]
    | cons next fields =>
      have rest := ih (List.cons_ne_nil _ _)
      simp only [dataBuffer, List.flatMap_cons] at rest ⊢
      rw [rest]
      simp [List.intercalate]

theorem counted_add (amount more : Nat) :
    saturatingAdd usizeMax (counted amount) more = counted (amount + more) := by
  unfold saturatingAdd counted
  omega

/-- The parser holds the open event of a stream and what it has cost. -/
structure Mirrors (limits : SseLimits) (parser : BoundedSseParser) (stream : Stream)
    (budget : Budget) : Prop where
  limits : parser.limits = limits
  data : parser.data = dataBuffer stream.fields
  fields : budget.fields = stream.fields.length
  decodedBytes : budget.decodedBytes = byteLength parser.data
  rawBytes : parser.eventRawBytes = counted budget.rawBytes
  dataLines : parser.eventDataLines = counted budget.fields
  inert : parser.keepaliveLines = counted budget.inert
  poisoned : parser.poisoned = false

/-- A parser's answer to a line beside what the line costs, the payloads after those of earlier
chunks. -/
inductive Follows (limits : SseLimits) (earlier : List Text) (stream : Stream) :
    Except SseParseError Budget →
    Except (SsePushError Empty) Bool × BoundedSseParser × List Text → Prop where
  | ok {next : Budget} {parser : BoundedSseParser} {dispatched : List Text} {comment : Bool}
      (mirrors : Mirrors limits parser stream next) (line : parser.rawLine = [])
      (bom : parser.bomWindowOpen = false) (payloads : earlier ++ dispatched = stream.payloads) :
      Follows limits earlier stream (.ok next) (.ok comment, parser, dispatched)
  | error {error : SseParseError} {parser : BoundedSseParser} {dispatched : List Text} :
      Follows limits earlier stream (.error error) (.error (.parse error), parser, dispatched)

section Lines

variable {limits : SseLimits} {parser : BoundedSseParser} {stream : Stream} {budget : Budget}
  {earlier dispatched : List Text}

theorem Mirrors.inertLine (mirrors : Mirrors limits parser stream budget)
    (line : parser.rawLine = []) (bom : parser.bomWindowOpen = false)
    (payloads : earlier ++ dispatched = stream.payloads) (comment : Bool) :
    Follows limits earlier stream (budget.inertLine limits)
      (parser.inertLine comment dispatched) := by
  obtain rfl := mirrors.limits
  rw [BoundedSseParser.inertLine_eq, Budget.inertLine, mirrors.inert, counted_add]
  split
  · exact .error
  · exact .ok { mirrors with inert := rfl } line bom payloads

theorem Mirrors.dataLine (mirrors : Mirrors limits parser stream budget)
    (line : parser.rawLine = []) (bom : parser.bomWindowOpen = false)
    (payloads : earlier ++ dispatched = stream.payloads) (value : Text) (rawLen : Nat) :
    Follows limits earlier { stream with fields := stream.fields ++ [value] }
      (budget.dataLine limits value rawLen) (parser.dataLine value rawLen dispatched) := by
  have decoded :
      saturatingAdd usizeMax
          (saturatingAdd usizeMax (byteLength parser.data) (byteLength value)) 1 =
        counted (budget.decodedBytes + byteLength value + 1) := by
    rw [mirrors.decodedBytes]
    exact counted_add _ _
  obtain rfl := mirrors.limits
  rw [BoundedSseParser.dataLine, Budget.dataLine]
  simp only [decoded, mirrors.rawBytes, mirrors.dataLines, counted_add]
  split
  · exact .error
  split
  · exact .error
  refine .ok ?_ line bom payloads
  exact
    { limits := mirrors.limits
      data := by simp [mirrors.data, dataBuffer]
      fields := by simp [mirrors.fields]
      decodedBytes := by
        have feed : byteLength ['\n'] = 1 := rfl
        simp only [byteLength_append, mirrors.decodedBytes, feed]
      rawBytes := rfl
      dataLines := rfl
      inert := rfl
      poisoned := mirrors.poisoned }

theorem Mirrors.dispatch (mirrors : Mirrors limits parser stream budget)
    (line : parser.rawLine = []) (bom : parser.bomWindowOpen = false)
    (payloads : earlier ++ dispatched = stream.payloads) :
    Follows limits earlier (stream.read [])
      (if budget.fields = 0 then budget.inertLine limits else .ok .fresh)
      (parser.dispatch BoundedSseParser.collect dispatched) := by
  unfold BoundedSseParser.dispatch Stream.read
  have blank : classify [] = .blank := rfl
  simp only [blank, mirrors.data, dataBuffer_eq_nil, mirrors.fields, List.length_eq_zero_iff]
  by_cases none : stream.fields = []
  · simp only [if_pos none]
    exact mirrors.inertLine line bom payloads false
  · simp only [if_neg none, dataBuffer_eq none, List.getLast?_append, List.getLast?_singleton,
      Option.some_or, if_true, List.dropLast_concat, BoundedSseParser.collect]
    refine .ok ?_ line bom (by simp [← payloads])
    exact ⟨mirrors.limits, rfl, rfl, rfl, rfl, rfl, rfl, mirrors.poisoned⟩

theorem Mirrors.processLine (mirrors : Mirrors limits parser stream budget)
    (noLine : parser.rawLine = []) (bom : parser.bomWindowOpen = false)
    (payloads : earlier ++ dispatched = stream.payloads) (line : Text) (rawLen : Nat) :
    Follows limits earlier (stream.read line) (budget.spend limits line rawLen)
      (parser.processLineWith BoundedSseParser.collect line rawLen dispatched) := by
  unfold BoundedSseParser.processLineWith Budget.spend
  by_cases blank : line = []
  · subst blank
    exact mirrors.dispatch noLine bom payloads
  by_cases comment : line.head? = some ':'
  · have kind : classify line = .comment := by simp only [classify, if_neg blank, if_pos comment]
    simp only [if_neg blank, if_pos comment, kind, Stream.read]
    exact mirrors.inertLine noLine bom payloads true
  rw [fieldOf_eq]
  by_cases data : fieldName line = dataField
  · have kind : classify line = .data (fieldValue line) := by
      rw [classify, if_neg blank, if_neg comment]
      exact if_pos data
    simp only [if_neg blank, if_neg comment, if_pos data, kind, Stream.read]
    exact mirrors.dataLine noLine bom payloads _ rawLen
  · have kind : classify line = .other := by
      rw [classify, if_neg blank, if_neg comment]
      exact if_neg data
    simp only [if_neg blank, if_neg comment, if_neg data, kind, Stream.read]
    exact mirrors.inertLine noLine bom payloads false

/-- A completed line costs the parser what it costs the stream, and a refusal poisons. -/
theorem Mirrors.completeLine (mirrors : Mirrors limits parser stream budget)
    (payloads : earlier ++ dispatched = stream.payloads) {raw stripped : Bytes}
    (line : parser.rawLine = raw) (short : raw.length ≤ limits.lineBytes)
    (stripping : (if parser.bomWindowOpen then stripBom raw else raw) = stripped) :
    Follows limits earlier (stream.read (fromUtf8Lossy stripped))
        (budget.charge limits (raw, stripped))
        (parser.completeLineWith BoundedSseParser.collect dispatched) ∧
      ∀ error, budget.charge limits (raw, stripped) = .error error →
        (parser.completeLineWith BoundedSseParser.collect dispatched).2.1.poisoned = true := by
  obtain rfl := mirrors.limits
  unfold BoundedSseParser.completeLineWith Budget.charge
  simp only [line, stripping, if_neg (Nat.not_lt.mpr short)]
  split
  · exact ⟨.error, fun _ _ => rfl⟩
  have taken :
      Mirrors parser.limits
        { parser with
          rawLine := []
          bomWindowOpen := false } stream budget := { mirrors with }
  have follows := taken.processLine rfl rfl payloads (fromUtf8Lossy stripped) stripped.length
  generalize budget.spend _ _ _ = cost at follows ⊢
  generalize BoundedSseParser.processLineWith _ _ _ _ _ = answer at follows ⊢
  cases follows with
  | ok mirrors line bom payloads => exact ⟨.ok mirrors line bom payloads, nofun⟩
  | error => exact ⟨.error, fun _ _ => rfl⟩

end Lines

/-! ## Prefixes of a stream -/

/-- The parser after a prefix of a stream that exceeds no budget. -/
structure After (limits : SseLimits) (content : Bytes) (parser : BoundedSseParser)
    (payloads : List Text) : Prop where
  charged : ∃ budget, chargeLines limits (cutLines content).1 = .ok budget ∧
    Mirrors limits parser (readLines (stripFirst (cutLines content).1)) budget
  short : (cutLines content).2.length ≤ limits.lineBytes
  rawLine : parser.rawLine = (cutLines content).2
  bomWindowOpen : parser.bomWindowOpen = (cutLines content).1.isEmpty
  pendingCr : parser.pendingCr = endsWithReturn false content
  payloads : payloads = (readLines (stripFirst (cutLines content).1)).payloads

theorem After.notRefused {parser : BoundedSseParser} (after : After limits content parser payloads) :
    refusal limits content = none := by
  obtain ⟨budget, charged, -⟩ := after.charged
  simp only [refusal, charged, if_neg (Nat.not_lt.mpr after.short)]

theorem After.new (limits : SseLimits) : After limits [] (.new limits) [] where
  charged := ⟨.fresh, rfl, rfl, rfl, rfl, rfl, rfl, rfl, rfl, rfl⟩
  short := Nat.zero_le _
  rawLine := rfl
  bomWindowOpen := rfl
  pendingCr := rfl
  payloads := rfl

/-- A parser's answer to some bytes beside what the stream so far deserves. -/
inductive Pushed (limits : SseLimits) (content : Bytes) (earlier : List Text) :
    Except (SsePushError Empty) Bool × BoundedSseParser × List Text → Prop where
  | ok {comment : Bool} {parser : BoundedSseParser} {dispatched : List Text}
      (after : After limits content parser (earlier ++ dispatched)) :
      Pushed limits content earlier (.ok comment, parser, dispatched)
  | error {error : SseParseError} {parser : BoundedSseParser} {dispatched : List Text}
      (refused : refusal limits content = some error) (poisoned : parser.poisoned = true) :
      Pushed limits content earlier (.error (.parse error), parser, dispatched)

section Bytes

variable {limits : SseLimits} {content : Bytes} {parser : BoundedSseParser}
  {earlier dispatched : List Text}

/-- The second byte of a terminator changes nothing but the wait for it. -/
theorem After.skipFeed (after : After limits content parser (earlier ++ dispatched))
    (pending : parser.pendingCr = true) :
    After limits (content ++ [lineFeed]) { parser with pendingCr := false }
      (earlier ++ dispatched) := by
  have same := cutLines_second (after.pendingCr ▸ pending)
  obtain ⟨budget, charged, mirrors⟩ := after.charged
  exact
    { charged := ⟨budget, by rw [same]; exact charged, by rw [same]; exact { mirrors with }⟩
      short := by rw [same]; exact after.short
      rawLine := by rw [same]; exact after.rawLine
      bomWindowOpen := by rw [same]; exact after.bomWindowOpen
      pendingCr := by
        rw [endsWithReturn_append]
        rfl
      payloads := by rw [same]; exact after.payloads }

variable {byte : UInt8}

theorem After.endLine (after : After limits content parser (earlier ++ dispatched))
    (notSecond : ¬ (parser.pendingCr = true ∧ byte = lineFeed))
    (ends : byte = carriageReturn ∨ byte = lineFeed) :
    Pushed limits (content ++ [byte]) earlier
      (match { parser with pendingCr := false }.completeLineWith BoundedSseParser.collect
          dispatched with
        | (.ok comment, completed, sink) =>
          (.ok comment, { completed with pendingCr := byte = carriageReturn }, sink)
        | (.error error, refused, sink) => (.error error, refused, sink)) := by
  have cut := cutLines_end (after.pendingCr ▸ notSecond) ends
  obtain ⟨budget, charged, mirrors⟩ := after.charged
  have resumed :
      Mirrors limits { parser with pendingCr := false }
        (readLines (stripFirst (cutLines content).1)) budget := { mirrors with }
  obtain ⟨follows, poisons⟩ := resumed.completeLine after.payloads after.rawLine after.short
    (congrArg (fun first => if first then stripBom (cutLines content).2 else (cutLines content).2)
      after.bomWindowOpen)
  have charging := chargeLines_append limits (cutLines content).1 (cutLines content).2
  rw [charged] at charging
  generalize BoundedSseParser.completeLineWith _ _ _ = answer at follows poisons ⊢
  cases cost : budget.charge limits ((cutLines content).2,
      if (cutLines content).1.isEmpty then stripBom (cutLines content).2
      else (cutLines content).2) with
  | ok next =>
    rw [cost] at follows
    cases follows with
    | ok mirrors line bom payloads =>
      have read : readLines (stripFirst ((cutLines content).1 ++ [(cutLines content).2])) =
          (readLines (stripFirst (cutLines content).1)).read (fromUtf8Lossy
            (if (cutLines content).1.isEmpty then stripBom (cutLines content).2
              else (cutLines content).2)) := by
        simp [stripFirst_append, readLines]
      refine .ok ⟨⟨next, ?_, ?_⟩, ?_, ?_, ?_, ?_, ?_⟩
      · rw [cut]
        exact charging.trans cost
      · rw [cut, read]
        exact { mirrors with }
      · rw [cut]
        exact Nat.zero_le _
      · rw [cut]
        exact line
      · rw [cut, bom]
        simp
      · rw [endsWithReturn_append]
      · rw [cut, read]
        exact payloads
  | error error =>
    have poisoned := poisons error cost
    rw [cost] at follows
    cases follows with
    | error =>
      refine .error ?_ poisoned
      simp only [refusal, cut, charging.trans cost]

theorem After.longLine (after : After limits content parser (earlier ++ dispatched))
    (continues : ¬ (byte = carriageReturn ∨ byte = lineFeed))
    (full : parser.rawLine.length ≥ parser.limits.lineBytes) :
    refusal limits (content ++ [byte]) = some (.lineTooLong parser.limits.lineBytes) := by
  have cut := @cutLines_continue content byte continues
  obtain ⟨budget, charged, mirrors⟩ := after.charged
  rw [after.rawLine, mirrors.limits] at full
  simp only [refusal, cut, charged, mirrors.limits, List.length_append, List.length_singleton]
  exact if_pos (Nat.lt_succ_of_le full)

theorem After.longerLine (after : After limits content parser (earlier ++ dispatched))
    (continues : ¬ (byte = carriageReturn ∨ byte = lineFeed))
    (space : ¬ parser.rawLine.length ≥ parser.limits.lineBytes) :
    After limits (content ++ [byte])
      { parser with
        pendingCr := false
        rawLine := parser.rawLine ++ [byte] } (earlier ++ dispatched) := by
  have cut := @cutLines_continue content byte continues
  obtain ⟨budget, charged, mirrors⟩ := after.charged
  rw [after.rawLine, mirrors.limits] at space
  refine ⟨⟨budget, ?_, ?_⟩, ?_, ?_, ?_, ?_, ?_⟩
  · rw [cut]
    exact charged
  · rw [cut]
    exact { mirrors with }
  · rw [cut, List.length_append, List.length_singleton]
    omega
  · rw [cut, ← after.rawLine]
  · rw [cut]
    exact after.bomWindowOpen
  · rw [endsWithReturn_append]
    simp [not_or.mp continues]
  · rw [cut]
    exact after.payloads

theorem After.pushBytes (after : After limits content parser (earlier ++ dispatched))
    (chunk : Bytes) (activity : Bool) :
    Pushed limits (content ++ chunk) earlier
      (BoundedSseParser.pushBytes BoundedSseParser.collect chunk activity parser dispatched) := by
  induction chunk generalizing content parser activity dispatched with
  | nil =>
    rw [List.append_nil]
    exact .ok after
  | cons byte chunk ih =>
    rw [List.append_cons]
    unfold BoundedSseParser.pushBytes
    by_cases second : parser.pendingCr = true ∧ byte = lineFeed
    · rw [if_pos second]
      obtain ⟨pending, rfl⟩ := second
      exact ih (after.skipFeed pending) activity
    rw [if_neg second]
    by_cases ends : byte = carriageReturn ∨ byte = lineFeed
    · simp only [if_pos ends]
      have pushed := after.endLine second ends
      generalize BoundedSseParser.completeLineWith _ _ _ = answer at pushed ⊢
      obtain ⟨result, completed, sink⟩ := answer
      cases result with
      | ok comment =>
        cases pushed with
        | ok after => exact ih after _
      | error error =>
        cases pushed with
        | error refused poisoned => exact .error (refusal_append refused chunk) poisoned
    simp only [if_neg ends]
    by_cases full : parser.rawLine.length ≥ parser.limits.lineBytes
    · rw [if_pos full]
      exact .error (refusal_append (after.longLine ends full) chunk) rfl
    · rw [if_neg full]
      exact ih (after.longerLine ends full) activity

end Bytes

/-! ## Chunks of a stream -/

def errorOf : Except SseParseError (List Text) → Option SseParseError
  | .ok _ => none
  | .error error => some error

def payloadsOf : Except SseParseError (List Text) → List Text
  | .ok payloads => payloads
  | .error _ => []

section Chunks

variable {limits : SseLimits} {content : Bytes} {parser : BoundedSseParser} {earlier : List Text}

/-- One chunk: its payloads continue those of the stream, or the refusal is the stream's. -/
theorem After.push (after : After limits content parser earlier) (chunk : Bytes) :
    (∃ payloads pushed, parser.push chunk = (.ok payloads, pushed) ∧
        After limits (content ++ chunk) pushed (earlier ++ payloads)) ∨
      ∃ error pushed, parser.push chunk = (.error error, pushed) ∧
        refusal limits (content ++ chunk) = some error ∧ pushed.poisoned = true := by
  obtain ⟨budget, charged, mirrors⟩ := after.charged
  have fresh : After limits content parser (earlier ++ []) := by simpa using after
  have pushed := fresh.pushBytes chunk false
  unfold BoundedSseParser.push BoundedSseParser.pushWith
  simp only [mirrors.poisoned, Bool.false_eq_true, if_false]
  generalize BoundedSseParser.pushBytes _ _ _ _ _ = answer at pushed ⊢
  cases pushed with
  | ok after => exact .inl ⟨_, _, rfl, after⟩
  | error refused poisoned => exact .inr ⟨_, _, rfl, refused, poisoned⟩

theorem errors_of_poisoned (poisoned : parser.poisoned = true) (chunks : List Bytes) :
    ∀ error ∈ (parser.pushAll chunks).1.filterMap errorOf, error = .poisoned := by
  have refuses : ∀ chunk, parser.push chunk = (.error .poisoned, parser) := by
    intro chunk
    simp [BoundedSseParser.push, BoundedSseParser.pushWith, poisoned]
  induction chunks with
  | nil => nofun
  | cons chunk chunks ih =>
    simpa [BoundedSseParser.pushAll, refuses, errorOf] using ih

/-- All chunks: no error and the parser after the whole stream, or first the stream's refusal. -/
theorem After.pushAll (after : After limits content parser earlier) (chunks : List Bytes) :
    ((parser.pushAll chunks).1.filterMap errorOf = [] ∧
        After limits (content ++ chunks.flatten) (parser.pushAll chunks).2
          (earlier ++ (parser.pushAll chunks).1.flatMap payloadsOf)) ∨
      ∃ error later, (parser.pushAll chunks).1.filterMap errorOf = error :: later ∧
        refusal limits (content ++ chunks.flatten) = some error ∧
        ∀ other ∈ later, other = .poisoned := by
  induction chunks generalizing content parser earlier with
  | nil => exact .inl ⟨rfl, by simpa [BoundedSseParser.pushAll] using after⟩
  | cons chunk chunks ih =>
    rw [List.flatten_cons, ← List.append_assoc]
    rcases after.push chunk with
      ⟨payloads, pushed, answer, after⟩ | ⟨error, pushed, answer, refused, poisoned⟩
    · simp only [BoundedSseParser.pushAll, answer]
      rcases ih after with ⟨noErrors, last⟩ | ⟨error, later, errors, refused, poisons⟩
      · refine .inl ⟨(List.filterMap_cons_none rfl).trans noErrors, ?_⟩
        simpa [payloadsOf, List.append_assoc] using last
      · exact .inr ⟨error, later, (List.filterMap_cons_none rfl).trans errors, refused, poisons⟩
    · simp only [BoundedSseParser.pushAll, answer]
      exact .inr ⟨error, _, by simp [errorOf], refusal_append refused _,
        errors_of_poisoned poisoned chunks⟩

end Chunks

/-! ## The end of a stream -/

theorem stripBom_append (content : Bytes) : stripBom (utf8Bom ++ content) = content := by
  simp [stripBom]

theorem stripBom_of_unmarked (other : ¬ utf8Bom <+: content) : stripBom content = content := by
  rw [stripBom, stripPrefix_eq_none.mpr other, Option.getD_none]

theorem stripBom_eq_nil : stripBom content = [] ↔ content = [] ∨ content = utf8Bom := by
  by_cases marked : utf8Bom <+: content
  · obtain ⟨rest, rfl⟩ := marked
    rw [stripBom_append]
    simp [utf8Bom]
  · rw [stripBom_of_unmarked marked]
    constructor
    · exact .inl
    · rintro (noErrors | rfl)
      · exact noErrors
      · exact absurd (List.prefix_refl _) marked

theorem foldr_extendFirst (front : Bytes) (cut : List Bytes × Bytes) :
    front.foldr extendFirst cut =
      match cut.1 with
      | [] => ([], front ++ cut.2)
      | line :: lines => ((front ++ line) :: lines, cut.2) := by
  obtain ⟨lines, remainder⟩ := cut
  induction front with
  | nil => cases lines <;> rfl
  | cons byte front ih =>
    rw [List.foldr_cons, ih]
    cases lines <;> rfl

/-- The bytes up to the first terminator are the front of a stream. -/
theorem cutLinesFrom_front (content : Bytes) :
    (match (cutLinesFrom false content).1 with
      | [] => (cutLinesFrom false content).2
      | line :: _ => line) <+: content := by
  induction content with
  | nil => exact List.prefix_refl _
  | cons byte content ih =>
    by_cases ends : byte = carriageReturn ∨ byte = lineFeed
    · simp only [cutLinesFrom, Bool.false_eq_true, false_and, if_false, if_pos ends]
      exact List.nil_prefix
    · simp only [cutLinesFrom, Bool.false_eq_true, false_and, if_false, if_neg ends]
      generalize cutLinesFrom false content = cut at ih ⊢
      obtain ⟨lines, remainder⟩ := cut
      cases lines with
      | nil => exact List.cons_prefix_cons.mpr ⟨rfl, ih⟩
      | cons line lines => exact List.cons_prefix_cons.mpr ⟨rfl, ih⟩

/-- A byte-order mark ends no line, so it can be taken from the stream or from its first line. -/
theorem cutLines_stripBom (content : Bytes) :
    cutLines (stripBom content) =
      (stripFirst (cutLines content).1,
        if (cutLines content).1 = [] then stripBom (cutLines content).2
        else (cutLines content).2) := by
  unfold cutLines
  by_cases marked : utf8Bom <+: content
  · obtain ⟨rest, rfl⟩ := marked
    have plain : ∀ byte ∈ utf8Bom, byte ≠ carriageReturn ∧ byte ≠ lineFeed := by
      simp [utf8Bom, carriageReturn, lineFeed]
    rw [stripBom_append, cutLinesFrom_of_plain plain, foldr_extendFirst]
    generalize cutLinesFrom false rest = cut
    obtain ⟨lines, remainder⟩ := cut
    cases lines <;> simp [stripFirst, stripBom_append]
  · rw [stripBom_of_unmarked marked]
    have front := cutLinesFrom_front content
    generalize cutLinesFrom false content = cut at front ⊢
    obtain ⟨lines, remainder⟩ := cut
    cases lines with
    | nil =>
      have same := stripBom_of_unmarked fun bom => marked (bom.trans front)
      simp only [stripFirst, if_true]
      rw [same]
    | cons line lines =>
      have same := stripBom_of_unmarked fun bom => marked (bom.trans front)
      simp only [stripFirst, reduceCtorEq, if_false]
      rw [same]

/-- What the parser reports at the end, of which it takes a lone byte-order mark for a line. -/
theorem After.finish {parser : BoundedSseParser} (after : After limits content parser payloads) :
    parser.finish =
      .ok ⟨(reference content).fields ≠ [], (cutLines content).2 ≠ []⟩ := by
  obtain ⟨budget, charged, mirrors⟩ := after.charged
  simp only [BoundedSseParser.finish, mirrors.poisoned, Bool.false_eq_true, if_false, mirrors.data,
    after.rawLine, reference, cutLines_stripBom, ne_eq, dataBuffer_eq_nil]

theorem cutLines_unterminated (noLine : (cutLines content).1 = []) :
    (cutLines content).2 = content := by
  unfold cutLines at noLine ⊢
  induction content with
  | nil => rfl
  | cons byte content ih =>
    by_cases ends : byte = carriageReturn ∨ byte = lineFeed
    · simp [cutLinesFrom, ends] at noLine
    · simp only [cutLinesFrom, Bool.false_eq_true, false_and, if_false, if_neg ends] at noLine ⊢
      generalize cutLinesFrom false content = cut at ih noLine ⊢
      obtain ⟨lines, remainder⟩ := cut
      cases lines with
      | nil => exact congrArg (byte :: ·) (ih rfl)
      | cons => cases noLine

/-- The parser finds an unterminated line wherever the stream has one, and in a stream that is a
byte-order mark and nothing else. -/
theorem remainder_eq_iff (content : Bytes) :
    decide ((cutLines content).2 ≠ []) = (referenceEnd content).discardedPartialLine ↔
      content ≠ utf8Bom := by
  rw [referenceEnd, cutLines_stripBom]
  by_cases noLine : (cutLines content).1 = []
  · simp only [if_pos noLine, cutLines_unterminated noLine, decide_eq_decide, ne_eq, not_iff_not,
      stripBom_eq_nil]
    constructor
    · rintro same rfl
      cases same.mpr (.inr rfl)
    · intro other
      exact ⟨.inl, fun empty => empty.resolve_right other⟩
  · simp only [if_neg noLine, true_iff]
    rintro rfl
    exact noLine rfl

/-- The parser reads a stream as it is meant, whatever its chunks: it raises the refusal that the
stream deserves and no other, and where there is none it dispatches the payloads of the stream and
reports what its end discards. -/
structure Conforms (limits : SseLimits) (chunks : List Bytes) : Prop where
  raises :
    (((BoundedSseParser.new limits).pushAll chunks).1.filterMap errorOf).head? =
      refusal limits chunks.flatten
  poisons :
    ∀ error ∈ (((BoundedSseParser.new limits).pushAll chunks).1.filterMap errorOf).tail,
      error = .poisoned
  dispatches :
    refusal limits chunks.flatten = none →
      ((BoundedSseParser.new limits).pushAll chunks).1.flatMap payloadsOf =
        (reference chunks.flatten).payloads
  discards :
    refusal limits chunks.flatten = none →
      ((BoundedSseParser.new limits).pushAll chunks).2.finish =
        .ok (referenceEnd chunks.flatten)

/-- The parser reads every stream as it is meant, however it is cut, but for a stream that is a
byte-order mark and nothing else: of that it reports a line that its end discards. -/
theorem conforms_iff (limits : SseLimits) (chunks : List Bytes) :
    Conforms limits chunks ↔ (chunks.flatten = utf8Bom → limits.lineBytes < 3) := by
  have pushed := (After.new limits).pushAll chunks
  rw [List.nil_append, List.nil_append] at pushed
  rcases pushed with ⟨noError, after⟩ | ⟨error, later, errors, refused, poisons⟩
  · have notRefused := after.notRefused
    have atEnd := after.finish
    have payloads := after.payloads
    rw [← (Prod.mk.inj (cutLines_stripBom chunks.flatten)).1] at payloads
    constructor
    · intro conforms bom
      have report := atEnd.symm.trans (conforms.discards notRefused)
      rw [bom] at report
      exact absurd report (by decide)
    · intro short
      have line : chunks.flatten ≠ utf8Bom := by
        intro bom
        have fits := after.short
        rw [bom] at fits
        have tooShort := short bom
        have three : (cutLines utf8Bom).2.length = 3 := rfl
        omega
      refine ⟨by rw [noError, notRefused]; rfl, by rw [noError]; nofun, fun _ => payloads,
        fun _ => ?_⟩
      rw [atEnd, (remainder_eq_iff chunks.flatten).mpr line]
      rfl
  · constructor
    · intro _ bom
      by_contra long
      rw [bom] at refused
      have three : (cutLines utf8Bom).2.length = 3 := rfl
      have within : refusal limits utf8Bom = none := if_neg (by omega)
      exact nomatch within.symm.trans refused
    · intro _
      refine ⟨by rw [errors, refused]; rfl, by rw [errors]; exact poisons, ?_, ?_⟩
      · exact fun within => nomatch within.symm.trans refused
      · exact fun within => nomatch within.symm.trans refused

/-- A byte-order mark and the end of the stream: no line is left, but the report has one. -/
theorem lone_mark_reported :
    ¬ Conforms ⟨4096, 65536, 64, usizeMax, by decide, by decide, by decide, by decide⟩
      [utf8Bom] := by
  intro conforms
  have report := conforms.discards (by decide)
  exact absurd report (by decide)

end FastMcp.Sse
