import FastMcp.SseDecoders
import Mathlib.Data.List.TakeWhile

/-! # Event streams as a whole

What a stream of events means, stated on all of its bytes at once: the lines,
the events they dispatch and what the end of the stream discards. The budgets
are stated on the same lines, so whether a stream exceeds one does not refer to
how its bytes arrive.
-/

namespace FastMcp.Sse

open ByteText LossyUtf8 MachineWords TextCutting

/-! ## Lines -/

/-- Puts a byte in front of the first line. -/
def extendFirst (byte : UInt8) : List Bytes × Bytes → List Bytes × Bytes
  | ([], remainder) => ([], byte :: remainder)
  | (line :: lines, remainder) => ((byte :: line) :: lines, remainder)

/-- The terminated lines and what follows the last terminator. A line feed right after a carriage
return belongs to the terminator before it. -/
def cutLinesFrom (afterReturn : Bool) : Bytes → List Bytes × Bytes
  | [] => ([], [])
  | byte :: rest =>
    if afterReturn ∧ byte = lineFeed then cutLinesFrom false rest
    else if byte = carriageReturn ∨ byte = lineFeed then
      let (lines, remainder) := cutLinesFrom (byte = carriageReturn) rest
      ([] :: lines, remainder)
    else extendFirst byte (cutLinesFrom false rest)

def cutLines (content : Bytes) : List Bytes × Bytes :=
  cutLinesFrom false content

def endsWithReturn (afterReturn : Bool) : Bytes → Bool
  | [] => afterReturn
  | byte :: rest => endsWithReturn (byte = carriageReturn) rest

theorem endsWithReturn_append (afterReturn : Bool) (content : Bytes) (byte : UInt8) :
    endsWithReturn afterReturn (content ++ [byte]) = decide (byte = carriageReturn) := by
  induction content generalizing afterReturn with
  | nil => rfl
  | cons _ content ih => exact ih _

theorem cutLinesFrom_append (afterReturn : Bool) (content : Bytes) (byte : UInt8) :
    cutLinesFrom afterReturn (content ++ [byte]) =
      if endsWithReturn afterReturn content ∧ byte = lineFeed then
        cutLinesFrom afterReturn content
      else if byte = carriageReturn ∨ byte = lineFeed then
        ((cutLinesFrom afterReturn content).1 ++ [(cutLinesFrom afterReturn content).2], [])
      else
        ((cutLinesFrom afterReturn content).1, (cutLinesFrom afterReturn content).2 ++ [byte]) := by
  induction content generalizing afterReturn with
  | nil => rfl
  | cons first content ih =>
    simp only [List.cons_append, cutLinesFrom, endsWithReturn, ih]
    by_cases same : afterReturn = true ∧ first = lineFeed
    · have feed : decide (first = carriageReturn) = false := by
        rw [same.2]
        rfl
      simp only [if_pos same, feed]
    simp only [if_neg same]
    by_cases ends : first = carriageReturn ∨ first = lineFeed
    · simp only [if_pos ends]
      split
      · rfl
      split <;> rfl
    · have other : decide (first = carriageReturn) = false := by simp [not_or.mp ends]
      simp only [if_neg ends, other]
      generalize cutLinesFrom false content = cut
      obtain ⟨lines, remainder⟩ := cut
      split
      · rfl
      cases lines <;> split <;> rfl

section Bytes

variable {content : Bytes} {byte : UInt8}

theorem cutLines_second (pending : endsWithReturn false content = true) :
    cutLines (content ++ [lineFeed]) = cutLines content := by
  unfold cutLines
  rw [cutLinesFrom_append, if_pos ⟨pending, rfl⟩]

theorem cutLines_end (notSecond : ¬ (endsWithReturn false content = true ∧ byte = lineFeed))
    (ends : byte = carriageReturn ∨ byte = lineFeed) :
    cutLines (content ++ [byte]) = ((cutLines content).1 ++ [(cutLines content).2], []) := by
  unfold cutLines
  rw [cutLinesFrom_append, if_neg notSecond, if_pos ends]

theorem cutLines_continue (continues : ¬ (byte = carriageReturn ∨ byte = lineFeed)) :
    cutLines (content ++ [byte]) = ((cutLines content).1, (cutLines content).2 ++ [byte]) := by
  unfold cutLines
  rw [cutLinesFrom_append, if_neg fun second => continues (.inr second.2), if_neg continues]

end Bytes

theorem cutLinesFrom_of_plain {front : Bytes}
    (plain : ∀ byte ∈ front, byte ≠ carriageReturn ∧ byte ≠ lineFeed) (content : Bytes) :
    cutLinesFrom false (front ++ content) =
      front.foldr extendFirst (cutLinesFrom false content) := by
  induction front with
  | nil => rfl
  | cons byte front ih =>
    obtain ⟨notReturn, notFeed⟩ := plain byte List.mem_cons_self
    have rest := ih fun other member => plain other (List.mem_cons_of_mem _ member)
    simp [cutLinesFrom, notReturn, notFeed, rest]

/-- The lines without a byte-order mark at the front of the first. -/
def stripFirst : List Bytes → List Bytes
  | [] => []
  | line :: lines => stripBom line :: lines

theorem stripFirst_append (lines : List Bytes) (raw : Bytes) :
    stripFirst (lines ++ [raw]) =
      stripFirst lines ++ [if lines.isEmpty then stripBom raw else raw] := by
  cases lines <;> rfl

theorem length_stripFirst (lines : List Bytes) : (stripFirst lines).length = lines.length := by
  cases lines <;> rfl

/-! ## Events -/

inductive LineKind where
  | blank
  | comment
  | data (value : Text)
  | other
deriving DecidableEq, Repr

/-- The name of a field is what precedes the first colon, or the whole line. -/
def fieldName (line : Text) : Text := line.takeWhile (· ≠ ':')

/-- The value of a field is what follows the first colon and one space behind it. -/
def fieldValue (line : Text) : Text :=
  match line.dropWhile (· ≠ ':') with
  | _ :: ' ' :: value => value
  | _ :: value => value
  | [] => []

def classify (line : Text) : LineKind :=
  if line = [] then .blank
  else if line.head? = some ':' then .comment
  else if fieldName line = "data".toList then .data (fieldValue line)
  else .other

/-- The parsers take a line apart in this way. -/
theorem fieldOf_eq (line : Text) : fieldOf line = (fieldName line, fieldValue line) := by
  have plain {text : Text} (absent : ':' ∉ text) : ∀ symbol ∈ text, decide (symbol ≠ ':') = true :=
    fun symbol listed => decide_eq_true fun same => absent (same ▸ listed)
  unfold fieldOf fieldName fieldValue
  cases cut : splitOnce ':' line with
  | none =>
    have absent := splitOnce_eq_none.mp cut
    rw [List.takeWhile_eq_self_iff.mpr (plain absent), List.dropWhile_eq_nil_iff.mpr (plain absent)]
  | some pieces =>
    obtain ⟨field, value⟩ := pieces
    obtain ⟨rfl, absent⟩ := splitOnce_eq_some.mp cut
    rw [List.takeWhile_append_of_pos (plain absent), List.dropWhile_append_of_pos (plain absent)]
    rcases value with _ | ⟨first, value⟩
    · simp [stripPrefix]
    · by_cases space : first = ' '
      · subst space
        simp [stripPrefix]
      · simp [stripPrefix, space, Ne.symm space]

/-- The payloads dispatched so far, and the values of the data fields since. -/
structure Stream where
  payloads : List Text
  fields : List Text
deriving DecidableEq, Repr

def Stream.read (stream : Stream) (line : Text) : Stream :=
  match classify line with
  | .blank =>
    if stream.fields = [] then stream
    else ⟨stream.payloads ++ [['\n'].intercalate stream.fields], []⟩
  | .data value => { stream with fields := stream.fields ++ [value] }
  | .comment | .other => stream

/-- The stream that some lines describe. -/
def readLines (lines : List Bytes) : Stream :=
  (lines.map fromUtf8Lossy).foldl Stream.read ⟨[], []⟩

/-- The events of a byte string: one byte-order mark at the front is not part of a line. -/
def reference (content : Bytes) : Stream :=
  readLines (cutLines (stripBom content)).1

/-- What the end of a byte string discards: an event without its blank line, and a line without
its terminator. -/
def referenceEnd (content : Bytes) : SseEndOfStream :=
  ⟨(reference content).fields ≠ [], (cutLines (stripBom content)).2 ≠ []⟩

/-! ## Budgets -/

/-- An amount as a counter shows it, which stops at the greatest word. -/
def counted (amount : Nat) : Nat :=
  min amount usizeMax

/-- The cost of the event being assembled, and the lines since the last data field or event. -/
structure Budget where
  decodedBytes : Nat
  rawBytes : Nat
  fields : Nat
  inert : Nat
deriving DecidableEq, Repr

namespace Budget

def fresh : Budget := ⟨0, 0, 0, 0⟩

def inertLine (budget : Budget) (limits : SseLimits) : Except SseParseError Budget :=
  if counted (budget.inert + 1) > limits.keepaliveLines then
    .error (.keepaliveFlood limits.keepaliveLines)
  else .ok { budget with inert := budget.inert + 1 }

def dataLine (budget : Budget) (limits : SseLimits) (value : Text) (rawLen : Nat) :
    Except SseParseError Budget :=
  if counted (budget.decodedBytes + byteLength value + 1) > limits.eventBytes ∨
      counted (budget.rawBytes + rawLen) > limits.eventBytes then
    .error (.eventTooLarge limits.eventBytes)
  else if counted (budget.fields + 1) > limits.dataLines then
    .error (.tooManyDataLines limits.dataLines)
  else
    .ok ⟨budget.decodedBytes + byteLength value + 1, budget.rawBytes + rawLen,
      budget.fields + 1, 0⟩

/-- The cost of a line by its kind. -/
def spend (budget : Budget) (limits : SseLimits) (line : Text) (rawLen : Nat) :
    Except SseParseError Budget :=
  match classify line with
  | .blank => if budget.fields = 0 then budget.inertLine limits else .ok fresh
  | .data value => budget.dataLine limits value rawLen
  | .comment | .other => budget.inertLine limits

/-- Charges a line, whose length counts with the byte-order mark and, once more, decoded. -/
def charge (limits : SseLimits) (budget : Budget) (line : Bytes × Bytes) :
    Except SseParseError Budget :=
  if line.1.length > limits.lineBytes then .error (.lineTooLong limits.lineBytes)
  else if byteLength (fromUtf8Lossy line.2) > limits.lineBytes then
    .error (.lineTooLong limits.lineBytes)
  else budget.spend limits (fromUtf8Lossy line.2) line.2.length

end Budget

/-- What some lines cost. -/
def chargeLines (limits : SseLimits) (lines : List Bytes) : Except SseParseError Budget :=
  (lines.zip (stripFirst lines)).foldlM (Budget.charge limits) Budget.fresh

theorem chargeLines_append (limits : SseLimits) (lines : List Bytes) (raw : Bytes) :
    chargeLines limits (lines ++ [raw]) =
      (chargeLines limits lines).bind fun budget =>
        budget.charge limits (raw, if lines.isEmpty then stripBom raw else raw) := by
  unfold chargeLines
  rw [stripFirst_append, List.zip_append (length_stripFirst lines).symm, List.foldlM_append]
  refine congrArg _ (funext fun budget => ?_)
  simp only [List.zip_cons_cons, List.zip_nil_left, List.foldlM_cons, List.foldlM_nil]
  exact bind_pure _

/-- The first budget that a byte string exceeds, its unterminated line included. -/
def refusal (limits : SseLimits) (content : Bytes) : Option SseParseError :=
  match chargeLines limits (cutLines content).1 with
  | .error error => some error
  | .ok _ =>
    if (cutLines content).2.length > limits.lineBytes then some (.lineTooLong limits.lineBytes)
    else none

end FastMcp.Sse
