import FastMcp.Docket
import FastMcp.FixedWidthText

/-! # Members of the shared task queue

The shared backend keeps waiting tasks in a sorted set whose members it compares
byte by byte. A member holds the inverted priority and the time of creation, both
of fixed width, and the identifier of the task, which the dequeuing script takes
out again with a pattern.
-/

namespace FastMcp.Docket

open ByteText FixedWidthText

variable {Value : Type}

def i32Max : Int := 2 ^ 31 - 1

/-- Writes a number with zeros up to a width, which includes the sign. -/
def formatPadded (width : Nat) : Int → List Char
  | .ofNat number => zeroPadded width number
  | .negSucc number => '-' :: zeroPadded (width - 1) (number + 1)

/-- The time of creation in milliseconds, which is the present for a text that is not a time. -/
def createdMs (timestampMillis : String → Option Int) (now : Int) (task : DocketTask Value) : Int :=
  (timestampMillis task.createdAt).getD now

def encodeMember (timestampMillis : String → Option Int) (now : Int) (task : DocketTask Value) :
    String :=
  let prioKey := i32Max - task.priority
  String.ofList (formatPadded 10 prioKey ++ ':' ::
    (formatPadded 13 (createdMs timestampMillis now task) ++ ':' :: task.id.toList))

/-! ## The pattern of the dequeuing script -/

/-- One or more bytes of a class: as many as possible, and fewer if what follows does not match
otherwise. -/
def oneOrMore {Capture : Type} (accepts : UInt8 → Bool) (follow : Bytes → Option Capture) :
    Bytes → Option Capture
  | [] => none
  | byte :: rest => if accepts byte then oneOrMore accepts follow rest <|> follow rest else none

def literal {Capture : Type} (expected : UInt8) (follow : Bytes → Option Capture) :
    Bytes → Option Capture
  | [] => none
  | byte :: rest => if byte = expected then follow rest else none

/-- The capture of the pattern `^[^:]+:[^:]+:(.+)$`. -/
def extractTaskId : Bytes → Option Bytes :=
  oneOrMore (· ≠ colon) <| literal colon <| oneOrMore (· ≠ colon) <| literal colon fun captured =>
    oneOrMore (fun _ => true)
      (fun rest =>
        if rest = [] then some (captured.take (captured.length - rest.length)) else none)
      captured

theorem oneOrMore_append {Capture : Type} {accepts : UInt8 → Bool}
    {follow : Bytes → Option Capture} {text rest : Bytes} {capture : Capture} (nonempty : text ≠ [])
    (accepted : ∀ byte ∈ text, accepts byte = true)
    (foreign : ∀ byte, rest.head? = .some byte → accepts byte = false)
    (follows : follow rest = .some capture) :
    oneOrMore accepts follow (text ++ rest) = .some capture := by
  induction text with
  | nil => contradiction
  | cons byte text ih =>
    obtain ⟨isAccepted, accepted⟩ := List.forall_mem_cons.mp accepted
    rw [List.cons_append, oneOrMore, if_pos isAccepted]
    cases text with
    | nil =>
      have stops : oneOrMore accepts follow rest = none := by
        cases rest with
        | nil => rfl
        | cons next rest => rw [oneOrMore, foreign next rfl, if_neg Bool.false_ne_true]
      rw [List.nil_append, stops, follows]
      rfl
    | cons next text =>
      rw [ih (List.cons_ne_nil _ _) accepted]
      rfl

/-- Only the first two separators count, so an identifier may have separators of its own. -/
theorem extractTaskId_append {first second id : Bytes} (firstSome : first ≠ [])
    (firstPlain : colon ∉ first) (secondSome : second ≠ []) (secondPlain : colon ∉ second)
    (idSome : id ≠ []) :
    extractTaskId (first ++ colon :: (second ++ colon :: id)) = some id := by
  have plain {text : Bytes} (notListed : colon ∉ text) :
      ∀ byte ∈ text, decide (byte ≠ colon) = true := by
    intro byte listed
    exact decide_eq_true fun same => notListed (same ▸ listed)
  have atColon : ∀ byte rest, (colon :: rest : Bytes).head? = some byte →
      decide (byte ≠ colon) = false := by
    rintro byte rest ⟨⟩
    rfl
  apply oneOrMore_append firstSome (plain firstPlain) fun byte => atColon byte _
  rw [literal, if_pos rfl]
  apply oneOrMore_append secondSome (plain secondPlain) fun byte => atColon byte _
  rw [literal, if_pos rfl, ← List.append_nil id]
  apply oneOrMore_append idSome (by simp) (by simp)
  simp

/-! ## Members -/

section Members

variable {timestampMillis : String → Option Int} {now otherNow : Int}
  {task other : DocketTask Value}

/-- A task whose priority is a 32-bit integer and whose time of creation has thirteen digits at
most. -/
structure Representable (timestampMillis : String → Option Int) (now : Int)
    (task : DocketTask Value) : Prop where
  priorityLow : -2 ^ 31 ≤ task.priority
  priorityHigh : task.priority < 2 ^ 31
  createdLow : 0 ≤ createdMs timestampMillis now task
  createdHigh : createdMs timestampMillis now task < 10 ^ 13

theorem bytes_encodeMember (fits : Representable timestampMillis now task) :
    bytes (encodeMember timestampMillis now task) =
      paddedBytes 10 (i32Max - task.priority).toNat ++ colon ::
        (paddedBytes 13 (createdMs timestampMillis now task).toNat ++ colon :: bytes task.id) := by
  have padded {width : Nat} {number : Int} (natural : 0 ≤ number) :
      formatPadded width number = zeroPadded width number.toNat := by
    obtain ⟨number, rfl⟩ := Int.eq_ofNat_of_zero_le natural
    rfl
  have priority : 0 ≤ i32Max - task.priority := by
    have high := fits.priorityHigh
    unfold i32Max
    omega
  have separator : String.utf8EncodeChar ':' = [colon] := by decide
  rw [encodeMember, padded priority, padded fits.createdLow, bytes_ofList]
  simp [paddedBytes, separator, bytes_eq_flatMap task.id]

/-- Members are ordered by priority, the highest first, then by time of creation and then by
identifier, and the script finds the identifier of a member. -/
theorem encodeMember_order (fits : Representable timestampMillis now task)
    (otherFits : Representable timestampMillis otherNow other) (named : task.id ≠ "") :
    (bytes (encodeMember timestampMillis now task) <
        bytes (encodeMember timestampMillis otherNow other) ↔
      other.priority < task.priority ∨ other.priority = task.priority ∧
        (createdMs timestampMillis now task < createdMs timestampMillis otherNow other ∨
          createdMs timestampMillis now task = createdMs timestampMillis otherNow other ∧
            bytes task.id < bytes other.id)) ∧
      extractTaskId (bytes (encodeMember timestampMillis now task)) = some (bytes task.id) := by
  have prioritySmall {now : Int} {task : DocketTask Value}
      (fits : Representable timestampMillis now task) :
      (i32Max - task.priority).toNat < 10 ^ 10 := by
    have low := fits.priorityLow
    unfold i32Max
    omega
  have createdSmall {now : Int} {task : DocketTask Value}
      (fits : Representable timestampMillis now task) :
      (createdMs timestampMillis now task).toNat < 10 ^ 13 := by
    have high := fits.createdHigh
    omega
  have noColon {width number : Nat} (small : number < 10 ^ (width + 1)) :
      paddedBytes (width + 1) number ≠ [] ∧ colon ∉ paddedBytes (width + 1) number := by
    refine ⟨fun empty => ?_, fun listed => ?_⟩
    · have length := length_paddedBytes small
      rw [empty] at length
      contradiction
    · exact absurd (mem_paddedBytes small listed) (by decide)
  rw [bytes_encodeMember fits, bytes_encodeMember otherFits]
  constructor
  · have priorities := paddedBytes_order (prioritySmall fits) (prioritySmall otherFits)
    have times := paddedBytes_order (createdSmall fits) (createdSmall otherFits)
    have priorityWidths := (length_paddedBytes (prioritySmall fits)).trans
      (length_paddedBytes (prioritySmall otherFits)).symm
    have timeWidths := (length_paddedBytes (createdSmall fits)).trans
      (length_paddedBytes (createdSmall otherFits)).symm
    have high := fits.priorityHigh
    have otherHigh := otherFits.priorityHigh
    have low := fits.createdLow
    have otherLow := otherFits.createdLow
    have priorityLess : (i32Max - task.priority).toNat < (i32Max - other.priority).toNat ↔
        other.priority < task.priority := by
      unfold i32Max
      omega
    have prioritySame : (i32Max - task.priority).toNat = (i32Max - other.priority).toNat ↔
        other.priority = task.priority := by
      unfold i32Max
      omega
    have timeLess : (createdMs timestampMillis now task).toNat <
          (createdMs timestampMillis otherNow other).toNat ↔
        createdMs timestampMillis now task < createdMs timestampMillis otherNow other := by
      omega
    have timeSame : (createdMs timestampMillis now task).toNat =
          (createdMs timestampMillis otherNow other).toNat ↔
        createdMs timestampMillis now task = createdMs timestampMillis otherNow other := by
      omega
    rw [append_lt_append_iff priorityWidths, priorities.1, priorities.2, List.cons_lt_cons_iff,
      append_lt_append_iff timeWidths, times.1, times.2, List.cons_lt_cons_iff, priorityLess,
      prioritySame, timeLess, timeSame]
    simp only [UInt8.lt_irrefl, true_and, false_or]
  · have isSome : bytes task.id ≠ [] := by
      intro empty
      exact named (bytes_injective (empty.trans (by decide)))
    obtain ⟨prioritySome, priorityPlain⟩ := noColon (prioritySmall fits)
    obtain ⟨timeSome, timePlain⟩ := noColon (createdSmall fits)
    exact extractTaskId_append prioritySome priorityPlain timeSome timePlain isSome

end Members

/-- The times of the two tasks below, in milliseconds. -/
def readTime (text : String) : Option Int :=
  if text = "1970-01-01T00:00:00.005+00:00" then some 5
  else if text = "1970-01-01T00:00:00.004+00:00" then some 4
  else none

/-- A task of the highest priority whose identifier has a colon. -/
def urgentTask : DocketTask Unit :=
  ⟨"a:b", "work", (), 2 ^ 31 - 1, 0, 3, "1970-01-01T00:00:00.005+00:00", none, .pending, none,
    none⟩

/-- An earlier task of the lowest priority. -/
def idleTask : DocketTask Unit :=
  ⟨"c", "work", (), -2 ^ 31, 0, 3, "1970-01-01T00:00:00.004+00:00", none, .pending, none, none⟩

/-- At the ends of the range of priorities, the higher one comes first although it was created
later, and the colon of the identifier is part of it. -/
theorem encodeMember_extremes :
    createdMs readTime 0 idleTask < createdMs readTime 0 urgentTask ∧
      bytes (encodeMember readTime 0 urgentTask) < bytes (encodeMember readTime 0 idleTask) ∧
      extractTaskId (bytes (encodeMember readTime 0 urgentTask)) = some (bytes "a:b") := by
  have urgent : Representable readTime 0 urgentTask :=
    ⟨by decide, by decide, by decide, by decide⟩
  have idle : Representable readTime 0 idleTask :=
    ⟨by decide, by decide, by decide, by decide⟩
  obtain ⟨order, extracted⟩ := encodeMember_order urgent idle (by decide)
  exact ⟨by decide, order.mpr (.inl (by decide)), extracted⟩

end FastMcp.Docket
