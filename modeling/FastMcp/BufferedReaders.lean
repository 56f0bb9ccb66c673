import FastMcp.ByteSources

/-! # Buffered readers

A buffered reader keeps the bytes of its last read that nobody has taken yet,
and reads again once there are none. A read may fail instead of answering.
-/

namespace FastMcp.BufferedReaders

open ByteText ByteSources

/-- A source behind a buffer of fixed capacity. -/
structure BufReader (Failure : Type) where
  source : ByteSource
  /-- Which of the coming reads fail; those beyond the end of the list do not. -/
  faults : List (Option Failure)
  buffered : Bytes

/-- The capacity of a buffered reader. -/
def bufferCapacity : Nat := 8192

inductive Fill (Failure : Type) where
  | available (content : Bytes)
  | interrupted
  | failed (failure : Failure)

namespace BufReader

variable {Failure : Type}

def fillBuf (capacity : Nat) (reader : BufReader Failure) : Fill Failure × BufReader Failure :=
  if reader.buffered ≠ [] then (.available reader.buffered, reader)
  else
    match reader.faults.head?.join with
    | some failure => (.failed failure, { reader with faults := reader.faults.tail })
    | none =>
      match reader.source.read capacity with
      | (none, source) => (.interrupted, ⟨source, reader.faults.tail, []⟩)
      | (some content, source) => (.available content, ⟨source, reader.faults.tail, content⟩)

def consume (reader : BufReader Failure) (count : Nat) : BufReader Failure :=
  { reader with buffered := reader.buffered.drop count }

/-- All bytes that are still to come. -/
def pending (reader : BufReader Failure) : Bytes :=
  reader.buffered ++ reader.source.remaining

/-- Bounds the bytes and interruptions that are still to come. -/
def measure (reader : BufReader Failure) : Nat :=
  reader.source.plan.length + reader.pending.length

variable {reader : BufReader Failure} {capacity : Nat}

theorem measure_consume {count : Nat} (within : count ≤ reader.buffered.length) :
    (reader.consume count).measure + count = reader.measure := by
  simp only [measure, pending, consume, List.length_append, List.length_drop]
  omega

theorem fillBuf_interrupted {next : BufReader Failure}
    (filled : reader.fillBuf capacity = (.interrupted, next)) :
    next.pending = reader.pending ∧ next.faults = reader.faults.tail ∧
      next.measure < reader.measure := by
  unfold fillBuf at filled
  by_cases kept : reader.buffered ≠ []
  · simp [if_pos kept] at filled
  rw [if_neg kept] at filled
  split at filled
  · simp at filled
  have answered : (reader.source.read capacity).1 = none := by
    split at filled <;> simp_all
  unfold ByteSource.read at filled answered
  cases plan : reader.source.plan with
  | nil => simp [plan] at answered
  | cons delivery later =>
    cases delivery with
    | upTo => simp [plan] at answered
    | interrupted =>
      simp only [plan, Prod.mk.injEq, true_and] at filled
      subst filled
      simp [measure, pending, not_not.mp kept, plan]

theorem fillBuf_available (positive : 0 < capacity) {next : BufReader Failure} {content : Bytes}
    (filled : reader.fillBuf capacity = (.available content, next)) :
    next.buffered = content ∧ next.pending = reader.pending ∧
      (reader.faults = [] → next.faults = []) ∧ next.measure ≤ reader.measure ∧
        (content = [] ↔ reader.pending = []) := by
  unfold fillBuf at filled
  by_cases kept : reader.buffered ≠ []
  · simp only [if_pos kept, Prod.mk.injEq, Fill.available.injEq] at filled
    obtain ⟨rfl, rfl⟩ := filled
    exact ⟨rfl, rfl, id, Nat.le_refl _, by simp [pending, kept]⟩
  rw [if_neg kept] at filled
  rw [not_not] at kept
  split at filled
  · simp at filled
  split at filled
  · simp at filled
  · rename_i answered
    simp only [Prod.mk.injEq, Fill.available.injEq] at filled
    obtain ⟨rfl, rfl⟩ := filled
    obtain ⟨split, -, ended⟩ := ByteSource.read_eq_some answered
    have shorter := ByteSource.plan_read_le reader.source capacity
    simp only [answered] at shorter
    simp only [measure, pending, kept, List.nil_append, ← split, true_and]
    exact ⟨fun exhausted => by rw [exhausted]; rfl, by omega, ended positive⟩

theorem fillBuf_faults (reader : BufReader Failure) (capacity : Nat) :
    (reader.fillBuf capacity).2.faults ⊆ reader.faults := by
  unfold fillBuf
  split
  · exact List.Subset.refl _
  · split
    · exact List.tail_subset _
    · split
      · exact List.tail_subset _
      · exact List.tail_subset _

theorem fillBuf_failed {next : BufReader Failure} {failure : Failure}
    (filled : reader.fillBuf capacity = (.failed failure, next)) :
    some failure ∈ reader.faults := by
  unfold fillBuf at filled
  split at filled
  · simp at filled
  split at filled
  · rename_i fault isFault
    simp only [Prod.mk.injEq, Fill.failed.injEq] at filled
    obtain ⟨rfl, -⟩ := filled
    exact List.mem_of_head? (Option.join_eq_some_iff.mp isFault)
  · split at filled
    · simp at filled
    · simp at filled

theorem fillBuf_of_faultless (faultless : reader.faults = []) :
    (∃ next, reader.fillBuf capacity = (.interrupted, next)) ∨
      ∃ content next, reader.fillBuf capacity = (.available content, next) := by
  unfold fillBuf
  by_cases kept : reader.buffered ≠ []
  · exact .inr ⟨_, _, if_pos kept⟩
  · simp only [if_neg kept, faultless, List.head?_nil, Option.join_none]
    rcases reader.source.read capacity with ⟨_ | content, source⟩
    · exact .inl ⟨_, rfl⟩
    · exact .inr ⟨_, _, rfl⟩

end BufReader

end FastMcp.BufferedReaders
