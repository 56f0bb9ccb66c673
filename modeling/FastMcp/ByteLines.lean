import FastMcp.ByteText

/-! # Lines of bytes

A stream of bytes is cut after each line feed. What comes after the last one is
a line as well, unless it is empty. The content of a line is what remains
without the line feed at its end and without one carriage return before that.
-/

namespace FastMcp.ByteLines

open ByteText

def lines : Bytes → List Bytes
  | [] => []
  | byte :: rest =>
    if byte = lineFeed then [byte] :: lines rest
    else
      match lines rest with
      | [] => [[byte]]
      | line :: later => (byte :: line) :: later

def stripSuffix (byte : UInt8) (line : Bytes) : Bytes :=
  if line.getLast? = some byte then line.dropLast else line

def content (line : Bytes) : Bytes :=
  stripSuffix carriageReturn (stripSuffix lineFeed line)

/-- The contents of some lines, without those of empty lines. -/
def contents (read : List Bytes) : List Bytes :=
  (read.map content).filter (· ≠ [])

variable {line rest : Bytes}

/-! ## Cutting a stream -/

theorem lines_terminated (unbroken : lineFeed ∉ line) :
    lines (line ++ lineFeed :: rest) = (line ++ [lineFeed]) :: lines rest := by
  induction line with
  | nil => simp [lines]
  | cons byte line ih =>
    obtain ⟨other, later⟩ := not_or.mp (mt List.mem_cons.mpr unbroken)
    simp [lines, Ne.symm other, ih later]

theorem lines_unterminated (unbroken : lineFeed ∉ line) (nonempty : line ≠ []) :
    lines line = [line] := by
  induction line with
  | nil => exact absurd rfl nonempty
  | cons byte line ih =>
    obtain ⟨other, later⟩ := not_or.mp (mt List.mem_cons.mpr unbroken)
    cases line with
    | nil => simp [lines, Ne.symm other]
    | cons next more => rw [lines, if_neg (Ne.symm other), ih later (by simp)]

/-- Bytes without a line feed at the front of a stream begin its first line. -/
theorem lines_begun (unbroken : lineFeed ∉ line) (nonempty : line ≠ []) :
    ∃ more later, lines (line ++ rest) = (line ++ more) :: later := by
  induction line with
  | nil => exact absurd rfl nonempty
  | cons byte line ih =>
    obtain ⟨other, later⟩ := not_or.mp (mt List.mem_cons.mpr unbroken)
    cases line with
    | nil =>
      simp only [List.cons_append, List.nil_append, lines, if_neg (Ne.symm other)]
      cases lines rest with
      | nil => exact ⟨[], [], rfl⟩
      | cons first later => exact ⟨first, later, rfl⟩
    | cons next more =>
      obtain ⟨more, others, cut⟩ := ih later (by simp)
      refine ⟨more, others, ?_⟩
      rw [List.cons_append, lines, if_neg (Ne.symm other), cut]
      rfl

/-- The first line feed of some bytes ends their first line. -/
theorem split_of_idxOf? {position : Nat} (found : line.idxOf? lineFeed = some position) :
    ∃ front rest, line = front ++ lineFeed :: rest ∧ lineFeed ∉ front ∧
      front.length = position := by
  induction line generalizing position with
  | nil => simp at found
  | cons byte line ih =>
    rw [List.idxOf?_cons] at found
    by_cases same : byte = lineFeed
    · simp only [same, beq_self_eq_true, if_true, Option.some.injEq] at found
      exact ⟨[], line, by rw [same]; rfl, List.not_mem_nil, found⟩
    · simp only [beq_eq_false_iff_ne.mpr same, Bool.false_eq_true, if_false,
        Option.map_eq_some_iff] at found
      obtain ⟨later, isLater, rfl⟩ := found
      obtain ⟨front, rest, rfl, unbroken, rfl⟩ := ih isLater
      refine ⟨byte :: front, rest, rfl, ?_, rfl⟩
      simp [unbroken, Ne.symm same]

/-! ## The content of a line -/

theorem stripSuffix_isPrefix (byte : UInt8) (line : Bytes) : stripSuffix byte line <+: line := by
  unfold stripSuffix
  split
  · exact line.dropLast_prefix
  · exact line.prefix_refl

theorem length_stripSuffix (byte : UInt8) (line : Bytes) :
    line.length ≤ (stripSuffix byte line).length + 1 := by
  unfold stripSuffix
  split
  · rw [List.length_dropLast]
    omega
  · omega

theorem take_length_content (line : Bytes) : line.take (content line).length = content line :=
  (List.prefix_iff_eq_take.mp
    ((stripSuffix_isPrefix _ _).trans (stripSuffix_isPrefix lineFeed line))).symm

theorem length_content (line : Bytes) : line.length ≤ (content line).length + 2 := by
  have first := length_stripSuffix lineFeed line
  have second := length_stripSuffix carriageReturn (stripSuffix lineFeed line)
  unfold content
  omega

theorem length_content_begun (unbroken : lineFeed ∉ line) (more : Bytes) :
    line.length ≤ (content (line ++ more)).length + 1 := by
  cases more with
  | nil =>
    have kept : stripSuffix lineFeed (line ++ []) = line := by
      rw [List.append_nil, stripSuffix, if_neg]
      exact fun last => unbroken (List.mem_of_getLast? last)
    rw [content, kept]
    exact length_stripSuffix carriageReturn line
  | cons byte more =>
    have bound := length_content (line ++ byte :: more)
    simp only [List.length_append, List.length_cons] at bound
    omega

@[simp]
theorem contents_append (read later : List Bytes) :
    contents (read ++ later) = contents read ++ contents later := by
  simp [contents]

theorem contents_cons_of_empty (empty : content line = []) (later : List Bytes) :
    contents (line :: later) = contents later := by
  simp [contents, empty]

theorem contents_cons_of_some (nonempty : content line ≠ []) (later : List Bytes) :
    contents (line :: later) = content line :: contents later := by
  simp [contents, nonempty]

end FastMcp.ByteLines
