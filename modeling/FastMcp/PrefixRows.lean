import Mathlib.Data.List.Basic

/-! # Rows of truth values over the prefixes of a text

A dynamic program over a text keeps one truth value for each prefix of the text.
Three operations take such a row to the next one: a single admitted symbol is
appended, a run of admitted symbols is appended, or any text is appended that is
empty or ends in a closing symbol.
-/

namespace FastMcp.PrefixRows

variable {Symbol : Type}

/-- The cells of a row say which prefixes have a property. The first argument is the part
of the text before the first cell. -/
def Represents (holds : List Symbol → Prop) :
    List Symbol → List Symbol → List Bool → Prop
  | done, [], [cell] => (cell = true ↔ holds done)
  | done, symbol :: text, cell :: row =>
    (cell = true ↔ holds done) ∧ Represents holds (done ++ [symbol]) text row
  | _, _, _ => False

variable {holds next : List Symbol → Prop} {done text : List Symbol} {row : List Bool}

theorem Represents.last (represents : Represents holds done text row) :
    row[text.length]? = some true ↔ holds (done ++ text) := by
  induction text generalizing done row with
  | nil =>
    match row, represents with
    | [cell], same =>
      have isCell : cell = true ↔ holds done := same
      simpa using isCell
  | cons symbol text ih =>
    match row, represents with
    | cell :: row, ⟨_, rest⟩ => simpa using ih rest

theorem Represents.congr (represents : Represents holds done text row)
    (same : ∀ lead, holds lead ↔ next lead) : Represents next done text row := by
  have equal : holds = next := funext fun lead => propext (same lead)
  rwa [← equal]

/-- Before anything is read, only the empty prefix is reached. -/
def firstRow (text : List Symbol) : List Bool :=
  true :: List.replicate text.length false

theorem represents_replicate (nonempty : done ≠ []) (text : List Symbol) :
    Represents (· = []) done text (List.replicate (text.length + 1) false) := by
  induction text generalizing done with
  | nil => simp [Represents, nonempty]
  | cons symbol text ih =>
    rw [List.length_cons, List.replicate_succ]
    constructor
    · simp [nonempty]
    · exact ih (by simp)

theorem firstRow_represents (text : List Symbol) : Represents (· = []) [] text (firstRow text) := by
  cases text with
  | nil => simp [firstRow, Represents]
  | cons symbol text =>
    constructor
    · simp
    · exact represents_replicate (by simp) text

section OneSymbol

variable (admits : Symbol → Bool)

/-- Each cell moves on by one admitted symbol. -/
def stepCells : List Bool → List Symbol → List Bool
  | left :: row, symbol :: text => (left && admits symbol) :: stepCells row text
  | _, _ => []

def stepRow (text : List Symbol) (row : List Bool) : List Bool :=
  false :: stepCells admits row text

/-- A prefix with the property, and one admitted symbol. -/
def AfterSymbol (holds : List Symbol → Prop) (lead : List Symbol) : Prop :=
  ∃ front symbol, lead = front ++ [symbol] ∧ holds front ∧ admits symbol = true

variable {admits}

theorem afterSymbol_snoc {symbol : Symbol} :
    AfterSymbol admits holds (done ++ [symbol]) ↔ holds done ∧ admits symbol = true := by
  constructor
  · rintro ⟨front, last, equal, held, admitted⟩
    obtain ⟨rfl, sameLast⟩ := List.append_inj' equal rfl
    cases sameLast
    exact ⟨held, admitted⟩
  · rintro ⟨held, admitted⟩
    exact ⟨done, symbol, rfl, held, admitted⟩

theorem stepCells_represents (represents : Represents holds done text row) {cell : Bool}
    (isCell : cell = true ↔ AfterSymbol admits holds done) :
    Represents (AfterSymbol admits holds) done text (cell :: stepCells admits row text) := by
  induction text generalizing done row cell with
  | nil =>
    match row, represents with
    | [_], _ => exact isCell
  | cons symbol text ih =>
    match row, represents with
    | left :: row, ⟨same, rest⟩ =>
      refine ⟨isCell, ih rest ?_⟩
      rw [afterSymbol_snoc, ← same, Bool.and_eq_true]

theorem stepRow_represents (represents : Represents holds [] text row) :
    Represents (AfterSymbol admits holds) [] text (stepRow admits text row) := by
  apply stepCells_represents represents
  simp [AfterSymbol]

end OneSymbol

section Runs

variable (admits : Symbol → Bool)

/-- A cell is reached from above, or from the cell on its left by an admitted symbol. -/
def runCells (left : Bool) : List Bool → List Symbol → List Bool
  | above :: row, symbol :: text =>
    (above || (left && admits symbol)) :: runCells (above || (left && admits symbol)) row text
  | _, _ => []

def runRow (text : List Symbol) : List Bool → List Bool
  | first :: row => first :: runCells admits first row text
  | [] => []

/-- A prefix with the property, and a run of admitted symbols. -/
def AfterRun (holds : List Symbol → Prop) (lead : List Symbol) : Prop :=
  ∃ front piece, lead = front ++ piece ∧ holds front ∧ ∀ symbol ∈ piece, admits symbol = true

variable {admits}

theorem afterRun_nil : AfterRun admits holds [] ↔ holds [] := by
  constructor
  · rintro ⟨front, piece, equal, held, -⟩
    obtain ⟨rfl, rfl⟩ := List.append_eq_nil_iff.mp equal.symm
    exact held
  · intro held
    exact ⟨[], [], rfl, held, by simp⟩

theorem afterRun_snoc {symbol : Symbol} :
    AfterRun admits holds (done ++ [symbol]) ↔
      holds (done ++ [symbol]) ∨ AfterRun admits holds done ∧ admits symbol = true := by
  constructor
  · rintro ⟨front, piece, equal, held, admitted⟩
    rcases List.eq_nil_or_concat piece with rfl | ⟨piece, last, rfl⟩
    · left
      rwa [equal, List.append_nil]
    · right
      rw [List.concat_eq_append, ← List.append_assoc] at equal
      obtain ⟨rfl, sameLast⟩ := List.append_inj' equal rfl
      cases sameLast
      rw [List.concat_eq_append] at admitted
      constructor
      · exact ⟨front, piece, rfl, held, fun other listed => admitted other (by simp [listed])⟩
      · exact admitted symbol (by simp)
  · rintro (held | ⟨⟨front, piece, rfl, held, admitted⟩, last⟩)
    · exact ⟨done ++ [symbol], [], by simp, held, by simp⟩
    · refine ⟨front, piece ++ [symbol], by simp, held, ?_⟩
      intro other listed
      rcases List.mem_append.mp listed with earlier | isLast
      · exact admitted other earlier
      · rwa [List.mem_singleton.mp isLast]

theorem runCells_represents {symbol : Symbol}
    (represents : Represents holds (done ++ [symbol]) text row) {left : Bool}
    (isLeft : left = true ↔ AfterRun admits holds done) :
    Represents (AfterRun admits holds) (done ++ [symbol]) text
      (runCells admits left row (symbol :: text)) := by
  induction text generalizing done symbol row left with
  | nil =>
    match row, represents with
    | [above], same =>
      have isAbove : above = true ↔ holds (done ++ [symbol]) := same
      change (above || (left && admits symbol)) = true ↔ _
      rw [afterRun_snoc, ← isAbove, ← isLeft, Bool.or_eq_true, Bool.and_eq_true]
  | cons following text ih =>
    match row, represents with
    | above :: row, ⟨same, rest⟩ =>
      have isCell : (above || (left && admits symbol)) = true ↔
          AfterRun admits holds (done ++ [symbol]) := by
        rw [afterRun_snoc, ← same, ← isLeft, Bool.or_eq_true, Bool.and_eq_true]
      exact ⟨isCell, ih rest isCell⟩

theorem runRow_represents (represents : Represents holds [] text row) :
    Represents (AfterRun admits holds) [] text (runRow admits text row) := by
  cases text with
  | nil =>
    match row, represents with
    | [first], same =>
      change first = true ↔ _
      rw [afterRun_nil]
      exact same
  | cons symbol text =>
    match row, represents with
    | first :: row, ⟨same, rest⟩ =>
      have isFirst : first = true ↔ AfterRun admits holds [] := by
        rw [afterRun_nil]
        exact same
      exact ⟨isFirst, runCells_represents rest isFirst⟩

end Runs

section Closing

variable (closes : Symbol → Bool)

/-- A cell is reached from above, or from any cell before it when its symbol closes. -/
def closeCells (reachable : Bool) : List Bool → List Symbol → List Bool
  | above :: row, symbol :: text =>
    (above || ((reachable || above) && closes symbol)) ::
      closeCells (reachable || above) row text
  | _, _ => []

def closeRow (text : List Symbol) : List Bool → List Bool
  | first :: row => first :: closeCells closes first row text
  | [] => []

/-- A prefix with the property, and a text that is empty or ends in a closing symbol. -/
def AfterClosed (holds : List Symbol → Prop) (lead : List Symbol) : Prop :=
  ∃ front piece, lead = front ++ piece ∧ holds front ∧
    (piece = [] ∨ ∃ start symbol, piece = start ++ [symbol] ∧ closes symbol = true)

/-- Some prefix has the property. -/
def Reaches (holds : List Symbol → Prop) (lead : List Symbol) : Prop :=
  ∃ front piece, lead = front ++ piece ∧ holds front

variable {closes}

theorem reaches_nil : Reaches holds [] ↔ holds [] := by
  constructor
  · rintro ⟨front, piece, equal, held⟩
    obtain ⟨rfl, rfl⟩ := List.append_eq_nil_iff.mp equal.symm
    exact held
  · intro held
    exact ⟨[], [], rfl, held⟩

theorem reaches_snoc {symbol : Symbol} :
    Reaches holds (done ++ [symbol]) ↔ Reaches holds done ∨ holds (done ++ [symbol]) := by
  constructor
  · rintro ⟨front, piece, equal, held⟩
    rcases List.eq_nil_or_concat piece with rfl | ⟨piece, last, rfl⟩
    · right
      rwa [equal, List.append_nil]
    · left
      rw [List.concat_eq_append, ← List.append_assoc] at equal
      obtain ⟨rfl, -⟩ := List.append_inj' equal rfl
      exact ⟨front, piece, rfl, held⟩
  · rintro (⟨front, piece, rfl, held⟩ | held)
    · exact ⟨front, piece ++ [symbol], by simp, held⟩
    · exact ⟨done ++ [symbol], [], by simp, held⟩

theorem afterClosed_nil : AfterClosed closes holds [] ↔ holds [] := by
  constructor
  · rintro ⟨front, piece, equal, held, -⟩
    obtain ⟨rfl, rfl⟩ := List.append_eq_nil_iff.mp equal.symm
    exact held
  · intro held
    exact ⟨[], [], rfl, held, .inl rfl⟩

theorem afterClosed_snoc {symbol : Symbol} :
    AfterClosed closes holds (done ++ [symbol]) ↔
      holds (done ++ [symbol]) ∨ Reaches holds (done ++ [symbol]) ∧ closes symbol = true := by
  constructor
  · rintro ⟨front, piece, equal, held, rfl | ⟨start, last, rfl, closed⟩⟩
    · left
      rwa [equal, List.append_nil]
    · right
      rw [← List.append_assoc] at equal
      obtain ⟨rfl, sameLast⟩ := List.append_inj' equal rfl
      cases sameLast
      exact ⟨⟨front, start ++ [symbol], by simp, held⟩, closed⟩
  · rintro (held | ⟨⟨front, piece, equal, held⟩, closed⟩)
    · exact ⟨done ++ [symbol], [], by simp, held, .inl rfl⟩
    · rcases List.eq_nil_or_concat piece with rfl | ⟨piece, last, rfl⟩
      · exact ⟨front, [], equal, held, .inl rfl⟩
      · rw [List.concat_eq_append] at equal
        have sameLast : [symbol] = [last] := by
          rw [← List.append_assoc] at equal
          exact (List.append_inj' equal rfl).2
        cases sameLast
        exact ⟨front, piece ++ [symbol], equal, held, .inr ⟨piece, symbol, rfl, closed⟩⟩

theorem closeCells_represents {symbol : Symbol}
    (represents : Represents holds (done ++ [symbol]) text row) {reachable : Bool}
    (isReachable : reachable = true ↔ Reaches holds done) :
    Represents (AfterClosed closes holds) (done ++ [symbol]) text
      (closeCells closes reachable row (symbol :: text)) := by
  induction text generalizing done symbol row reachable with
  | nil =>
    match row, represents with
    | [above], same =>
      have isAbove : above = true ↔ holds (done ++ [symbol]) := same
      change (above || ((reachable || above) && closes symbol)) = true ↔ _
      rw [afterClosed_snoc, reaches_snoc, ← isAbove, ← isReachable]
      simp
  | cons following text ih =>
    match row, represents with
    | above :: row, ⟨same, rest⟩ =>
      constructor
      · rw [afterClosed_snoc, reaches_snoc, ← same, ← isReachable]
        simp
      · apply ih rest
        rw [reaches_snoc, ← same, ← isReachable, Bool.or_eq_true]

theorem closeRow_represents (represents : Represents holds [] text row) :
    Represents (AfterClosed closes holds) [] text (closeRow closes text row) := by
  cases text with
  | nil =>
    match row, represents with
    | [first], same =>
      change first = true ↔ _
      rw [afterClosed_nil]
      exact same
  | cons symbol text =>
    match row, represents with
    | first :: row, ⟨same, rest⟩ =>
      constructor
      · rw [afterClosed_nil]
        exact same
      · apply closeCells_represents rest
        rw [reaches_nil]
        exact same

end Closing

end FastMcp.PrefixRows
