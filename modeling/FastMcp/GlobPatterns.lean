import FastMcp.FilesystemProvider
import FastMcp.PrefixRows

/-! # Glob patterns

Patterns decide which files a provider serves. A pattern is compiled to tokens,
and the tokens are matched against a path by a dynamic program with one row of
truth values per token.
-/

namespace FastMcp.Filesystem

open ByteText PrefixRows

def maxGlobPatternBytes : Nat := 128
def maxGlobWildcardsPerPattern : Nat := 32

inductive GlobToken where
  | literal (character : Char)
  | anyCharacter
  | anySegmentSequence
  | anyRecursivePrefix
  | anyRecursiveSequence
deriving DecidableEq, Repr

/-- Adds a token in front, unless there are too many wildcards by now. -/
def emitToken (wildcards : Nat) (token : GlobToken) (rest : Option (List GlobToken)) :
    Option (List GlobToken) :=
  if wildcards > maxGlobWildcardsPerPattern then none else rest.map (token :: ·)

/-- Compiles the rest of a pattern after the given character and number of wildcards. -/
def compileTokens : Option Char → Nat → List Char → Option (List GlobToken)
  | _, _, [] => some []
  | _, wildcards, '?' :: rest =>
    emitToken (wildcards + 1) .anyCharacter (compileTokens (some '?') (wildcards + 1) rest)
  | previous, wildcards, '*' :: '*' :: '/' :: rest =>
    if previous.any (· ≠ '/') then none
    else
      emitToken (wildcards + 1) .anyRecursivePrefix
        (compileTokens (some '/') (wildcards + 1) rest)
  | previous, wildcards, ['*', '*'] =>
    if previous.any (· ≠ '/') then none
    else emitToken (wildcards + 1) .anyRecursiveSequence (some [])
  -- Two stars are followed by something that is not a separator.
  | _, _, '*' :: '*' :: _ => none
  | _, wildcards, '*' :: rest =>
    emitToken (wildcards + 1) .anySegmentSequence (compileTokens (some '*') (wildcards + 1) rest)
  | _, wildcards, literal :: rest =>
    emitToken wildcards (.literal literal) (compileTokens (some literal) wildcards rest)

def compileGlobTokens (pattern : String) : Option (List GlobToken) :=
  if pattern.utf8ByteSize > maxGlobPatternBytes || pattern.toList.any isControl then none
  else compileTokens none 0 pattern.toList

/-- The row after one more token. -/
def nextRow (path : List Char) (previous : List Bool) : GlobToken → List Bool
  | .literal literal => stepRow (· == literal) path previous
  | .anyCharacter => stepRow (· != '/') path previous
  | .anySegmentSequence => runRow (· != '/') path previous
  | .anyRecursiveSequence => runRow (fun _ => true) path previous
  | .anyRecursivePrefix => closeRow (· == '/') path previous

def globMatch (pattern path : String) : Bool :=
  match compileGlobTokens pattern with
  | none => false
  | some tokens =>
    (tokens.foldl (nextRow path.toList) (firstRow path.toList))[path.toList.length]? = some true

/-! ## What a pattern matches -/

/-- A path that splits into pieces that match the pattern from left to right. -/
inductive GlobMatches : List Char → List Char → Prop
  | nil : GlobMatches [] []
  | literal {pattern path : List Char} (character : Char) (notAny : character ≠ '?')
    (notStar : character ≠ '*') (rest : GlobMatches pattern path) :
    GlobMatches (character :: pattern) (character :: path)
  | anyCharacter {pattern path : List Char} (character : Char) (notSlash : character ≠ '/')
    (rest : GlobMatches pattern path) : GlobMatches ('?' :: pattern) (character :: path)
  | star {pattern path : List Char} (piece : List Char) (single : pattern.head? ≠ some '*')
    (noSlash : '/' ∉ piece) (rest : GlobMatches pattern path) :
    GlobMatches ('*' :: pattern) (piece ++ path)
  | directories {pattern path : List Char} (piece : List Char)
    (closed : piece = [] ∨ piece.getLast? = some '/') (rest : GlobMatches pattern path) :
    GlobMatches ('*' :: '*' :: '/' :: pattern) (piece ++ path)
  | anything (piece : List Char) : GlobMatches ['*', '*'] piece

/-- What one token matches. -/
def GlobToken.Matches : GlobToken → List Char → Prop
  | .literal character, piece => piece = [character]
  | .anyCharacter, piece => ∃ character, character ≠ '/' ∧ piece = [character]
  | .anySegmentSequence, piece => '/' ∉ piece
  | .anyRecursivePrefix, piece => piece = [] ∨ piece.getLast? = some '/'
  | .anyRecursiveSequence, _ => True

def TokensMatch : List GlobToken → List Char → Prop
  | [], path => path = []
  | token :: tokens, path =>
    ∃ piece rest, path = piece ++ rest ∧ token.Matches piece ∧ TokensMatch tokens rest

theorem tokensMatch_append {tokens : List GlobToken} {token : GlobToken} {path : List Char} :
    TokensMatch (tokens ++ [token]) path ↔
      ∃ lead piece, path = lead ++ piece ∧ TokensMatch tokens lead ∧ token.Matches piece := by
  induction tokens generalizing path with
  | nil => simp [TokensMatch]
  | cons first tokens ih =>
    simp only [List.cons_append, TokensMatch, ih]
    constructor
    · rintro ⟨piece, rest, rfl, matched, lead, last, rfl, others, lastMatched⟩
      exact ⟨piece ++ lead, last, by simp, ⟨piece, lead, rfl, matched, others⟩, lastMatched⟩
    · rintro ⟨lead, last, rfl, ⟨piece, rest, rfl, matched, others⟩, lastMatched⟩
      exact ⟨piece, rest ++ last, by simp, matched, rest, last, rfl, others, lastMatched⟩

/-- Each token makes one step of the dynamic program. -/
theorem nextRow_represents {path : List Char} {row : List Bool} {tokens : List GlobToken}
    (represents : Represents (TokensMatch tokens) [] path row) (token : GlobToken) :
    Represents (TokensMatch (tokens ++ [token])) [] path (nextRow path row token) := by
  cases token with
  | literal character =>
    apply (stepRow_represents represents).congr
    intro lead
    rw [tokensMatch_append]
    constructor
    · rintro ⟨front, symbol, rfl, held, admitted⟩
      exact ⟨front, [symbol], rfl, held, by simpa [GlobToken.Matches] using admitted⟩
    · rintro ⟨front, piece, rfl, held, rfl⟩
      exact ⟨front, character, rfl, held, by simp⟩
  | anyCharacter =>
    apply (stepRow_represents represents).congr
    intro lead
    rw [tokensMatch_append]
    constructor
    · rintro ⟨front, symbol, rfl, held, admitted⟩
      exact ⟨front, [symbol], rfl, held, symbol, by simpa using admitted, rfl⟩
    · rintro ⟨front, piece, rfl, held, character, notSlash, rfl⟩
      exact ⟨front, character, rfl, held, by simpa using notSlash⟩
  | anySegmentSequence =>
    apply (runRow_represents represents).congr
    intro lead
    rw [tokensMatch_append]
    apply exists_congr
    intro front
    apply exists_congr
    intro piece
    have noSlash : (∀ symbol ∈ piece, (symbol != '/') = true) ↔ '/' ∉ piece := by
      simp only [bne_iff_ne]
      exact ⟨fun admitted listed => admitted _ listed rfl, fun absent symbol listed same =>
        absent (same ▸ listed)⟩
    rw [noSlash]
    rfl
  | anyRecursiveSequence =>
    apply (runRow_represents represents).congr
    intro lead
    rw [tokensMatch_append]
    simp [AfterRun, GlobToken.Matches]
  | anyRecursivePrefix =>
    apply (closeRow_represents represents).congr
    intro lead
    rw [tokensMatch_append]
    apply exists_congr
    intro front
    apply exists_congr
    intro piece
    have closed : (∃ start symbol, piece = start ++ [symbol] ∧ (symbol == '/') = true) ↔
        piece.getLast? = some '/' := by
      rw [List.getLast?_eq_some_iff]
      simp
    rw [closed]
    rfl

theorem rows_represent {path : List Char} (tokens done : List GlobToken) {row : List Bool}
    (represents : Represents (TokensMatch done) [] path row) :
    Represents (TokensMatch (done ++ tokens)) [] path (tokens.foldl (nextRow path) row) := by
  induction tokens generalizing done row with
  | nil => simpa using represents
  | cons token tokens ih =>
    have step := ih (done ++ [token]) (nextRow_represents represents token)
    rwa [List.append_assoc, List.singleton_append] at step

/-- The last cell says whether the whole path matches. -/
theorem lastCell_iff (tokens : List GlobToken) (path : List Char) :
    (tokens.foldl (nextRow path) (firstRow path))[path.length]? = some true ↔
      TokensMatch tokens path := by
  have first : Represents (TokensMatch []) [] path (firstRow path) := firstRow_represents path
  have rows := rows_represent tokens [] first
  simpa using rows.last

/-! ## Compiled patterns -/

theorem emitToken_eq_some {wildcards : Nat} {token : GlobToken} {rest : Option (List GlobToken)}
    {tokens : List GlobToken} :
    emitToken wildcards token rest = some tokens ↔ wildcards ≤ maxGlobWildcardsPerPattern ∧
      ∃ others, rest = some others ∧ tokens = token :: others := by
  unfold emitToken
  split
  · simp
    omega
  · have fits : wildcards ≤ maxGlobWildcardsPerPattern := by omega
    simp [fits, eq_comm]

/-- What a match begins with. -/
theorem GlobMatches.cases {whole path : List Char} (matched : GlobMatches whole path) :
    whole = [] ∧ path = [] ∨
    (∃ character pattern rest, whole = character :: pattern ∧ path = character :: rest ∧
      character ≠ '?' ∧ character ≠ '*' ∧ GlobMatches pattern rest) ∨
    (∃ pattern character rest, whole = '?' :: pattern ∧ path = character :: rest ∧
      character ≠ '/' ∧ GlobMatches pattern rest) ∨
    (∃ pattern piece rest, whole = '*' :: pattern ∧ path = piece ++ rest ∧
      pattern.head? ≠ some '*' ∧ '/' ∉ piece ∧ GlobMatches pattern rest) ∨
    (∃ pattern piece rest, whole = '*' :: '*' :: '/' :: pattern ∧ path = piece ++ rest ∧
      (piece = [] ∨ piece.getLast? = some '/') ∧ GlobMatches pattern rest) ∨
    whole = ['*', '*'] := by
  cases matched with
  | nil => simp
  | literal character notAny notStar rest => simp [notAny, notStar, rest]
  | anyCharacter character notSlash rest => simp [notSlash, rest]
  | star piece single noSlash rest =>
    exact .inr (.inr (.inr (.inl ⟨_, piece, _, rfl, rfl, single, noSlash, rest⟩)))
  | directories piece closed rest =>
    exact .inr (.inr (.inr (.inr (.inl ⟨_, piece, _, rfl, rfl, closed, rest⟩))))
  | anything piece => simp

variable {pattern path : List Char}

theorem globMatches_nil : GlobMatches [] path ↔ path = [] := by
  constructor
  · intro matched
    rcases matched.cases with ⟨-, rfl⟩ | other | other | other | other | other
    · rfl
    all_goals simp at other
  · rintro rfl
    exact .nil

theorem globMatches_literal {character : Char} (notAny : character ≠ '?')
    (notStar : character ≠ '*') :
    GlobMatches (character :: pattern) path ↔
      ∃ rest, path = character :: rest ∧ GlobMatches pattern rest := by
  constructor
  · intro matched
    rcases matched.cases with other | ⟨_, _, rest, same, rfl, -, -, restMatched⟩ | other | other |
      other | other
    · simp at other
    · obtain ⟨rfl, rfl⟩ := List.cons.inj same
      exact ⟨rest, rfl, restMatched⟩
    all_goals simp [notAny, notStar] at other
  · rintro ⟨rest, rfl, restMatched⟩
    exact .literal character notAny notStar restMatched

theorem globMatches_anyCharacter : GlobMatches ('?' :: pattern) path ↔
    ∃ character rest, path = character :: rest ∧ character ≠ '/' ∧ GlobMatches pattern rest := by
  constructor
  · intro matched
    rcases matched.cases with other | ⟨_, _, _, same, -, notAny, -⟩ |
      ⟨_, character, rest, same, rfl, notSlash, restMatched⟩ | other | other | other
    · simp at other
    · exact absurd (List.cons.inj same).1.symm notAny
    · obtain ⟨-, rfl⟩ := List.cons.inj same
      exact ⟨character, rest, rfl, notSlash, restMatched⟩
    all_goals simp at other
  · rintro ⟨character, rest, rfl, notSlash, restMatched⟩
    exact .anyCharacter character notSlash restMatched

theorem head?_ne_star {pattern : List Char} (notStar : ∀ tail, pattern ≠ '*' :: tail) :
    pattern.head? ≠ some '*' :=
  fun star => (List.head?_eq_some_iff.mp star).elim notStar

theorem globMatches_star (single : pattern.head? ≠ some '*') :
    GlobMatches ('*' :: pattern) path ↔
      ∃ piece rest, path = piece ++ rest ∧ '/' ∉ piece ∧ GlobMatches pattern rest := by
  constructor
  · intro matched
    rcases matched.cases with other | ⟨_, _, _, same, -, -, notStar, -⟩ | other |
      ⟨_, piece, rest, same, rfl, -, noSlash, restMatched⟩ | ⟨_, _, _, same, -⟩ | same
    · simp at other
    · exact absurd (List.cons.inj same).1.symm notStar
    · simp at other
    · obtain ⟨-, rfl⟩ := List.cons.inj same
      exact ⟨piece, rest, rfl, noSlash, restMatched⟩
    · rw [(List.cons.inj same).2] at single
      simp at single
    · rw [(List.cons.inj same).2] at single
      simp at single
  · rintro ⟨piece, rest, rfl, noSlash, restMatched⟩
    exact .star piece single noSlash restMatched

theorem globMatches_directories : GlobMatches ('*' :: '*' :: '/' :: pattern) path ↔
    ∃ piece rest, path = piece ++ rest ∧ (piece = [] ∨ piece.getLast? = some '/') ∧
      GlobMatches pattern rest := by
  constructor
  · intro matched
    rcases matched.cases with other | ⟨_, _, _, same, -, -, notStar, -⟩ | other |
      ⟨_, _, _, same, -, single, -⟩ | ⟨_, piece, rest, same, rfl, closed, restMatched⟩ | other
    · simp at other
    · exact absurd (List.cons.inj same).1.symm notStar
    · simp at other
    · rw [← (List.cons.inj same).2] at single
      simp at single
    · simp only [List.cons.injEq, true_and] at same
      obtain rfl := same
      exact ⟨piece, rest, rfl, closed, restMatched⟩
    · simp at other
  · rintro ⟨piece, rest, rfl, closed, restMatched⟩
    exact .directories piece closed restMatched

/-- The tokens match what the pattern matches. -/
theorem tokensMatch_compiled {previous : Option Char} {wildcards : Nat} {tokens : List GlobToken}
    (compiled : compileTokens previous wildcards pattern = some tokens) (path : List Char) :
    TokensMatch tokens path ↔ GlobMatches pattern path := by
  fun_induction compileTokens previous wildcards pattern generalizing tokens path with
  | case1 =>
    cases compiled
    rw [globMatches_nil]
    rfl
  | case2 previous wildcards pattern ih =>
    obtain ⟨-, others, compiledRest, rfl⟩ := emitToken_eq_some.mp compiled
    rw [globMatches_anyCharacter]
    simp only [TokensMatch, GlobToken.Matches, ih compiledRest]
    constructor
    · rintro ⟨piece, rest, rfl, ⟨character, notSlash, rfl⟩, matched⟩
      exact ⟨character, rest, rfl, notSlash, matched⟩
    · rintro ⟨character, rest, rfl, notSlash, matched⟩
      exact ⟨[character], rest, rfl, ⟨character, notSlash, rfl⟩, matched⟩
  | case3 => contradiction
  | case4 previous wildcards pattern whole ih =>
    obtain ⟨-, others, compiledRest, rfl⟩ := emitToken_eq_some.mp compiled
    rw [globMatches_directories]
    simp only [TokensMatch, GlobToken.Matches, ih compiledRest]
  | case5 => contradiction
  | case6 previous wildcards whole =>
    obtain ⟨-, others, compiledRest, rfl⟩ := emitToken_eq_some.mp compiled
    cases compiledRest
    apply iff_of_true
    · exact ⟨path, [], by simp, trivial, rfl⟩
    · exact .anything path
  | case7 => contradiction
  | case8 previous wildcards pattern notDirectories notEnd notStars ih =>
    obtain ⟨-, others, compiledRest, rfl⟩ := emitToken_eq_some.mp compiled
    have single := head?_ne_star notStars
    rw [globMatches_star single]
    simp only [TokensMatch, GlobToken.Matches, ih compiledRest]
  | case9 previous wildcards literal pattern notAny _ _ _ notStar ih =>
    obtain ⟨-, others, compiledRest, rfl⟩ := emitToken_eq_some.mp compiled
    rw [globMatches_literal notAny notStar]
    simp only [TokensMatch, GlobToken.Matches, ih compiledRest]
    constructor
    · rintro ⟨piece, rest, rfl, rfl, matched⟩
      exact ⟨rest, rfl, matched⟩
    · rintro ⟨rest, rfl, matched⟩
      exact ⟨[literal], rest, rfl, rfl, matched⟩

/-! ## Accepted patterns -/

/-- Question marks and runs of adjacent stars, each run counted once. -/
def wildcardsAfter (previous : Option Char) : List Char → Nat
  | [] => 0
  | character :: rest =>
    (if character = '?' ∨ character = '*' ∧ previous ≠ some '*' then 1 else 0) +
      wildcardsAfter (some character) rest

/-- Every run of adjacent stars is a single star, or two stars that form a whole
component. -/
def StarRunsWhole (pattern : List Char) : Prop :=
  ∀ before stars after, pattern = before ++ List.replicate (stars + 1) '*' ++ after →
    before.getLast? ≠ some '*' → after.head? ≠ some '*' →
      stars = 0 ∨ stars = 1 ∧ (before = [] ∨ before.getLast? = some '/') ∧
        (after = [] ∨ after.head? = some '/')

/-- The same for the rest of a pattern behind a given character. -/
def RunsAfter (previous : Option Char) (pattern : List Char) : Prop :=
  ∀ before stars after, pattern = before ++ List.replicate (stars + 1) '*' ++ after →
    before.getLast?.or previous ≠ some '*' → after.head? ≠ some '*' →
      stars = 0 ∨ stars = 1 ∧ (before.getLast?.or previous).all (· = '/') = true ∧
        after.head?.all (· = '/') = true

theorem runsAfter_none : RunsAfter none pattern ↔ StarRunsWhole pattern := by
  have atStart (before : List Char) : (before.getLast?.or none).all (· = '/') = true ↔
      (before = [] ∨ before.getLast? = some '/') := by
    rw [Option.or_none]
    cases last : before.getLast? with
    | none => simp [List.getLast?_eq_none_iff.mp last]
    | some character =>
      have nonempty : before ≠ [] := by
        rintro rfl
        cases last
      simp [nonempty]
  have atEnd (after : List Char) : after.head?.all (· = '/') = true ↔
      (after = [] ∨ after.head? = some '/') := by
    cases after <;> simp
  simp only [RunsAfter, StarRunsWhole, atStart, atEnd]
  simp only [Option.or_none]

theorem runsAfter_nil (previous : Option Char) : RunsAfter previous [] := by
  intro before stars after split
  simp [List.replicate_succ] at split

variable {previous : Option Char}

theorem getLast?_cons_or (previous : Option Char) (character : Char) (before : List Char) :
    (character :: before).getLast?.or previous = before.getLast?.or (some character) := by
  rw [List.getLast?_cons]
  cases before.getLast? <;> rfl

/-- Behind a first character that begins no run of two stars, the runs are those of the rest. -/
theorem runsAfter_cons {character : Char} (short : ∀ stars after,
    character :: pattern = List.replicate (stars + 1) '*' ++ after → stars = 0) :
    RunsAfter previous (character :: pattern) ↔ RunsAfter (some character) pattern := by
  constructor
  · intro runs before stars after split maximalLeft maximalRight
    rw [← getLast?_cons_or previous] at maximalLeft ⊢
    exact runs (character :: before) stars after (by rw [split]; rfl) maximalLeft maximalRight
  · intro runs before stars after split maximalLeft maximalRight
    cases before with
    | nil => exact .inl (short stars after split)
    | cons first before =>
      rw [List.cons_append, List.cons_append] at split
      obtain ⟨rfl, rest⟩ := List.cons.inj split
      rw [getLast?_cons_or] at maximalLeft ⊢
      exact runs before stars after rest maximalLeft maximalRight

theorem runsAfter_cons_of_ne {character : Char} (notStar : character ≠ '*') :
    RunsAfter previous (character :: pattern) ↔ RunsAfter (some character) pattern :=
  runsAfter_cons fun _ _ split => absurd (List.cons.inj split).1 notStar

theorem runsAfter_single (single : pattern.head? ≠ some '*') :
    RunsAfter previous ('*' :: pattern) ↔ RunsAfter (some '*') pattern := by
  refine runsAfter_cons fun stars after split => ?_
  cases stars with
  | zero => rfl
  | succ stars =>
    rw [List.replicate_succ, List.cons_append] at split
    rw [(List.cons.inj split).2, List.replicate_succ] at single
    simp at single

/-- A text without its leading stars. -/
theorem exists_leading_stars (pattern : List Char) :
    ∃ stars after, pattern = List.replicate stars '*' ++ after ∧ after.head? ≠ some '*' := by
  induction pattern with
  | nil => exact ⟨0, [], rfl, by simp⟩
  | cons character pattern ih =>
    by_cases star : character = '*'
    · obtain ⟨stars, after, rfl, maximal⟩ := ih
      exact ⟨stars + 1, after, by rw [star, List.replicate_succ]; rfl, maximal⟩
    · exact ⟨0, character :: pattern, rfl, by simpa using star⟩

theorem runsAfter_pair (notInRun : previous ≠ some '*') :
    RunsAfter previous ('*' :: '*' :: pattern) ↔ previous.all (· = '/') = true ∧
      pattern.head?.all (· = '/') = true ∧ RunsAfter (some '*') pattern := by
  constructor
  · intro runs
    obtain ⟨more, after, rfl, maximal⟩ := exists_leading_stars pattern
    have whole := runs [] (more + 1) after (by simp [List.replicate_succ])
      (by simpa using notInRun) maximal
    rcases whole with none | ⟨pair, leftWhole, rightWhole⟩
    · contradiction
    · obtain rfl : more = 0 := Nat.succ.inj pair
      refine ⟨by simpa using leftWhole, by simpa using rightWhole, ?_⟩
      intro before stars rest split maximalLeft maximalRight
      rw [← getLast?_cons_or (some '*'),
        ← getLast?_cons_or previous] at maximalLeft ⊢
      exact runs ('*' :: '*' :: before) stars rest (by rw [split]; rfl) maximalLeft maximalRight
  · rintro ⟨leftWhole, rightWhole, runs⟩ before stars after split maximalLeft maximalRight
    cases before with
    | nil =>
      rw [List.nil_append, List.replicate_succ, List.cons_append] at split
      rcases stars with _ | _ | stars
      · exact .inl rfl
      · obtain rfl : pattern = after := by simpa using split
        exact .inr ⟨rfl, leftWhole, rightWhole⟩
      · obtain rfl : pattern = List.replicate (stars + 1) '*' ++ after := by
          simpa [List.replicate_succ] using split
        simp [List.replicate_succ] at rightWhole
    | cons first before =>
      rw [List.cons_append, List.cons_append] at split
      obtain ⟨rfl, rest⟩ := List.cons.inj split
      cases before with
      | nil => simp at maximalLeft
      | cons second before =>
        rw [List.cons_append, List.cons_append] at rest
        obtain ⟨rfl, following⟩ := List.cons.inj rest
        rw [getLast?_cons_or, getLast?_cons_or] at maximalLeft ⊢
        exact runs before stars after following maximalLeft maximalRight

theorem emitToken_isSome_iff {wildcards more : Nat} {token : GlobToken}
    {rest : Option (List GlobToken)} {runs : Prop}
    (compiled : wildcards ≤ maxGlobWildcardsPerPattern →
      (rest.isSome = true ↔ wildcards + more ≤ maxGlobWildcardsPerPattern ∧ runs)) :
    (emitToken wildcards token rest).isSome = true ↔
      wildcards + more ≤ maxGlobWildcardsPerPattern ∧ runs := by
  unfold emitToken
  split
  · simp only [Option.isSome_none, Bool.false_eq_true, false_iff]
    rintro ⟨sum, -⟩
    omega
  · rw [Option.isSome_map, compiled (by omega)]

/-- The compiler accepts the rest of a pattern when its runs are whole and the wildcards do
not become too many. -/
theorem compileTokens_isSome_iff {wildcards : Nat}
    (few : wildcards ≤ maxGlobWildcardsPerPattern)
    (notInRun : pattern.head? = some '*' → previous ≠ some '*') :
    (compileTokens previous wildcards pattern).isSome ↔
      wildcards + wildcardsAfter previous pattern ≤ maxGlobWildcardsPerPattern ∧
        RunsAfter previous pattern := by
  have whole (previous : Option Char) :
      (¬ previous.any (· ≠ '/') = true) ↔ previous.all (· = '/') = true := by
    cases previous <;> simp
  fun_induction compileTokens previous wildcards pattern with
  | case1 =>
    simp [wildcardsAfter, runsAfter_nil, few]
  | case2 previous wildcards pattern ih =>
    rw [runsAfter_cons_of_ne (by decide), wildcardsAfter, if_pos (.inl rfl), ← Nat.add_assoc]
    apply emitToken_isSome_iff
    intro fits
    exact ih fits (by simp)
  | case3 previous wildcards pattern inside =>
    have notWhole : ¬ previous.all (· = '/') = true := fun all => (whole previous).mpr all inside
    rw [runsAfter_pair (notInRun rfl)]
    simp [notWhole]
  | case4 previous wildcards pattern outside ih =>
    have count : wildcardsAfter previous ('*' :: '*' :: '/' :: pattern) =
        1 + wildcardsAfter (some '/') pattern := by
      simp [wildcardsAfter, notInRun rfl]
    have runs : RunsAfter previous ('*' :: '*' :: '/' :: pattern) ↔
        RunsAfter (some '/') pattern := by
      rw [runsAfter_pair (notInRun rfl), runsAfter_cons_of_ne (by decide)]
      simp [(whole previous).mp outside]
    rw [runs, count, ← Nat.add_assoc]
    apply emitToken_isSome_iff
    intro fits
    exact ih fits (by simp)
  | case5 previous wildcards inside =>
    have notWhole : ¬ previous.all (· = '/') = true := fun all => (whole previous).mpr all inside
    rw [runsAfter_pair (notInRun rfl)]
    simp [notWhole]
  | case6 previous wildcards outside =>
    have count : wildcardsAfter previous ['*', '*'] = 1 + 0 := by
      simp [wildcardsAfter, notInRun rfl]
    rw [count, ← Nat.add_assoc]
    apply emitToken_isSome_iff
    intro fits
    rw [runsAfter_pair (notInRun rfl)]
    simp [(whole previous).mp outside, runsAfter_nil, fits]
  | case7 previous wildcards pattern notDirectories notEnd =>
    rw [runsAfter_pair (notInRun rfl)]
    cases pattern with
    | nil => exact absurd rfl notEnd
    | cons character pattern =>
      have notSlash : character ≠ '/' := by
        rintro rfl
        exact notDirectories pattern rfl
      simp [notSlash]
  | case8 previous wildcards pattern notDirectories notEnd notStars ih =>
    have single := head?_ne_star notStars
    rw [runsAfter_single single, wildcardsAfter, if_pos (.inr ⟨rfl, notInRun rfl⟩),
      ← Nat.add_assoc]
    apply emitToken_isSome_iff
    intro fits
    exact ih fits fun star => absurd star single
  | case9 previous wildcards literal pattern notAny _ _ _ notStar ih =>
    have notWildcard : ¬ (literal = '?' ∨ literal = '*' ∧ previous ≠ some '*') := by
      rintro (any | ⟨star, -⟩)
      · exact notAny any
      · exact notStar star
    have notLiteral : some literal ≠ some '*' := fun same => notStar (Option.some.inj same)
    rw [runsAfter_cons_of_ne notStar, wildcardsAfter, if_neg notWildcard, Nat.zero_add]
    apply emitToken_isSome_iff
    intro fits
    exact ih fits fun _ => notLiteral

/-- Patterns without control characters, within the limits, whose stars are single or
form whole components. -/
structure AcceptedPattern (pattern : String) : Prop where
  short : pattern.utf8ByteSize ≤ maxGlobPatternBytes
  noControl : ∀ character ∈ pattern.toList, isControl character = false
  fewWildcards : wildcardsAfter none pattern.toList ≤ maxGlobWildcardsPerPattern
  wholeRuns : StarRunsWhole pattern.toList

theorem compileGlobTokens_isSome_iff (pattern : String) :
    (compileGlobTokens pattern).isSome ↔ AcceptedPattern pattern := by
  unfold compileGlobTokens
  split
  · rename_i refused
    simp only [Option.isSome_none, Bool.false_eq_true, false_iff]
    intro accepted
    rw [Bool.or_eq_true, decide_eq_true_eq, List.any_eq_true] at refused
    rcases refused with long | ⟨character, listed, control⟩
    · exact absurd accepted.short (Nat.not_le.mpr long)
    · rw [accepted.noControl character listed] at control
      contradiction
  · rename_i admitted
    rw [Bool.or_eq_true, not_or, decide_eq_true_eq, Nat.not_lt, List.any_eq_true] at admitted
    have noControl : ∀ character ∈ pattern.toList, isControl character = false := by
      intro character listed
      apply Bool.eq_false_iff.mpr
      intro control
      exact admitted.2 ⟨character, listed, control⟩
    rw [compileTokens_isSome_iff (Nat.zero_le _) (by simp), runsAfter_none, Nat.zero_add]
    constructor
    · rintro ⟨few, runs⟩
      exact ⟨admitted.1, noControl, few, runs⟩
    · intro accepted
      exact ⟨accepted.fewWildcards, accepted.wholeRuns⟩

/-- Matching is exact, and the compiler accepts exactly the patterns whose meaning is
clear. -/
theorem globMatch_exact :
    (∀ pattern path : String, (compileGlobTokens pattern).isSome →
      (globMatch pattern path = true ↔ GlobMatches pattern.toList path.toList)) ∧
    ∀ pattern : String, (compileGlobTokens pattern).isSome ↔ AcceptedPattern pattern := by
  refine ⟨?_, compileGlobTokens_isSome_iff⟩
  intro pattern path accepted
  obtain ⟨tokens, compiled⟩ := Option.isSome_iff_exists.mp accepted
  have compiledTokens : compileTokens none 0 pattern.toList = some tokens := by
    unfold compileGlobTokens at compiled
    split at compiled
    · contradiction
    · exact compiled
  rw [globMatch, compiled]
  simp only [decide_eq_true_eq]
  rw [lastCell_iff, tokensMatch_compiled compiledTokens]

theorem globMatch_exact_nested :
    globMatch "**/*.md" "docs/api/x.md" = true ∧
      GlobMatches "**/*.md".toList "docs/api/x.md".toList := by
  have matched : globMatch "**/*.md" "docs/api/x.md" = true := by
    decide
  have accepted : (compileGlobTokens "**/*.md").isSome := by
    decide
  exact ⟨matched, (globMatch_exact.1 _ _ accepted).mp matched⟩

end FastMcp.Filesystem
