import FastMcp.UriTemplateGrammar
import Mathlib.Data.List.Chain

/-! # The parser of templates is exact

The main loop of the parser keeps the text that it has read since the last
part. What it returns from any state are its parts so far, followed by
grammatical parts that spell this text and the rest of the input. From the
initial state these are the grammatical parts that spell the whole input.
-/

namespace FastMcp.UriTemplates

open ByteText Outcomes

/-! ## Parts -/

/-- Two ways to cut a text at the first character of a kind agree. -/
theorem cut_unique {Item : Type*} (stop : Item → Prop) {first second rest other : List Item}
    (firstFree : ∀ item ∈ first, ¬ stop item) (secondFree : ∀ item ∈ second, ¬ stop item)
    (restStops : ∀ item ∈ rest.head?, stop item) (otherStops : ∀ item ∈ other.head?, stop item)
    (same : first ++ rest = second ++ other) : first = second ∧ rest = other := by
  induction first generalizing second with
  | nil =>
    cases second with
    | nil => exact ⟨rfl, same⟩
    | cons item second =>
      rw [List.nil_append] at same
      rw [same] at restStops
      exact absurd (restStops item rfl) (secondFree item List.mem_cons_self)
  | cons item first ih =>
    cases second with
    | nil =>
      rw [List.nil_append] at same
      rw [← same] at otherStops
      exact absurd (otherStops item rfl) (firstFree item List.mem_cons_self)
    | cons next second =>
      obtain ⟨rfl, later⟩ := List.cons.inj same
      obtain ⟨rfl, rfl⟩ := ih (fun item listed => firstFree item (List.mem_cons_of_mem _ listed))
        (fun item listed => secondFree item (List.mem_cons_of_mem _ listed)) later
      exact ⟨rfl, rfl⟩

/-- The characters at which a literal ends. -/
def IsBrace (character : Char) : Prop :=
  character = '\x7b' ∨ character = '\x7d'

theorem spelled_literal_noBrace {text : List Char} (spelled : Spelled LiteralCharacter text) :
    ∀ character ∈ text, ¬ IsBrace character := by
  have hex : ∀ character, Within hexDigitRanges character → ¬ IsBrace character := by
    rintro character digit (rfl | rfl) <;> exact absurd digit (by decide)
  induction spelled with
  | nil => simp
  | plain isPlain spelled ih =>
    refine List.forall_mem_cons.mpr ⟨?_, ih⟩
    rintro (rfl | rfl) <;> exact absurd ((literalCharacter_ascii (by decide)).mpr isPlain) (by decide)
  | triplet isHigh isLow spelled ih =>
    refine List.forall_mem_cons.mpr ⟨?_, List.forall_mem_cons.mpr
      ⟨hex _ isHigh, List.forall_mem_cons.mpr ⟨hex _ isLow, ih⟩⟩⟩
    rintro (same | same) <;> exact absurd same (by decide)

/-- The parts of a text without expressions. -/
def literalParts (text : List Char) : List UriTemplatePart :=
  if text.isEmpty then [] else [.literal (String.ofList text)]

variable {parts more : List UriTemplatePart} {text rest : List Char}

theorem pushPart_eq_ok {part : UriTemplatePart} {final : List UriTemplatePart}
    (few : parts.length ≤ 256) :
    pushPart parts part = .ok final ↔ final = parts ++ [part] ∧ final.length ≤ 256 := by
  rw [pushPart, guard_eq_ok, Except.ok.injEq]
  constructor
  · rintro ⟨notFull, rfl⟩
    unfold maxUriTemplateParts at notFull
    exact ⟨rfl, by rw [List.length_append, List.length_singleton]; omega⟩
  · rintro ⟨rfl, short⟩
    rw [List.length_append, List.length_singleton] at short
    exact ⟨by unfold maxUriTemplateParts; omega, rfl⟩

theorem pushLiteral_eq_ok {start : Nat} {final : List UriTemplatePart}
    (few : parts.length ≤ 256) :
    pushLiteral parts text start = .ok final ↔
      Spelled LiteralCharacter text ∧ final = parts ++ literalParts text ∧
        final.length ≤ 256 := by
  cases text with
  | nil =>
    simp only [pushLiteral, literalParts, List.isEmpty_nil, if_true, Except.ok.injEq,
      List.append_nil]
    constructor
    · rintro rfl
      exact ⟨.nil, rfl, few⟩
    · rintro ⟨-, rfl, -⟩
      rfl
  | cons first text =>
    simp only [pushLiteral, literalParts, List.isEmpty_cons, Bool.false_eq_true, if_false,
      ← invalidLiteralOffset_eq_none 0]
    cases invalidLiteralOffset 0 (first :: text) with
    | some relative => simp
    | none => simp only [pushPart_eq_ok few, true_and]

theorem render_append (first second : List UriTemplatePart) :
    render (first ++ second) = render first ++ render second :=
  List.flatMap_append

theorem render_literalParts (text : List Char) : render (literalParts text) = text := by
  cases text with
  | nil => rfl
  | cons first text => simp [render, literalParts, renderPart]

theorem render_expression (expression : UriTemplateExpression) (more : List UriTemplatePart) :
    render (.expression expression :: more) =
      '\x7b' :: (renderBody expression ++ '\x7d' :: render more) := by
  simp [render, renderPart]

theorem grammaticalParts_cons {part : UriTemplatePart} :
    GrammaticalParts (part :: more) ↔
      GrammaticalPart part ∧ GrammaticalParts more ∧
        ∀ next ∈ more.head?, isExpression part = true ∨ isExpression next = true := by
  constructor
  · rintro ⟨grammatical, maximal⟩
    obtain ⟨here, later⟩ := List.forall_mem_cons.mp grammatical
    obtain ⟨next, maximal⟩ := List.isChain_cons.mp maximal
    exact ⟨here, ⟨later, maximal⟩, next⟩
  · rintro ⟨here, ⟨later, maximal⟩, next⟩
    exact ⟨List.forall_mem_cons.mpr ⟨here, later⟩, List.isChain_cons.mpr ⟨next, maximal⟩⟩

theorem grammaticalParts_expression {expression : UriTemplateExpression} :
    GrammaticalParts (.expression expression :: more) ↔
      GrammaticalExpression expression ∧ GrammaticalParts more := by
  rw [grammaticalParts_cons]
  simp [GrammaticalPart, isExpression]

/-- Parts begin with an expression exactly when their text begins with a brace. -/
theorem head_isExpression_iff (grammatical : GrammaticalParts more) :
    (∀ next ∈ more.head?, isExpression next = true) ↔
      ∀ character ∈ (render more).head?, IsBrace character := by
  cases more with
  | nil => simp [render]
  | cons part more =>
    cases part with
    | expression expression => simp [isExpression, render_expression, IsBrace]
    | literal literal =>
      obtain ⟨⟨nonempty, spelled⟩, -⟩ := grammaticalParts_cons.mp grammatical
      have noBrace := spelled_literal_noBrace spelled
      obtain ⟨first, rest, isText⟩ :=
        List.exists_cons_of_ne_nil (mt String.toList_eq_nil_iff.mp nonempty)
      have plain := noBrace first (isText ▸ List.mem_cons_self)
      simp [isExpression, render, renderPart, isText, plain]

/-- Grammatical parts begin with at most one literal. -/
theorem grammaticalParts_split (grammatical : GrammaticalParts more) :
    ∃ text later, more = literalParts text ++ later ∧ Spelled LiteralCharacter text ∧
      GrammaticalParts later ∧ ∀ character ∈ (render later).head?, IsBrace character := by
  cases more with
  | nil => exact ⟨[], [], rfl, .nil, grammatical, by simp [render]⟩
  | cons part more =>
    cases part with
    | expression expression =>
      refine ⟨[], _, rfl, .nil, grammatical, ?_⟩
      exact (head_isExpression_iff grammatical).mp (by simp [isExpression])
    | literal literal =>
      obtain ⟨⟨nonempty, spelled⟩, later, alternates⟩ := grammaticalParts_cons.mp grammatical
      refine ⟨literal.toList, more, ?_, spelled, later, ?_⟩
      · simp [literalParts, nonempty]
      · exact (head_isExpression_iff later).mp fun next isNext =>
          (alternates next isNext).resolve_left (by simp [isExpression])

/-- The text before the first brace is the literal that grammatical parts begin with. -/
theorem grammaticalParts_lead (noBrace : ∀ character ∈ text, ¬ IsBrace character)
    (stops : ∀ character ∈ rest.head?, IsBrace character) :
    GrammaticalParts more ∧ render more = text ++ rest ↔
      Spelled LiteralCharacter text ∧ ∃ later, more = literalParts text ++ later ∧
        GrammaticalParts later ∧ render later = rest := by
  constructor
  · rintro ⟨grammatical, spells⟩
    obtain ⟨lead, later, rfl, spelled, laterGrammatical, laterStops⟩ :=
      grammaticalParts_split grammatical
    rw [render_append, render_literalParts] at spells
    obtain ⟨rfl, rfl⟩ :=
      cut_unique IsBrace (spelled_literal_noBrace spelled) noBrace laterStops stops spells
    exact ⟨spelled, later, rfl, laterGrammatical, rfl⟩
  · rintro ⟨spelled, later, rfl, grammatical, rfl⟩
    refine ⟨?_, by rw [render_append, render_literalParts]⟩
    cases text with
    | nil => exact grammatical
    | cons first text =>
      apply grammaticalParts_cons.mpr
      refine ⟨⟨by simp, by rwa [String.toList_ofList]⟩, grammatical, ?_⟩
      exact fun next isNext => .inr ((head_isExpression_iff grammatical).mpr stops next isNext)

/-- Parts whose text does not begin with a literal begin with an expression. -/
theorem eq_nil_or_expression (grammatical : GrammaticalParts more)
    (stops : ∀ character ∈ (render more).head?, IsBrace character) :
    more = [] ∨ ∃ expression later, more = .expression expression :: later := by
  cases more with
  | nil => exact .inl rfl
  | cons part later =>
    have begins := (head_isExpression_iff grammatical).mpr stops part rfl
    cases part with
    | literal literal => contradiction
    | expression expression => exact .inr ⟨expression, later, rfl⟩

theorem grammaticalParts_open (grammatical : GrammaticalParts more)
    (spells : render more = '\x7b' :: rest) :
    ∃ expression later, more = .expression expression :: later ∧
      GrammaticalExpression expression ∧ GrammaticalParts later ∧
      renderBody expression ++ '\x7d' :: render later = rest := by
  rcases eq_nil_or_expression grammatical (by simp [spells, IsBrace]) with
    rfl | ⟨expression, later, rfl⟩
  · contradiction
  · obtain ⟨here, laterGrammatical⟩ := grammaticalParts_expression.mp grammatical
    rw [render_expression] at spells
    exact ⟨expression, later, rfl, here, laterGrammatical, (List.cons.inj spells).2⟩

/-- The text up to the first closing brace is the body of the first expression. -/
theorem grammaticalParts_body (noClose : '\x7d' ∉ text) :
    GrammaticalParts more ∧ render more = '\x7b' :: (text ++ '\x7d' :: rest) ↔
      ∃ expression later, more = .expression expression :: later ∧
        GrammaticalExpression expression ∧ text = renderBody expression ∧
        GrammaticalParts later ∧ render later = rest := by
  constructor
  · rintro ⟨grammatical, spells⟩
    obtain ⟨expression, later, rfl, here, laterGrammatical, spells⟩ :=
      grammaticalParts_open grammatical spells
    have bodyFree := (renderBody_noBrace here).2
    obtain ⟨same, closed⟩ := cut_unique (fun character => character = '\x7d')
      (fun character listed isClose => bodyFree (isClose ▸ listed))
      (fun character listed isClose => noClose (isClose ▸ listed)) (by simp) (by simp) spells
    exact ⟨expression, later, rfl, here, same.symm, laterGrammatical, (List.cons.inj closed).2⟩
  · rintro ⟨expression, later, rfl, here, rfl, laterGrammatical, rfl⟩
    exact ⟨grammaticalParts_expression.mpr ⟨here, laterGrammatical⟩, render_expression _ _⟩

theorem render_eq_nil (grammatical : GrammaticalParts more) (empty : render more = []) :
    more = [] := by
  rcases eq_nil_or_expression grammatical (by simp [empty]) with rfl | ⟨expression, later, rfl⟩
  · rfl
  · rw [render_expression] at empty
    contradiction

/-- No text of grammatical parts begins with a closing brace. -/
theorem render_ne_close (grammatical : GrammaticalParts more) :
    render more ≠ '\x7d' :: rest := by
  intro spells
  rcases eq_nil_or_expression grammatical (by simp [spells, IsBrace]) with
    rfl | ⟨expression, later, rfl⟩
  · contradiction
  · rw [render_expression] at spells
    exact absurd (List.cons.inj spells).1 (by decide)

theorem countP_literalParts (text : List Char) : (literalParts text).countP isExpression = 0 := by
  unfold literalParts
  split <;> rfl

/-! ## The main loop -/

/-- The text that the parser has read since the last part. -/
def ParseMode.pending : ParseMode → List Char
  | .literal _ text => text
  | .expression _ text _ => '\x7b' :: text

/-- The braces that the text read since the last part may contain. -/
def ParseMode.Open : ParseMode → Prop
  | .literal _ text => ∀ character ∈ text, ¬ IsBrace character
  | .expression _ text nested => '\x7d' ∉ text ∧ (nested = none ↔ '\x7b' ∉ text)

variable {expressions index : Nat} {final : List UriTemplatePart}

/-- What the parser must find in the text that it has not turned into parts yet. -/
def Remaining (parts : List UriTemplatePart) (expressions : Nat) (text : List Char)
    (final : List UriTemplatePart) : Prop :=
  ∃ more, final = parts ++ more ∧ final.length ≤ 256 ∧
    expressions + more.countP isExpression ≤ 128 ∧ GrammaticalParts more ∧ render more = text

/-- At a brace or at the end, the text read so far becomes a literal. -/
theorem remaining_lead (noBrace : ∀ character ∈ text, ¬ IsBrace character)
    (stops : ∀ character ∈ rest.head?, IsBrace character) :
    Remaining parts expressions (text ++ rest) final ↔
      Spelled LiteralCharacter text ∧ (parts ++ literalParts text).length ≤ 256 ∧
        Remaining (parts ++ literalParts text) expressions rest final := by
  constructor
  · rintro ⟨more, rfl, short, count, here⟩
    obtain ⟨spelled, later, rfl, grammatical, spells⟩ :=
      (grammaticalParts_lead noBrace stops).mp here
    rw [List.countP_append, countP_literalParts, Nat.zero_add] at count
    rw [← List.append_assoc] at short ⊢
    have room := short
    rw [List.length_append] at room
    exact ⟨spelled, by omega, later, rfl, short, count, grammatical, spells⟩
  · rintro ⟨spelled, -, later, rfl, short, count, grammatical, spells⟩
    refine ⟨literalParts text ++ later, List.append_assoc _ _ _, short, ?_, ?_⟩
    · rwa [List.countP_append, countP_literalParts, Nat.zero_add]
    · exact (grammaticalParts_lead noBrace stops).mpr
        ⟨spelled, later, rfl, grammatical, spells⟩

theorem remaining_nil (few : parts.length ≤ 256) (fewExpressions : expressions ≤ 128) :
    Remaining parts expressions [] final ↔ final = parts := by
  constructor
  · rintro ⟨more, rfl, -, -, grammatical, empty⟩
    rw [render_eq_nil grammatical empty, List.append_nil]
  · rintro rfl
    exact ⟨[], (List.append_nil _).symm, few, fewExpressions, ⟨by simp, .nil⟩, rfl⟩

/-- At a closing brace, the text after the open brace becomes an expression. -/
theorem remaining_body (noClose : '\x7d' ∉ text) :
    Remaining parts expressions ('\x7b' :: (text ++ '\x7d' :: rest)) final ↔
      ∃ expression, GrammaticalExpression expression ∧ text = renderBody expression ∧
        expressions + 1 ≤ 128 ∧ (parts ++ [UriTemplatePart.expression expression]).length ≤ 256 ∧
        Remaining (parts ++ [.expression expression]) (expressions + 1) rest final := by
  constructor
  · rintro ⟨more, rfl, short, count, here⟩
    obtain ⟨expression, later, rfl, grammatical, spelled, laterGrammatical, spells⟩ :=
      (grammaticalParts_body noClose).mp here
    rw [List.countP_cons_of_pos (by rfl)] at count
    have extended : parts ++ .expression expression :: later =
        parts ++ [.expression expression] ++ later := List.append_cons _ _ _
    rw [extended] at short ⊢
    have room := short
    rw [List.length_append] at room
    exact ⟨expression, grammatical, spelled, by omega, by omega, later, rfl, short, by omega,
      laterGrammatical, spells⟩
  · rintro ⟨expression, grammatical, spelled, -, -, later, rfl, short, count, laterGrammatical,
      spells⟩
    refine ⟨.expression expression :: later, (List.append_cons _ _ _).symm, short, ?_, ?_⟩
    · rw [List.countP_cons_of_pos (by rfl)]
      omega
    · exact (grammaticalParts_body noClose).mpr
        ⟨expression, later, rfl, grammatical, spelled, laterGrammatical, spells⟩

/-- The parser extends its parts by grammatical parts that spell the text it
has not turned into parts yet. -/
theorem parseParts_eq_ok {mode : ParseMode} (few : parts.length ≤ 256)
    (fewExpressions : expressions ≤ 128) (isOpen : mode.Open) :
    parseParts parts expressions mode index rest = .ok final ↔
      Remaining parts expressions (mode.pending ++ rest) final := by
  induction rest generalizing parts expressions mode index with
  | nil =>
    cases mode with
    | literal start text =>
      have stops : ∀ character ∈ ([] : List Char).head?, IsBrace character := by simp
      rw [parseParts, pushLiteral_eq_ok few, ParseMode.pending, remaining_lead isOpen stops]
      constructor
      · rintro ⟨spelled, rfl, short⟩
        exact ⟨spelled, short, (remaining_nil short fewExpressions).mpr rfl⟩
      · rintro ⟨spelled, short, remaining⟩
        rw [(remaining_nil short fewExpressions).mp remaining]
        exact ⟨spelled, rfl, short⟩
    | expression opened text nested =>
      refine iff_of_false (by simp [parseParts]) ?_
      rintro ⟨more, -, -, -, grammatical, spells⟩
      rw [ParseMode.pending, List.append_nil] at spells
      obtain ⟨expression, later, -, -, -, rfl⟩ := grammaticalParts_open grammatical spells
      exact isOpen.1 (by simp)
  | cons character rest ih =>
    cases mode with
    | literal start text =>
      rw [parseParts]
      split
      · rename_i brace
        subst brace
        rw [ParseMode.pending, remaining_lead isOpen (by simp [IsBrace]), andThen_eq_ok]
        simp only [pushLiteral_eq_ok few]
        constructor
        · rintro ⟨middle, ⟨spelled, rfl, room⟩, continued⟩
          exact ⟨spelled, room, (ih room fewExpressions (by simp [ParseMode.Open])).mp continued⟩
        · rintro ⟨spelled, room, remaining⟩
          exact ⟨_, ⟨spelled, rfl, room⟩,
            (ih room fewExpressions (by simp [ParseMode.Open])).mpr remaining⟩
      split
      · rename_i brace
        subst brace
        refine iff_of_false (by simp) ?_
        rw [ParseMode.pending, remaining_lead isOpen (by simp [IsBrace])]
        rintro ⟨-, -, later, -, -, -, grammatical, spells⟩
        exact render_ne_close grammatical spells
      · rename_i notOpen notClose
        have stillOpen : (ParseMode.literal start (text ++ [character])).Open :=
          List.forall_mem_append.mpr ⟨isOpen, by simp [IsBrace, notOpen, notClose]⟩
        rw [ih few fewExpressions stillOpen]
        simp only [ParseMode.pending, List.append_assoc, List.singleton_append]
    | expression opened text nested =>
      rw [parseParts.eq_def]
      simp only
      split
      · rename_i brace
        subst brace
        rw [ParseMode.pending, List.cons_append, remaining_body isOpen.1]
        cases nested with
        | some offset =>
          refine iff_of_false (by simp) ?_
          rintro ⟨expression, grammatical, rfl, -⟩
          have unnested := isOpen.2.mpr (renderBody_noBrace grammatical).1
          contradiction
        | none =>
          simp only [guard_eq_ok, andThen_eq_ok, parseExpression_eq_ok, pushPart_eq_ok few]
          constructor
          · rintro ⟨notFull, expression, ⟨grammatical, spelled⟩, middle, ⟨rfl, room⟩, continued⟩
            unfold maxUriTemplateExpressions at notFull
            exact ⟨expression, grammatical, spelled, by omega, room,
              (ih room (by omega) (by simp [ParseMode.Open])).mp continued⟩
          · rintro ⟨expression, grammatical, spelled, count, room, remaining⟩
            refine ⟨?_, expression, ⟨grammatical, spelled⟩, _, ⟨rfl, room⟩,
              (ih room count (by simp [ParseMode.Open])).mpr remaining⟩
            unfold maxUriTemplateExpressions
            omega
      · rename_i notClose
        obtain ⟨noClose, nestedIff⟩ := isOpen
        have stillOpen : (ParseMode.expression opened (text ++ [character])
            (if character = '\x7b' then nested.or (some index) else nested)).Open := by
          refine ⟨by simp [noClose, Ne.symm notClose], ?_⟩
          split
          · rename_i brace
            simp [brace]
          · rename_i notOpen
            simp [nestedIff, Ne.symm notOpen]
        rw [ih few fewExpressions stillOpen]
        simp only [ParseMode.pending, List.cons_append, List.append_assoc, List.nil_append]

/-- The parser returns the grammatical parts, within its limits, that spell its input. -/
theorem parse_eq_ok {source : String} {template : UriTemplate} :
    UriTemplate.parse source = .ok template ↔
      source.utf8ByteSize ≤ maxUriTemplateBytes ∧ template.source = source ∧
        GrammaticalTemplate template.parts ∧ render template.parts = source.toList := by
  have loop (final : List UriTemplatePart) :
      parseParts [] 0 (.literal 0 []) 0 source.toList = .ok final ↔
        Remaining [] 0 source.toList final :=
    parseParts_eq_ok (by simp) (by simp) (by simp [ParseMode.Open])
  simp only [UriTemplate.parse, throw_andThen, guard_eq_ok, andThen_eq_ok, pure, Except.pure,
    Except.ok.injEq, loop, gt_iff_lt, not_lt]
  refine and_congr_right fun _ => ?_
  constructor
  · rintro ⟨final, ⟨more, rfl, short, count, grammatical, spells⟩, rfl⟩
    rw [Nat.zero_add] at count
    exact ⟨rfl, ⟨grammatical, short, count⟩, spells⟩
  · rintro ⟨rfl, ⟨grammatical, short, count⟩, spells⟩
    exact ⟨template.parts, ⟨template.parts, rfl, short, by rwa [Nat.zero_add], grammatical,
      spells⟩, rfl⟩

/-- A source within the size limit is parsed exactly when it is a grammatical
template within the other limits, and the parts that are returned spell it. -/
theorem parse_exact (source : String) (short : source.utf8ByteSize ≤ maxUriTemplateBytes) :
    ((∃ template, UriTemplate.parse source = .ok template) ↔
      ∃ parts, GrammaticalTemplate parts ∧ render parts = source.toList) ∧
    ∀ template, UriTemplate.parse source = .ok template →
      template.source = source ∧ GrammaticalTemplate template.parts ∧
        render template.parts = source.toList := by
  refine ⟨⟨?_, ?_⟩, ?_⟩
  · rintro ⟨template, parsed⟩
    exact ⟨template.parts, (parse_eq_ok.mp parsed).2.2⟩
  · rintro ⟨parts, grammatical, spells⟩
    exact ⟨⟨source, parts⟩, parse_eq_ok.mpr ⟨short, rfl, grammatical, spells⟩⟩
  · intro template parsed
    exact (parse_eq_ok.mp parsed).2

theorem parse_exact_query :
    ∃ parts, GrammaticalTemplate parts ∧ render parts = "a\x7b?x:3,y*\x7d".toList :=
  (parse_exact "a\x7b?x:3,y*\x7d" (by decide)).1.mp ⟨⟨"a\x7b?x:3,y*\x7d", [.literal "a",
    .expression ⟨.query, [⟨"x", some (.prefixLength 3)⟩, ⟨"y", some .explode⟩]⟩]⟩, by decide +kernel⟩

end FastMcp.UriTemplates
