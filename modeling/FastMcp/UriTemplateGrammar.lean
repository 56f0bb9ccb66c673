import FastMcp.Outcomes
import FastMcp.UriTemplate
import Mathlib.Data.List.TakeWhile

/-! # The language of templates

The grammar of RFC 6570 at Level 4, written as a predicate on the parts of a
template together with the text that the parts spell. The parsers of literals,
variables and expressions accept exactly the texts of their grammatical values.
-/

namespace FastMcp.UriTemplates

open ByteText Outcomes IntegerText MachineWords

/-! ## The grammar -/

/-- Characters in one of the given ranges of code points. -/
def Within (ranges : List (Nat × Nat)) (character : Char) : Prop :=
  ∃ range ∈ ranges, range.1 ≤ character.toNat ∧ character.toNat ≤ range.2

instance (ranges : List (Nat × Nat)) (character : Char) : Decidable (Within ranges character) :=
  inferInstanceAs (Decidable (∃ range ∈ ranges, _))

/-- `HEXDIG`, in either case. -/
def hexDigitRanges : List (Nat × Nat) :=
  [(0x30, 0x39), (0x41, 0x46), (0x61, 0x66)]

/-- The ASCII characters of `literals`. -/
def literalRanges : List (Nat × Nat) :=
  [(0x21, 0x21), (0x23, 0x24), (0x26, 0x26), (0x28, 0x3B), (0x3D, 0x3D), (0x3F, 0x5B),
    (0x5D, 0x5D), (0x5F, 0x5F), (0x61, 0x7A), (0x7E, 0x7E)]

def ucscharRanges : List (Nat × Nat) :=
  [(0xA0, 0xD7FF), (0xF900, 0xFDCF), (0xFDF0, 0xFFEF), (0x10000, 0x1FFFD), (0x20000, 0x2FFFD),
    (0x30000, 0x3FFFD), (0x40000, 0x4FFFD), (0x50000, 0x5FFFD), (0x60000, 0x6FFFD),
    (0x70000, 0x7FFFD), (0x80000, 0x8FFFD), (0x90000, 0x9FFFD), (0xA0000, 0xAFFFD),
    (0xB0000, 0xBFFFD), (0xC0000, 0xCFFFD), (0xD0000, 0xDFFFD), (0xE1000, 0xEFFFD)]

def iprivateRanges : List (Nat × Nat) :=
  [(0xE000, 0xF8FF), (0xF0000, 0xFFFFD), (0x100000, 0x10FFFD)]

/-- `DIGIT`, `ALPHA` and the underscore. -/
def varcharRanges : List (Nat × Nat) :=
  [(0x30, 0x39), (0x41, 0x5A), (0x61, 0x7A), (0x5F, 0x5F)]

/-- Texts of the given characters and of percent-encoded triplets. -/
inductive Spelled (plain : Char → Prop) : List Char → Prop
  | nil : Spelled plain []
  | plain {character : Char} {rest : List Char} (isPlain : plain character)
      (spelled : Spelled plain rest) : Spelled plain (character :: rest)
  | triplet {high low : Char} {rest : List Char} (isHigh : Within hexDigitRanges high)
      (isLow : Within hexDigitRanges low) (spelled : Spelled plain rest) :
      Spelled plain ('%' :: high :: low :: rest)

/-- The characters of `literals`, triplets apart. -/
def LiteralCharacter (character : Char) : Prop :=
  Within literalRanges character ∨ Within ucscharRanges character ∨
    Within iprivateRanges character

/-- A `varname` is a sequence of `varchar` runs that are joined by dots. -/
def VariableName (name : List Char) : Prop :=
  ∃ segments : List (List Char), segments ≠ [] ∧
    (∀ segment ∈ segments, segment ≠ [] ∧ Spelled (Within varcharRanges) segment) ∧
    name = ['.'].intercalate segments

def renderOperator : UriTemplateOperator → List Char
  | .simple => []
  | .reserved => ['+']
  | .fragment => ['#']
  | .label => ['.']
  | .path => ['/']
  | .pathParameter => [';']
  | .query => ['?']
  | .queryContinuation => ['&']

def renderModifier : Option UriTemplateModifier → List Char
  | none => []
  | some .explode => ['*']
  | some (.prefixLength length) => ':' :: Nat.toDigits 10 length

def renderVariable (spec : UriTemplateVariable) : List Char :=
  spec.name.toList ++ renderModifier spec.modifier

/-- What stands between the braces of an expression. -/
def renderBody (expression : UriTemplateExpression) : List Char :=
  renderOperator expression.operator ++ [','].intercalate (expression.vars.map renderVariable)

def renderPart : UriTemplatePart → List Char
  | .literal text => text.toList
  | .expression expression => '\x7b' :: renderBody expression ++ ['\x7d']

/-- The text that a sequence of parts spells. -/
def render (parts : List UriTemplatePart) : List Char :=
  parts.flatMap renderPart

/-- A length has between one and four digits and does not start with a zero. -/
def GrammaticalModifier : Option UriTemplateModifier → Prop
  | some (.prefixLength length) => 1 ≤ length ∧ length ≤ 9999
  | _ => True

/-- A variable that the grammar and its limits allow. -/
structure GrammaticalVariable (spec : UriTemplateVariable) : Prop where
  name : VariableName spec.name.toList
  short : spec.name.utf8ByteSize ≤ 512
  modifier : GrammaticalModifier spec.modifier

/-- An expression that the grammar and its limits allow. -/
structure GrammaticalExpression (expression : UriTemplateExpression) : Prop where
  nonempty : expression.vars ≠ []
  few : expression.vars.length ≤ 64
  specs : ∀ spec ∈ expression.vars, GrammaticalVariable spec

def GrammaticalPart : UriTemplatePart → Prop
  | .literal text => text ≠ "" ∧ Spelled LiteralCharacter text.toList
  | .expression expression => GrammaticalExpression expression

def isExpression : UriTemplatePart → Bool
  | .literal _ => false
  | .expression _ => true

/-- Grammatical parts, of which no two literals are neighbours. -/
structure GrammaticalParts (parts : List UriTemplatePart) : Prop where
  grammatical : ∀ part ∈ parts, GrammaticalPart part
  maximal : parts.IsChain fun first second => isExpression first ∨ isExpression second

/-- Grammatical parts within the limits of the parser. -/
structure GrammaticalTemplate (parts : List UriTemplatePart) : Prop extends
    GrammaticalParts parts where
  fewParts : parts.length ≤ 256
  fewExpressions : parts.countP isExpression ≤ 128

/-! ## Characters -/

theorem isAsciiHexDigit_iff (character : Char) :
    isAsciiHexDigit character = true ↔ Within hexDigitRanges character := by
  by_cases ascii : character.toNat < 128
  · have all : ∀ code < 128, (isAsciiHexDigit (Char.ofNat code) = true ↔
        Within hexDigitRanges (Char.ofNat code)) := by decide
    simpa using all character.toNat ascii
  · have other : ¬ Within hexDigitRanges character := by
      simp [Within, hexDigitRanges]
      omega
    simp [isAsciiHexDigit, ascii, other]

theorem varchar_iff (character : Char) :
    (isAsciiAlphanumeric character || character == '_') = true ↔
      Within varcharRanges character := by
  by_cases ascii : character.toNat < 128
  · have all : ∀ code < 128,
        ((isAsciiAlphanumeric (Char.ofNat code) || Char.ofNat code == '_') = true ↔
          Within varcharRanges (Char.ofNat code)) := by decide
    simpa using all character.toNat ascii
  · have other : ¬ Within varcharRanges character := by
      simp [Within, varcharRanges]
      omega
    have bound : ∀ limit : Char, limit.toNat < 128 → ¬ character ≤ limit := by
      intro limit small below
      have : character.toNat ≤ limit.toNat := below
      omega
    have digit := bound '9' (by decide)
    have upper := bound 'Z' (by decide)
    have lower := bound 'z' (by decide)
    have underscore : character ≠ '_' := by
      rintro rfl
      exact ascii (by decide)
    simp [isAsciiAlphanumeric, isAsciiDigit, digit, upper, lower, underscore, other]

theorem literalCharacter_ascii {character : Char} (ascii : character.toNat < 128) :
    isValidLiteralByte character = true ↔ LiteralCharacter character := by
  have all : ∀ code < 128, (isValidLiteralByte (Char.ofNat code) = true ↔
      Within literalRanges (Char.ofNat code)) := by decide
  have here := all character.toNat ascii
  rw [Char.ofNat_toNat] at here
  have noUcschar : ¬ Within ucscharRanges character := by
    simp [Within, ucscharRanges]
    omega
  have noIprivate : ¬ Within iprivateRanges character := by
    simp [Within, iprivateRanges]
    omega
  simp [LiteralCharacter, here, noUcschar, noIprivate]

theorem literalCharacter_nonAscii {character : Char} (nonAscii : ¬ character.toNat < 128) :
    isValidLiteralCharacter character = true ↔ LiteralCharacter character := by
  have noLiteral : ¬ Within literalRanges character := by
    simp [Within, literalRanges]
    omega
  have ranges : (ucscharRanges ++ iprivateRanges).Perm validLiteralRanges := by decide
  have valid : isValidLiteralCharacter character = true ↔ Within validLiteralRanges character := by
    simp only [isValidLiteralCharacter, List.any_eq_true, Bool.and_eq_true, decide_eq_true_eq,
      Within]
  rw [valid, LiteralCharacter, or_iff_right noLiteral]
  simp only [Within, ← ranges.mem_iff, List.mem_append, or_and_right, exists_or]

/-! ## Spelled texts -/

variable {plain : Char → Prop}

theorem spelled_plain_iff {character : Char} {rest : List Char} (notPercent : character ≠ '%') :
    Spelled plain (character :: rest) ↔ plain character ∧ Spelled plain rest := by
  constructor
  · intro spelled
    cases spelled with
    | plain isPlain rest => exact ⟨isPlain, rest⟩
    | triplet => exact absurd rfl notPercent
  · rintro ⟨isPlain, rest⟩
    exact .plain isPlain rest

theorem spelled_triplet_iff {high low : Char} {rest : List Char} (noPercent : ¬ plain '%') :
    Spelled plain ('%' :: high :: low :: rest) ↔
      Within hexDigitRanges high ∧ Within hexDigitRanges low ∧ Spelled plain rest := by
  constructor
  · intro spelled
    cases spelled with
    | plain isPlain => exact absurd isPlain noPercent
    | triplet isHigh isLow rest => exact ⟨isHigh, isLow, rest⟩
  · rintro ⟨isHigh, isLow, rest⟩
    exact .triplet isHigh isLow rest

/-- A percent sign needs two characters after it. -/
theorem not_spelled_short {rest : List Char} (noPercent : ¬ plain '%')
    (short : ∀ high low tail, rest ≠ high :: low :: tail) : ¬ Spelled plain ('%' :: rest) := by
  intro spelled
  cases spelled with
  | plain isPlain => exact noPercent isPlain
  | triplet => exact short _ _ _ rfl

theorem spelled_of_plain {text : List Char} (allPlain : ∀ character ∈ text, plain character) :
    Spelled plain text := by
  induction text with
  | nil => exact .nil
  | cons character text ih =>
    obtain ⟨isPlain, allPlain⟩ := List.forall_mem_cons.mp allPlain
    exact .plain isPlain (ih allPlain)

theorem literalCharacter_not_percent : ¬ LiteralCharacter '%' := by
  rw [← literalCharacter_ascii (by decide)]
  decide

theorem varchar_not_percent : ¬ Within varcharRanges '%' := by
  decide

theorem invalidLiteralOffset_eq_none (offset : Nat) (literal : List Char) :
    invalidLiteralOffset offset literal = none ↔ Spelled LiteralCharacter literal := by
  fun_induction invalidLiteralOffset offset literal with
  | case1 => exact iff_of_true rfl .nil
  | case2 offset high low tail digits ascii ih =>
    simp only [Bool.and_eq_true, isAsciiHexDigit_iff] at digits
    rw [ih, spelled_triplet_iff literalCharacter_not_percent]
    simp only [digits, true_and]
  | case3 offset high low tail digits ascii =>
    simp only [Bool.and_eq_true, isAsciiHexDigit_iff] at digits
    rw [spelled_triplet_iff literalCharacter_not_percent, ← and_assoc]
    simp only [digits, false_and, reduceCtorEq]
  | case4 offset rest short ascii =>
    exact iff_of_false (by simp) (not_spelled_short literalCharacter_not_percent short)
  | case5 offset character rest ascii notPercent valid ih =>
    rw [ih, spelled_plain_iff notPercent, ← literalCharacter_ascii ascii]
    simp only [valid, true_and]
  | case6 offset character rest ascii notPercent invalid =>
    rw [spelled_plain_iff notPercent, ← literalCharacter_ascii ascii]
    simp only [invalid, false_and, reduceCtorEq]
  | case7 offset character rest nonAscii valid ih =>
    have notPercent : character ≠ '%' := fun same => nonAscii (same ▸ by decide)
    rw [ih, spelled_plain_iff notPercent, ← literalCharacter_nonAscii nonAscii]
    simp only [valid, true_and]
  | case8 offset character rest nonAscii invalid =>
    have notPercent : character ≠ '%' := fun same => nonAscii (same ▸ by decide)
    rw [spelled_plain_iff notPercent, ← literalCharacter_nonAscii nonAscii]
    simp only [invalid, false_and, reduceCtorEq]

theorem checkSegment_iff (segment : List Char) :
    isValidVariableNameSegment.checkSegment segment = true ↔
      Spelled (Within varcharRanges) segment := by
  fun_induction isValidVariableNameSegment.checkSegment segment with
  | case1 => exact iff_of_true rfl .nil
  | case2 character rest valid ih =>
    rw [varchar_iff] at valid
    have notPercent : character ≠ '%' := fun same => varchar_not_percent (same ▸ valid)
    rw [ih, spelled_plain_iff notPercent]
    simp only [valid, true_and]
  | case3 character invalid percent high low tail digits ih =>
    rw [beq_iff_eq.mp percent, ih, spelled_triplet_iff varchar_not_percent]
    simp only [Bool.and_eq_true, isAsciiHexDigit_iff] at digits
    simp only [digits, true_and]
  | case4 character invalid percent high low tail digits =>
    rw [beq_iff_eq.mp percent, spelled_triplet_iff varchar_not_percent, ← and_assoc]
    simp only [Bool.and_eq_true, isAsciiHexDigit_iff] at digits
    simp only [digits, false_and, Bool.false_eq_true]
  | case5 character rest invalid percent short =>
    rw [beq_iff_eq.mp percent]
    exact iff_of_false (by simp) (not_spelled_short varchar_not_percent short)
  | case6 character rest invalid notPercent =>
    rw [varchar_iff] at invalid
    rw [spelled_plain_iff (fun same => notPercent (beq_iff_eq.mpr same))]
    simp only [invalid, false_and, Bool.false_eq_true]

theorem isValidVariableNameSegment_iff (segment : List Char) :
    isValidVariableNameSegment segment = true ↔
      segment ≠ [] ∧ Spelled (Within varcharRanges) segment := by
  cases segment with
  | nil => simp [isValidVariableNameSegment]
  | cons first rest => simp [isValidVariableNameSegment, checkSegment_iff]

/-- The characters that occur in names. -/
def nameRanges : List (Nat × Nat) :=
  (0x25, 0x25) :: (0x2E, 0x2E) :: varcharRanges

theorem within_nameRanges_of_varchar {character : Char} (varchar : Within varcharRanges character) :
    Within nameRanges character := by
  obtain ⟨range, listed, bounds⟩ := varchar
  exact ⟨range, List.mem_cons_of_mem _ (List.mem_cons_of_mem _ listed), bounds⟩

theorem varchar_of_hexDigit {character : Char} (digit : Within hexDigitRanges character) :
    Within varcharRanges character := by
  simp [Within, hexDigitRanges, varcharRanges] at digit ⊢
  omega

/-- The characters of a run are `varchar` characters or percent signs. -/
theorem spelled_varchar_characters {segment : List Char}
    (spelled : Spelled (Within varcharRanges) segment) :
    ∀ character ∈ segment, Within varcharRanges character ∨ character = '%' := by
  induction spelled with
  | nil => simp
  | plain isPlain spelled ih => exact List.forall_mem_cons.mpr ⟨.inl isPlain, ih⟩
  | triplet isHigh isLow spelled ih =>
    exact List.forall_mem_cons.mpr ⟨.inr rfl, List.forall_mem_cons.mpr
      ⟨.inl (varchar_of_hexDigit isHigh), List.forall_mem_cons.mpr
        ⟨.inl (varchar_of_hexDigit isLow), ih⟩⟩⟩

theorem isValidVariableName_iff (name : List Char) :
    isValidVariableName name = true ↔ VariableName name := by
  have noDot : ∀ segment, Spelled (Within varcharRanges) segment → '.' ∉ segment := by
    intro segment spelled listed
    rcases spelled_varchar_characters spelled _ listed with varchar | percent
    · exact absurd varchar (by decide)
    · exact absurd percent (by decide)
  simp only [isValidVariableName, Bool.and_eq_true, List.all_eq_true,
    isValidVariableNameSegment_iff, Bool.not_eq_true', List.isEmpty_eq_false_iff]
  constructor
  · rintro ⟨-, segments⟩
    exact ⟨name.splitOn '.', List.splitOn_ne_nil '.' name, segments,
      (List.intercalate_splitOn '.').symm⟩
  · rintro ⟨segments, nonempty, spelled, rfl⟩
    have pieces : (['.'].intercalate segments).splitOn '.' = segments :=
      List.splitOn_intercalate '.' (fun segment listed => noDot segment (spelled segment listed).2)
        nonempty
    refine ⟨?_, by rwa [pieces]⟩
    intro empty
    rw [empty, List.splitOn_nil] at pieces
    exact (spelled [] (pieces ▸ List.mem_cons_self)).1 rfl

theorem mem_intercalate {Item : Type*} {separator : List Item} {pieces : List (List Item)}
    {item : Item} (listed : item ∈ separator.intercalate pieces) :
    item ∈ separator ∨ ∃ piece ∈ pieces, item ∈ piece := by
  induction pieces with
  | nil => simp at listed
  | cons first rest ih =>
    cases rest with
    | nil => exact .inr ⟨first, List.mem_cons_self, by simpa using listed⟩
    | cons second rest =>
      rw [List.intercalate_cons_cons, List.mem_append, List.mem_append] at listed
      rcases listed with (here | between) | later
      · exact .inr ⟨first, List.mem_cons_self, here⟩
      · exact .inl between
      · rcases ih later with between | ⟨piece, member, inside⟩
        · exact .inl between
        · exact .inr ⟨piece, List.mem_cons_of_mem _ member, inside⟩

theorem variableName_characters {name : List Char} (isName : VariableName name) :
    ∀ character ∈ name, Within nameRanges character := by
  obtain ⟨segments, -, spelled, rfl⟩ := isName
  intro character listed
  rcases mem_intercalate listed with dot | ⟨segment, member, inside⟩
  · rw [List.mem_singleton.mp dot]
    decide
  · rcases spelled_varchar_characters (spelled segment member).2 character inside with
      varchar | rfl
    · exact within_nameRanges_of_varchar varchar
    · decide

/-- A name does not contain the characters around it. -/
theorem not_mem_variableName {name : List Char} {character : Char} (isName : VariableName name)
    (outside : ¬ Within nameRanges character) : character ∉ name :=
  fun listed => outside (variableName_characters isName character listed)

theorem variableName_nonempty {name : List Char} (isName : VariableName name) : name ≠ [] := by
  have valid := (isValidVariableName_iff name).mpr isName
  simp only [isValidVariableName, Bool.and_eq_true, Bool.not_eq_true',
    List.isEmpty_eq_false_iff] at valid
  exact valid.1

/-- A name starts with a `varchar` or with a triplet. -/
theorem variableName_head {name : List Char} (isName : VariableName name) :
    ∃ first rest, name = first :: rest ∧ (Within varcharRanges first ∨ first = '%') := by
  obtain ⟨segments, nonempty, spelled, rfl⟩ := isName
  obtain ⟨segment, rest, rfl⟩ := List.exists_cons_of_ne_nil nonempty
  obtain ⟨nonempty, segmentSpelled⟩ := spelled segment List.mem_cons_self
  obtain ⟨first, tail, rfl⟩ := List.exists_cons_of_ne_nil nonempty
  have isFirst := spelled_varchar_characters segmentSpelled first List.mem_cons_self
  cases rest with
  | nil => exact ⟨first, tail, by simp, isFirst⟩
  | cons second rest => exact ⟨first, _, by rw [List.intercalate_cons_cons]; rfl, isFirst⟩

/-! ## Variables -/

theorem byteLength_eq (text : List Char) :
    (String.ofList text).utf8ByteSize = byteLength text := by
  rw [utf8ByteSize_eq, bytes_ofList, List.length_flatMap, byteLength]
  simp

theorem toDigits_head {number : Nat} (positive : 1 ≤ number) :
    ∃ first rest, Nat.toDigits 10 number = first :: rest ∧ '1' ≤ first ∧ first ≤ '9' := by
  induction number using Nat.strongRecOn with
  | ind number ih =>
    rw [Nat.toDigits_eq_if (by decide)]
    split
    · rename_i small
      have all : ∀ digit < 10, 1 ≤ digit →
          '1' ≤ Nat.digitChar digit ∧ Nat.digitChar digit ≤ '9' := by decide
      exact ⟨_, _, rfl, all number small positive⟩
    · obtain ⟨first, rest, spelled, range⟩ := ih (number / 10) (by omega) (by omega)
      exact ⟨first, rest ++ [_], by rw [spelled]; rfl, range⟩

theorem isAsciiDigit_of_isDigit {character : Char} (digit : character.isDigit = true) :
    isAsciiDigit character = true := by
  simpa [Char.isDigit, isAsciiDigit, Char.le_def] using digit

theorem isValidPrefix_toDigits {length : Nat} (positive : 1 ≤ length) (small : length ≤ 9999) :
    isValidPrefix (Nat.toDigits 10 length) = true := by
  have short : (Nat.toDigits 10 length).length ≤ 4 :=
    (Nat.length_toDigits_le_iff (by decide) (by decide)).mpr (by omega)
  have digits : (Nat.toDigits 10 length).all isAsciiDigit = true :=
    List.all_eq_true.mpr fun digit listed =>
      isAsciiDigit_of_isDigit (isDigit_toDigits length digit listed)
  have parsed : parseUnsigned 10 usizeMax (Nat.toDigits 10 length) = some length :=
    parseUnsigned_toDigits (by unfold usizeMax; omega)
  obtain ⟨first, rest, spelled, lower, upper⟩ := toDigits_head positive
  simp only [isValidPrefix, parsed, digits, short, Option.any_some, maxUriTemplatePrefixLength,
    small, decide_true, Bool.and_true, Bool.true_and]
  simp [spelled, lower, upper]

/-- The texts that are lengths are the decimal spellings of lengths. -/
theorem isValidPrefix_iff (text : List Char) :
    isValidPrefix text = true ↔
      ∃ length, 1 ≤ length ∧ length ≤ 9999 ∧ text = Nat.toDigits 10 length := by
  constructor
  · intro valid
    simp only [isValidPrefix, Bool.and_eq_true, decide_eq_true_eq] at valid
    obtain ⟨⟨⟨-, leads⟩, -⟩, small⟩ := valid
    cases text with
    | nil => simp at leads
    | cons first rest =>
      simp only [List.head?_cons, Option.any_some, Bool.and_eq_true, decide_eq_true_eq] at leads
      have unsigned : first ≠ '+' := by
        rintro rfl
        exact absurd leads.1 (by decide)
      have notZero : first ≠ '0' := by
        rintro rfl
        exact absurd leads.1 (by decide)
      rw [parseUnsigned_unsigned unsigned] at small
      obtain ⟨length, read, bounded⟩ := (Option.any_eq_true _ _).mp small
      obtain ⟨value, parsed, fits⟩ := Option.bind_eq_some_iff.mp read
      have spelled := toDigits_of_parseDigits (List.cons_ne_nil first rest)
        (fun same => notZero (Option.some.inj same)) parsed
      have same : value = length := by
        split at fits
        · exact Option.some.inj fits
        · contradiction
      subst same
      have positive : value ≠ 0 := by
        rintro rfl
        exact notZero (List.cons.inj spelled).1.symm
      exact ⟨value, by omega, of_decide_eq_true bounded, spelled.symm⟩
  · rintro ⟨length, positive, small, rfl⟩
    exact isValidPrefix_toDigits positive small

variable {source name : List Char} {offset : Nat} {modifier : Option UriTemplateModifier}

theorem ne_colon_of_not_mem (noColon : ':' ∉ name) :
    ∀ character ∈ name, (decide (character ≠ ':')) = true := by
  intro character listed
  exact decide_eq_true fun same => noColon (same ▸ listed)

theorem parseModifier_render (nonempty : name ≠ []) (noStar : '*' ∉ name) (noColon : ':' ∉ name)
    (grammatical : GrammaticalModifier modifier) :
    parseModifier (name ++ renderModifier modifier) offset = .ok (name, modifier) := by
  have beforeColon := ne_colon_of_not_mem noColon
  match modifier with
  | none =>
    have last : name.getLast? ≠ some '*' := fun same => noStar (List.mem_of_getLast? same)
    rw [renderModifier, List.append_nil, parseModifier, if_neg last,
      List.dropWhile_eq_nil_iff.mpr beforeColon]
  | some .explode =>
    simp [renderModifier, parseModifier, nonempty, noColon]
  | some (.prefixLength length) =>
    obtain ⟨positive, small⟩ := grammatical
    have valid := isValidPrefix_toDigits positive small
    have read : parseUnsigned 10 usizeMax (Nat.toDigits 10 length) = some length :=
      parseUnsigned_toDigits (by unfold usizeMax; omega)
    have last : (name ++ ':' :: Nat.toDigits 10 length).getLast? ≠ some '*' := by
      intro same
      rcases List.mem_append.mp (List.mem_of_getLast? same) with inName | inDigits
      · exact noStar inName
      · rcases List.mem_cons.mp inDigits with colon | digit
        · exact absurd colon (by decide)
        · exact absurd (isDigit_toDigits length '*' digit) (by decide)
    rw [renderModifier, parseModifier, if_neg last, List.dropWhile_append_of_pos beforeColon,
      List.takeWhile_append_of_pos beforeColon]
    simp [valid, read]

theorem parseModifier_sound (parsed : parseModifier source offset = .ok (name, modifier)) :
    source = name ++ renderModifier modifier ∧ GrammaticalModifier modifier := by
  rw [parseModifier] at parsed
  split at parsed
  · rename_i starred
    simp only at parsed
    split at parsed
    · contradiction
    obtain ⟨rfl, rfl⟩ := Prod.mk.inj (Except.ok.inj parsed)
    exact ⟨(List.dropLast_append_getLast? '*' starred).symm, trivial⟩
  · split at parsed
    · rename_i colon text rest
      split at parsed
      · contradiction
      rename_i valid
      obtain ⟨length, positive, small, rfl⟩ :=
        (isValidPrefix_iff text).mp (by simpa using valid)
      rw [parseUnsigned_toDigits (by unfold usizeMax; omega)] at parsed
      obtain ⟨rfl, rfl⟩ := Prod.mk.inj (Except.ok.inj parsed)
      have isColon : colon = ':' := by
        have stopped := List.head?_dropWhile_not (fun character => decide (character ≠ ':')) source
        rw [rest] at stopped
        simpa using stopped
      subst isColon
      refine ⟨?_, positive, small⟩
      rw [renderModifier, ← rest, List.takeWhile_append_dropWhile]
    · obtain ⟨rfl, rfl⟩ := Prod.mk.inj (Except.ok.inj parsed)
      exact ⟨(List.append_nil _).symm, trivial⟩

theorem parseVariable_parts {spec : UriTemplateVariable} :
    parseVariable source offset = .ok spec ↔
      source ≠ [] ∧ ∃ name modifier, parseModifier source offset = .ok (name, modifier) ∧
        byteLength name ≤ 512 ∧ isValidVariableName name = true ∧
        ⟨String.ofList name, modifier⟩ = spec := by
  simp only [parseVariable, throw_andThen, guard_eq_ok, andThen_eq_ok, Prod.exists, pure,
    Except.pure, Except.ok.injEq, List.isEmpty_iff, Bool.not_eq_true', Bool.not_eq_false,
    maxUriTemplateVariableNameBytes, gt_iff_lt, not_lt]

/-- The parser accepts the spellings of grammatical variables. -/
theorem parseVariable_eq_ok {spec : UriTemplateVariable} :
    parseVariable source offset = .ok spec ↔
      GrammaticalVariable spec ∧ source = renderVariable spec := by
  rw [parseVariable_parts]
  constructor
  · rintro ⟨-, name, modifier, split, short, valid, rfl⟩
    obtain ⟨spelled, grammatical⟩ := parseModifier_sound split
    rw [isValidVariableName_iff] at valid
    refine ⟨⟨?_, ?_, grammatical⟩, ?_⟩
    · rwa [String.toList_ofList]
    · rwa [byteLength_eq]
    · rwa [renderVariable, String.toList_ofList]
  · rintro ⟨⟨isName, short, grammatical⟩, rfl⟩
    have nonempty := variableName_nonempty isName
    refine ⟨?_, spec.name.toList, spec.modifier, ?_, ?_, ?_, ?_⟩
    · simp [renderVariable, nonempty]
    · exact parseModifier_render nonempty (not_mem_variableName isName (by decide))
        (not_mem_variableName isName (by decide)) grammatical
    · rwa [← byteLength_eq, String.ofList_toList]
    · exact (isValidVariableName_iff _).mpr isName
    · rw [String.ofList_toList]

theorem parseVariables_eq_ok {parsed vars : List UriTemplateVariable} {sources : List (List Char)}
    (few : parsed.length ≤ 64) :
    parseVariables parsed offset sources = .ok vars ↔
      ∃ more, vars = parsed ++ more ∧ vars.length ≤ 64 ∧
        (∀ spec ∈ more, GrammaticalVariable spec) ∧ sources = more.map renderVariable := by
  induction sources generalizing parsed offset with
  | nil =>
    rw [parseVariables, Except.ok.injEq]
    constructor
    · rintro rfl
      exact ⟨[], by simp, few, by simp, rfl⟩
    · rintro ⟨more, rfl, -, -, noNames⟩
      rw [List.map_eq_nil_iff.mp noNames.symm, List.append_nil]
  | cons source sources ih =>
    simp only [parseVariables, throw_andThen, guard_eq_ok, andThen_eq_ok, parseVariable_eq_ok]
    constructor
    · rintro ⟨notFull, spec, ⟨grammatical, rfl⟩, continued⟩
      have room : (parsed ++ [spec]).length ≤ 64 := by
        unfold maxUriTemplateVariablesPerExpression at notFull
        rw [List.length_append, List.length_singleton]
        omega
      obtain ⟨more, rfl, short, all, rfl⟩ := (ih room).mp continued
      exact ⟨spec :: more, by simp, short, List.forall_mem_cons.mpr ⟨grammatical, all⟩, rfl⟩
    · rintro ⟨more, rfl, short, all, spelled⟩
      cases more with
      | nil => contradiction
      | cons spec more =>
        obtain ⟨rfl, rfl⟩ := List.cons.inj spelled
        obtain ⟨grammatical, all⟩ := List.forall_mem_cons.mp all
        have room : (parsed ++ [spec]).length ≤ 64 := by
          simp only [List.length_append, List.length_cons, List.length_nil] at short ⊢
          omega
        refine ⟨?_, spec, ⟨grammatical, rfl⟩, (ih room).mpr ⟨more, by simp, short, all, rfl⟩⟩
        rw [List.length_append, List.length_singleton] at room
        unfold maxUriTemplateVariablesPerExpression
        omega

/-! ## Expressions -/

theorem parseOperator_sound {operator : UriTemplateOperator} {start : Nat} {rest : List Char}
    (parsed : parseOperator source offset = .ok (operator, start, rest)) :
    source = renderOperator operator ++ rest := by
  unfold parseOperator at parsed
  split at parsed
  case h_1 => contradiction
  case h_9 =>
    split at parsed
    · contradiction
    · cases parsed
      rfl
  all_goals
    cases parsed
    rfl

/-- The character after an operator is the first of a name. -/
theorem parseOperator_render (operator : UriTemplateOperator) (offset : Nat) {first : Char}
    (rest : List Char)
    (starts : Within varcharRanges first ∨ first = '%') :
    ∃ start, parseOperator (renderOperator operator ++ first :: rest) offset =
      .ok (operator, start, first :: rest) := by
  have other : ∀ character, ¬ (Within varcharRanges character ∨ character = '%') →
      first ≠ character := by
    rintro character outside rfl
    exact outside starts
  cases operator with
  | simple =>
    refine ⟨0, ?_⟩
    have supported : (first == '=' || first == ',' || first == '!' || first == '@' ||
        first == '|') = false := by
      simp [other '=' (by decide), other ',' (by decide), other '!' (by decide),
        other '@' (by decide), other '|' (by decide)]
    unfold parseOperator renderOperator
    rw [List.nil_append]
    split
    case h_1 => contradiction
    case h_9 =>
      rename_i same
      obtain ⟨rfl, rfl⟩ := List.cons.inj same
      rw [supported, if_neg Bool.false_ne_true]
    all_goals
      rename_i same
      exact absurd (List.cons.inj same).1 (other _ (by decide))
  | reserved => exact ⟨1, rfl⟩
  | fragment => exact ⟨1, rfl⟩
  | label => exact ⟨1, rfl⟩
  | path => exact ⟨1, rfl⟩
  | pathParameter => exact ⟨1, rfl⟩
  | query => exact ⟨1, rfl⟩
  | queryContinuation => exact ⟨1, rfl⟩

theorem parseExpression_parts {expression : UriTemplateExpression} :
    parseExpression source offset = .ok expression ↔
      ∃ start rest, parseOperator source offset = .ok (expression.operator, start, rest) ∧
        rest ≠ [] ∧
        parseVariables [] (offset + start) (rest.splitOn ',') = .ok expression.vars := by
  simp only [parseExpression, throw_andThen, guard_eq_ok, andThen_eq_ok, Prod.exists, pure,
    Except.pure, Except.ok.injEq, List.isEmpty_iff]
  constructor
  · rintro ⟨operator, start, rest, split, nonempty, vars, parsed, rfl⟩
    exact ⟨start, rest, split, nonempty, parsed⟩
  · rintro ⟨start, rest, split, nonempty, parsed⟩
    exact ⟨_, start, rest, split, nonempty, _, parsed, rfl⟩

/-- The characters of a variable are those of names, the colon and the star. -/
theorem renderVariable_characters {spec : UriTemplateVariable}
    (grammatical : GrammaticalVariable spec) :
    ∀ character ∈ renderVariable spec,
      Within ((0x2A, 0x2A) :: (0x3A, 0x3A) :: nameRanges) character := by
  have ofName : ∀ character, Within nameRanges character →
      Within ((0x2A, 0x2A) :: (0x3A, 0x3A) :: nameRanges) character := by
    rintro character ⟨range, listed, bounds⟩
    exact ⟨range, List.mem_cons_of_mem _ (List.mem_cons_of_mem _ listed), bounds⟩
  have ofModifier : ∀ modifier, ∀ character ∈ renderModifier modifier,
      Within ((0x2A, 0x2A) :: (0x3A, 0x3A) :: nameRanges) character := by
    intro modifier character listed
    match modifier with
    | none => simp [renderModifier] at listed
    | some .explode =>
      rw [List.mem_singleton.mp listed]
      decide
    | some (.prefixLength length) =>
      rcases List.mem_cons.mp listed with rfl | digit
      · decide
      · have isDigit := isAsciiDigit_of_isDigit (isDigit_toDigits length character digit)
        apply ofName
        apply within_nameRanges_of_varchar
        rw [← varchar_iff]
        simp [isAsciiAlphanumeric, isDigit]
  exact List.forall_mem_append.mpr
    ⟨fun character listed => ofName character (variableName_characters grammatical.name _ listed),
      ofModifier spec.modifier⟩

/-- The text of a variable list starts like a name. -/
theorem renderVariables_head {vars : List UriTemplateVariable} (nonempty : vars ≠ [])
    (grammatical : ∀ spec ∈ vars, GrammaticalVariable spec) :
    ∃ first rest, [','].intercalate (vars.map renderVariable) = first :: rest ∧
      (Within varcharRanges first ∨ first = '%') := by
  obtain ⟨spec, specs, rfl⟩ := List.exists_cons_of_ne_nil nonempty
  obtain ⟨first, rest, spelled, starts⟩ :=
    variableName_head (grammatical spec List.mem_cons_self).name
  cases specs with
  | nil => exact ⟨first, rest ++ renderModifier spec.modifier, by simp [renderVariable, spelled],
      starts⟩
  | cons second specs =>
    refine ⟨first, rest ++ renderModifier spec.modifier ++ [','] ++
      [','].intercalate ((second :: specs).map renderVariable), ?_, starts⟩
    rw [List.map_cons, List.map_cons, List.intercalate_cons_cons, renderVariable, spelled]
    rfl

/-- The parser accepts the spellings of grammatical expressions. -/
theorem parseExpression_eq_ok {expression : UriTemplateExpression} :
    parseExpression source offset = .ok expression ↔
      GrammaticalExpression expression ∧ source = renderBody expression := by
  rw [parseExpression_parts]
  constructor
  · rintro ⟨start, rest, split, nonempty, parsed⟩
    obtain ⟨more, same, few, grammatical, spelled⟩ := (parseVariables_eq_ok (by simp)).mp parsed
    rw [List.nil_append] at same
    subst same
    refine ⟨⟨?_, few, grammatical⟩, ?_⟩
    · intro noNames
      rw [noNames, List.map_nil] at spelled
      exact List.splitOn_ne_nil ',' rest spelled
    · rw [parseOperator_sound split, renderBody, ← spelled, List.intercalate_splitOn]
  · rintro ⟨⟨nonempty, few, grammatical⟩, rfl⟩
    have commas : ∀ piece ∈ expression.vars.map renderVariable, ',' ∉ piece := by
      intro piece listed comma
      obtain ⟨spec, member, rfl⟩ := List.mem_map.mp listed
      exact absurd (renderVariable_characters (grammatical spec member) ',' comma) (by decide)
    obtain ⟨first, tail, spelled, starts⟩ := renderVariables_head nonempty grammatical
    obtain ⟨start, split⟩ :=
      parseOperator_render expression.operator offset tail starts
    refine ⟨start, first :: tail, ?_, List.cons_ne_nil first tail, ?_⟩
    · rwa [renderBody, spelled]
    · rw [← spelled, List.splitOn_intercalate ',' commas (by simpa using nonempty),
        parseVariables_eq_ok (by simp)]
      exact ⟨expression.vars, rfl, few, grammatical, rfl⟩

/-- The body of an expression contains no braces. -/
theorem renderBody_noBrace {expression : UriTemplateExpression}
    (grammatical : GrammaticalExpression expression) :
    '\x7b' ∉ renderBody expression ∧ '\x7d' ∉ renderBody expression := by
  have free : ∀ brace, brace = '\x7b' ∨ brace = '\x7d' → brace ∉ renderBody expression := by
    intro brace isBrace listed
    rcases List.mem_append.mp listed with inOperator | inVariables
    · cases same : expression.operator <;> rw [same] at inOperator <;>
        rcases isBrace with rfl | rfl <;> simp [renderOperator] at inOperator
    · rcases mem_intercalate inVariables with comma | ⟨piece, member, inside⟩
      · rcases isBrace with rfl | rfl <;> simp at comma
      · obtain ⟨spec, known, rfl⟩ := List.mem_map.mp member
        have range := renderVariable_characters (grammatical.specs spec known) brace inside
        rcases isBrace with rfl | rfl <;> exact absurd range (by decide)
  exact ⟨free _ (.inl rfl), free _ (.inr rfl)⟩

end FastMcp.UriTemplates
