import FastMcp.RawJsonNumberTokens

/-! # The language of the raw JSON scanner

The scanner succeeds exactly on the texts of syntax trees that keep its
limits. The budgets are stated once for the content of a tree, so that they
add up along a text in the order in which the scanner charges them.
-/

namespace FastMcp.RawAdmission

open ByteText JsonGrammar JsonNumbers Outcomes

/-! ## Contents and budgets -/

/-- What a part of a document adds to the budgets. -/
@[ext]
structure Content where
  nesting : Nat
  entries : Nat
  numbers : List NumberLexeme
  strings : List (List StringItem)
  objects : List (List (List StringItem))

namespace Content

def nothing : Content :=
  ⟨0, 0, [], [], []⟩

def entry : Content :=
  { nothing with entries := 1 }

def token (lexeme : NumberLexeme) : Content :=
  { nothing with numbers := [lexeme] }

def text (items : List StringItem) : Content :=
  { nothing with strings := [items] }

/-- The content of two parts that follow each other. -/
def append (first second : Content) : Content :=
  ⟨max first.nesting second.nesting, first.entries + second.entries,
    first.numbers ++ second.numbers, first.strings ++ second.strings,
    first.objects ++ second.objects⟩

/-- The number bytes of all number tokens. -/
def numberBytes (content : Content) : Nat :=
  (content.numbers.map fun lexeme => lexeme.text.length).sum

/-- The decoded bytes of all strings. -/
def stringBytes (content : Content) : Nat :=
  (content.strings.map decodedLength).sum

/-- The cursor after a part of a document with this content. -/
def after (content : Content) (cursor : Cursor) (rest : List Char) : Cursor where
  rest := rest
  containerEntries := cursor.containerEntries + content.entries
  numberBytes := cursor.numberBytes + content.numberBytes
  decodedStringBytes := cursor.decodedStringBytes + content.stringBytes

/-- A content that a scanner at a given depth can take in without passing a
limit or meeting two members of one name. -/
structure Fits (content : Content) (stringLimit depth : Nat) (cursor : Cursor) : Prop where
  nesting : depth + content.nesting ≤ rawScanProfile.maxNestingDepth
  entries : cursor.containerEntries + content.entries ≤ rawScanProfile.maxContainerEntries
  tokens : ∀ lexeme ∈ content.numbers, RawJsonScanner.TokenFits lexeme
  numberBytes :
    cursor.numberBytes + content.numberBytes ≤ rawScanProfile.maxAggregateNumberBytes
  decodable : ∀ items ∈ content.strings, (decodeItems items).isSome = true
  stringBytes : cursor.decodedStringBytes + content.stringBytes ≤ stringLimit
  distinct : ∀ names ∈ content.objects, (names.map decodeItems).Nodup

theorem append_nothing (content : Content) : content.append nothing = content := by
  simp [append, nothing]

theorem after_append (first second : Content) (cursor : Cursor) (middle rest : List Char) :
    (first.append second).after cursor rest = second.after (first.after cursor middle) rest := by
  simp [after, append, numberBytes, stringBytes, Nat.add_assoc]

variable {content : Content} {stringLimit depth : Nat} {cursor : Cursor}

/-- The budgets do not depend on what is left to read. -/
theorem Fits.move (fits : content.Fits stringLimit depth cursor) (rest : List Char) :
    content.Fits stringLimit depth { cursor with rest := rest } :=
  ⟨fits.nesting, fits.entries, fits.tokens, fits.numberBytes, fits.decodable, fits.stringBytes,
    fits.distinct⟩

theorem Fits.entered (fits : content.Fits stringLimit depth cursor) {deeper : Nat}
    (shallow : deeper + content.nesting ≤ rawScanProfile.maxNestingDepth) :
    content.Fits stringLimit deeper cursor :=
  ⟨shallow, fits.entries, fits.tokens, fits.numberBytes, fits.decodable, fits.stringBytes,
    fits.distinct⟩

/-- The budgets of two parts that follow each other are charged one after the
other. -/
theorem fits_append {first second : Content} (rest : List Char) :
    (first.append second).Fits stringLimit depth cursor ↔
      first.Fits stringLimit depth cursor ∧
        second.Fits stringLimit depth (first.after cursor rest) := by
  have numbers : (first.append second).numberBytes = first.numberBytes + second.numberBytes := by
    simp [numberBytes, append]
  have strings : (first.append second).stringBytes = first.stringBytes + second.stringBytes := by
    simp [stringBytes, append]
  constructor
  · intro fits
    obtain ⟨nesting, entries, tokens, numberFits, decodable, stringFits, distinct⟩ := fits
    simp only [append, List.forall_mem_append] at nesting entries tokens decodable distinct
    rw [numbers] at numberFits
    rw [strings] at stringFits
    constructor
    · exact ⟨by omega, by omega, tokens.1, by omega, decodable.1, by omega, distinct.1⟩
    · refine ⟨by omega, ?_, tokens.2, ?_, decodable.2, ?_, distinct.2⟩
      all_goals
        simp only [after]
        omega
  · rintro ⟨one, two⟩
    obtain ⟨nesting, entries, tokens, numberFits, decodable, stringFits, distinct⟩ := two
    simp only [after] at entries numberFits stringFits
    have firstNesting := one.nesting
    refine ⟨?_, ?_, ?_, ?_, ?_, ?_, ?_⟩
    · simp only [append]
      omega
    · simp only [append]
      omega
    · exact List.forall_mem_append.mpr ⟨one.tokens, tokens⟩
    · rw [numbers]
      omega
    · exact List.forall_mem_append.mpr ⟨one.decodable, decodable⟩
    · rw [strings]
      omega
    · exact List.forall_mem_append.mpr ⟨one.distinct, distinct⟩

/-- The content of an array with the given elements, or of an empty object. -/
def inContainer (content : Content) : Content :=
  { content with nesting := content.nesting + 1 }

/-- The content of an object with the given members. -/
def inObject (content : Content) (names : List (List StringItem)) : Content :=
  { content.inContainer with objects := names :: content.objects }

theorem fits_inContainer :
    content.inContainer.Fits stringLimit depth cursor ↔
      content.Fits stringLimit (depth + 1) cursor := by
  constructor
  · rintro ⟨nesting, entries, tokens, numberFits, decodable, stringFits, distinct⟩
    simp only [inContainer] at nesting
    exact ⟨by omega, entries, tokens, numberFits, decodable, stringFits, distinct⟩
  · rintro ⟨nesting, entries, tokens, numberFits, decodable, stringFits, distinct⟩
    refine ⟨?_, entries, tokens, numberFits, decodable, stringFits, distinct⟩
    simp only [inContainer]
    omega

theorem fits_inObject {names : List (List StringItem)} :
    (content.inObject names).Fits stringLimit depth cursor ↔
      (names.map decodeItems).Nodup ∧ content.Fits stringLimit (depth + 1) cursor := by
  rw [← fits_inContainer]
  constructor
  · rintro ⟨nesting, entries, tokens, numberFits, decodable, stringFits, distinct⟩
    obtain ⟨own, others⟩ := List.forall_mem_cons.mp distinct
    exact ⟨own, nesting, entries, tokens, numberFits, decodable, stringFits, others⟩
  · rintro ⟨own, nesting, entries, tokens, numberFits, decodable, stringFits, others⟩
    exact ⟨nesting, entries, tokens, numberFits, decodable, stringFits,
      List.forall_mem_cons.mpr ⟨own, others⟩⟩

/-- What still fits after a content was taken in. -/
theorem Fits.nothing_after (fits : content.Fits stringLimit depth cursor) (rest : List Char) :
    nothing.Fits stringLimit depth (content.after cursor rest) := by
  rw [← append_nothing content] at fits
  exact ((fits_append rest).mp fits).2

theorem fits_entry :
    entry.Fits stringLimit depth cursor ↔
      nothing.Fits stringLimit depth cursor ∧
        cursor.containerEntries + 1 ≤ rawScanProfile.maxContainerEntries := by
  constructor
  · rintro ⟨nesting, entries, tokens, numberFits, decodable, stringFits, distinct⟩
    simp only [entry] at entries
    refine ⟨⟨nesting, ?_, tokens, numberFits, decodable, stringFits, distinct⟩, entries⟩
    simp only [nothing]
    omega
  · rintro ⟨⟨nesting, -, tokens, numberFits, decodable, stringFits, distinct⟩, entries⟩
    exact ⟨nesting, entries, tokens, numberFits, decodable, stringFits, distinct⟩

theorem fits_text {items : List StringItem} :
    (text items).Fits stringLimit depth cursor ↔
      nothing.Fits stringLimit depth cursor ∧ ∃ characters, decodeItems items = some characters ∧
        cursor.decodedStringBytes + byteLength characters ≤ stringLimit := by
  constructor
  · rintro ⟨nesting, entries, tokens, numberFits, decodable, stringFits, distinct⟩
    obtain ⟨characters, decoded⟩ := Option.isSome_iff_exists.mp
      (decodable items List.mem_cons_self)
    simp [stringBytes, text, decodedLength, decoded] at stringFits
    refine ⟨⟨nesting, entries, tokens, numberFits, by simp [nothing], ?_, distinct⟩, characters,
      decoded, stringFits⟩
    simp [stringBytes, nothing]
    omega
  · rintro ⟨⟨nesting, entries, tokens, numberFits, -, -, distinct⟩, characters, decoded, bounded⟩
    refine ⟨nesting, entries, tokens, numberFits, ?_, ?_, distinct⟩
    · simp [text, decoded]
    · simpa [stringBytes, text, decodedLength, decoded] using bounded

theorem after_text {items : List StringItem} {characters : List Char}
    (decoded : decodeItems items = some characters) (cursor : Cursor) (rest : List Char) :
    (text items).after cursor rest = cursor.afterString characters rest := by
  simp [after, text, nothing, numberBytes, stringBytes, decodedLength, decoded, Cursor.afterString]

theorem fits_token {lexeme : NumberLexeme} :
    (token lexeme).Fits stringLimit depth cursor ↔
      nothing.Fits stringLimit depth cursor ∧ RawJsonScanner.TokenFits lexeme ∧
        cursor.numberBytes + lexeme.text.length ≤ rawScanProfile.maxAggregateNumberBytes := by
  constructor
  · rintro ⟨nesting, entries, tokens, numberFits, decodable, stringFits, distinct⟩
    simp [numberBytes, token] at numberFits
    refine ⟨⟨nesting, entries, by simp [nothing], ?_, decodable, stringFits, distinct⟩,
      tokens lexeme List.mem_cons_self, numberFits⟩
    simp [numberBytes, nothing]
    omega
  · rintro ⟨⟨nesting, entries, -, -, decodable, stringFits, distinct⟩, tokenFits, bounded⟩
    refine ⟨nesting, entries, ?_, ?_, decodable, stringFits, distinct⟩
    · simpa [token] using tokenFits
    · simpa [numberBytes, token] using bounded

end Content

def valueContent (value : Value) : Content :=
  ⟨value.nesting, value.entries, value.numbers, value.strings, value.objects⟩

def elementsContent (elements : Elements) : Content :=
  ⟨elements.nesting, elements.entries, elements.numbers, elements.strings, elements.objects⟩

def membersContent (members : Members) : Content :=
  ⟨members.nesting, members.entries, members.numbers, members.strings, members.objects⟩

open Content

theorem elementsContent_last (value : Value) (after : Whitespace) :
    elementsContent (.last value after) = entry.append (valueContent value) := by
  ext1 <;> simp [elementsContent, valueContent, append, entry, nothing, Elements.nesting,
    Elements.entries, Elements.numbers, Elements.strings, Elements.objects, Nat.add_comm]

theorem elementsContent_more (value : Value) (after before : Whitespace) (rest : Elements) :
    elementsContent (.more value after before rest) =
      (entry.append (valueContent value)).append (elementsContent rest) := by
  ext1 <;> simp [elementsContent, valueContent, append, entry, nothing, Elements.nesting,
    Elements.entries, Elements.numbers, Elements.strings, Elements.objects, Nat.add_comm]

theorem membersContent_last (name : MemberName) (value : Value) (after : Whitespace) :
    membersContent (.last name value after) =
      (entry.append (text name.items)).append (valueContent value) := by
  ext1 <;> simp [membersContent, valueContent, append, entry, text, nothing, Members.nesting,
    Members.entries, Members.numbers, Members.strings, Members.objects, Nat.add_comm]

theorem membersContent_more (name : MemberName) (value : Value) (after before : Whitespace)
    (rest : Members) :
    membersContent (.more name value after before rest) =
      ((entry.append (text name.items)).append (valueContent value)).append
        (membersContent rest) := by
  ext1 <;> simp [membersContent, valueContent, append, entry, text, nothing, Members.nesting,
    Members.entries, Members.numbers, Members.strings, Members.objects, Nat.add_comm]

end FastMcp.RawAdmission
