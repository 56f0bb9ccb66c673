import FastMcp.RawJsonSoundness

/-! # The raw JSON scanner reads every text that fits

The text of a syntax tree whose content fits the budgets is read to its end,
provided that what follows does not continue a number. The induction is on the
tree; as much fuel as the text has characters is enough.
-/

namespace FastMcp.RawAdmission

open ByteText JsonGrammar JsonNumbers Outcomes Content

/-! ## Where values begin and end -/

theorem isWhitespace_of_isAsciiDigit {character : Char} (digit : isAsciiDigit character = true) :
    isWhitespace character = false := by
  have other (mark : Char) (notDigit : isAsciiDigit mark = false) : (character == mark) = false :=
    beq_eq_false_iff_ne.mpr (isAsciiDigit_ne digit notDigit)
  rw [isWhitespace, other ' ' (by decide), other '\t' (by decide), other '\r' (by decide),
    other '\n' (by decide)]
  rfl

theorem isAsciiDigit_of_isWhitespace {character : Char} (blank : isWhitespace character = true) :
    isAsciiDigit character = false := by
  by_contra digit
  rw [isWhitespace_of_isAsciiDigit (by simpa using digit)] at blank
  contradiction

/-- A number token begins with a minus sign or a digit. -/
theorem number_first (lexeme : NumberLexeme) :
    ∃ first text, lexeme.text = first :: text ∧ (first = '-' ∨ isAsciiDigit first = true) := by
  obtain ⟨negative, whole, fraction, exponent, wholeDigits, canonical, fractionDigits⟩ := lexeme
  cases negative with
  | true => exact ⟨'-', _, rfl, .inl rfl⟩
  | false =>
    cases whole with
    | nil => exact absurd rfl wholeDigits.nonempty
    | cons first whole =>
      exact ⟨first, _, rfl, .inr (wholeDigits.digits first List.mem_cons_self)⟩

theorem value_first (value : Value) :
    ∃ first text, value.text = first :: text ∧ isWhitespace first = false ∧ first ≠ ']' := by
  match value with
  | .null => exact ⟨'n', _, by rw [Value.text], by decide, by decide⟩
  | .boolean true => exact ⟨'t', _, by rw [Value.text], by decide, by decide⟩
  | .boolean false => exact ⟨'f', _, by rw [Value.text], by decide, by decide⟩
  | .number lexeme =>
    obtain ⟨first, text, equal, start⟩ := number_first lexeme
    refine ⟨first, text, by rw [Value.text, equal], ?_⟩
    rcases start with rfl | digit
    · decide
    · exact ⟨isWhitespace_of_isAsciiDigit digit, isAsciiDigit_ne digit (by decide)⟩
  | .string items => exact ⟨'"', _, by rw [Value.text, stringText], by decide, by decide⟩
  | .emptyArray inside => exact ⟨'[', _, by rw [Value.text], by decide, by decide⟩
  | .array before elements => exact ⟨'[', _, by rw [Value.text], by decide, by decide⟩
  | .emptyObject inside => exact ⟨'\x7b', _, by rw [Value.text], by decide, by decide⟩
  | .object before members => exact ⟨'\x7b', _, by rw [Value.text], by decide, by decide⟩

theorem elements_first (elements : Elements) :
    ∃ first text, elements.text = first :: text ∧ isWhitespace first = false ∧ first ≠ ']' := by
  match elements with
  | .last value after =>
    obtain ⟨first, text, equal, start⟩ := value_first value
    exact ⟨first, _, by rw [Elements.text, equal, List.cons_append], start⟩
  | .more value after before rest =>
    obtain ⟨first, text, equal, start⟩ := value_first value
    exact ⟨first, _, by rw [Elements.text, equal, List.cons_append], start⟩

theorem members_first (members : Members) : ∃ text, members.text = '"' :: text := by
  match members with
  | .last name value after => exact ⟨_, by rw [Members.text, MemberName.text, stringText]; rfl⟩
  | .more name value after before rest =>
    exact ⟨_, by rw [Members.text, MemberName.text, stringText]; rfl⟩

namespace RawJsonScanner

theorem delimited_blank {character : Char} (blank : isWhitespace character = true) :
    isAsciiDigit character = false ∧ character ≠ '.' ∧ character ≠ 'e' ∧ character ≠ 'E' := by
  refine ⟨isAsciiDigit_of_isWhitespace blank, ?_, ?_, ?_⟩
  all_goals
    rintro rfl
    exact absurd blank (by decide)

theorem delimited_whitespace (blanks : Whitespace) {text : List Char} (delimited : Delimited text) :
    Delimited (blanks.text ++ text) := by
  obtain ⟨spaces, blank⟩ := blanks
  cases spaces with
  | nil => exact delimited
  | cons first spaces =>
    intro character member
    obtain rfl : first = character := by simpa using member
    exact delimited_blank (blank first List.mem_cons_self)

theorem delimited_cons {mark : Char} (text : List Char)
    (other : isAsciiDigit mark = false ∧ mark ≠ '.' ∧ mark ≠ 'e' ∧ mark ≠ 'E') :
    Delimited (mark :: text) := by
  intro character member
  obtain rfl : mark = character := by simpa using member
  exact other

/-! ## The steps of the scanner on a text that fits -/

theorem skipWhitespace_of_rest {cursor : Cursor} {blanks : Whitespace} {text : List Char}
    (equal : cursor.rest = blanks.text ++ text) (notBlank : NotBlank text) :
    cursor.skipWhitespace = { cursor with rest := text } := by
  rw [Cursor.skipWhitespace, equal, dropWhile_whitespace blanks notBlank]

theorem notBlank_cons {first : Char} {text : List Char} (visible : isWhitespace first = false) :
    NotBlank (first :: text) := by
  intro character member
  obtain rfl : first = character := by simpa using member
  exact visible

theorem consume_cons (cursor : Cursor) (first : Char) (text : List Char) :
    Cursor.consume { cursor with rest := first :: text } first =
      some { cursor with rest := text } :=
  consume_eq_some.mpr ⟨text, rfl, rfl⟩

theorem consume_other (cursor : Cursor) {first expected : Char} (text : List Char)
    (other : first ≠ expected) :
    Cursor.consume { cursor with rest := first :: text } expected = none :=
  consume_eq_none.mpr (by simpa using other)

/-- The first visible character closes a container, or else its entries are read from there. -/
theorem openContainer_eq_ok {close first visible : Char}
    {scanEntries : Nat → Cursor → Except Stop Cursor} {depth : Nat}
    {path : List RawJsonPathSegment} {cursor next : Cursor} {before : Whitespace} {text : List Char}
    (equal : cursor.rest = first :: (before.text ++ visible :: text))
    (isVisible : isWhitespace visible = false)
    (shallow : depth + 1 ≤ rawScanProfile.maxNestingDepth)
    (scanned : visible = close ∧ next = { cursor with rest := text } ∨ visible ≠ close ∧
      scanEntries (depth + 1) { cursor with rest := visible :: text } = .ok next) :
    openContainer close scanEntries depth path cursor = .ok next := by
  have opened : Cursor.skipWhitespace { cursor with rest := cursor.rest.tail } =
      { cursor with rest := visible :: text } := by
    rw [equal, List.tail_cons, skipWhitespace_of_rest rfl (notBlank_cons isVisible)]
  refine bind_eq_ok.mpr ⟨depth + 1,
    located_eq_ok.mpr (rawScanProfile.enterContainer_eq_ok.mpr ⟨shallow, rfl⟩), ?_⟩
  rcases scanned with ⟨rfl, rfl⟩ | ⟨other, scanned⟩
  · simp only [opened, consume_cons]
  · simp only [opened, consume_other _ _ other, scanned]

theorem closeOrContinue_close {close : Char} {path : List RawJsonPathSegment}
    {scanNext : Cursor → Except Stop Cursor} {cursor : Cursor} {after : Whitespace}
    {rest : List Char} (equal : cursor.rest = after.text ++ close :: rest)
    (visible : isWhitespace close = false) :
    closeOrContinue close path scanNext cursor = .ok { cursor with rest := rest } := by
  rw [closeOrContinue, skipWhitespace_of_rest equal (notBlank_cons visible), consume_cons]

theorem closeOrContinue_more {close first : Char} {path : List RawJsonPathSegment}
    {scanNext : Cursor → Except Stop Cursor} {cursor : Cursor} {after before : Whitespace}
    {text : List Char} (equal : cursor.rest = after.text ++ ',' :: (before.text ++ first :: text))
    (other : ',' ≠ close) (visible : isWhitespace first = false) :
    closeOrContinue close path scanNext cursor = scanNext { cursor with rest := first :: text } := by
  rw [closeOrContinue, skipWhitespace_of_rest equal (notBlank_cons (by decide)),
    consume_other _ _ other, consume_cons]
  simp only
  rw [skipWhitespace_of_rest rfl (notBlank_cons visible)]

/-! ## What a value begins with decides how it is read -/

section Dispatch

variable {stringLimit fuel depth : Nat} {path : List RawJsonPathSegment} {cursor : Cursor}
  {text : List Char}

theorem parseValue_brace (equal : cursor.rest = '\x7b' :: text) :
    parseValue stringLimit (fuel + 1) depth path cursor =
      parseObject stringLimit fuel depth path cursor := by
  rw [parseValue, equal]
  rfl

theorem parseValue_bracket (equal : cursor.rest = '[' :: text) :
    parseValue stringLimit (fuel + 1) depth path cursor =
      parseArray stringLimit fuel depth path cursor := by
  rw [parseValue, equal]
  rfl

theorem parseValue_quote (equal : cursor.rest = '"' :: text) :
    parseValue stringLimit (fuel + 1) depth path cursor =
      (located path (parseString stringLimit false cursor)).map Prod.snd := by
  rw [parseValue, equal]
  rfl

theorem parseValue_literal {literal : List Char}
    (known : literal ∈ [['t', 'r', 'u', 'e'], ['f', 'a', 'l', 's', 'e'], ['n', 'u', 'l', 'l']])
    (equal : cursor.rest = literal ++ text) :
    parseValue stringLimit (fuel + 1) depth path cursor =
      located path (parseLiteral literal cursor) := by
  rw [parseValue, equal]
  simp only [List.mem_cons, List.not_mem_nil, or_false] at known
  rcases known with rfl | rfl | rfl <;> rfl

theorem parseValue_number {first : Char} (equal : cursor.rest = first :: text)
    (start : first = '-' ∨ isAsciiDigit first = true) :
    parseValue stringLimit (fuel + 1) depth path cursor = located path (parseNumber cursor) := by
  have other (mark : Char) (notStart : mark ≠ '-' ∧ isAsciiDigit mark = false) : ¬first = mark := by
    rintro rfl
    simp_all
  rw [parseValue, equal]
  simp only [other '\x7b' (by decide), other '[' (by decide), other '"' (by decide),
    other 't' (by decide), other 'f' (by decide), other 'n' (by decide), start, if_false, if_true]

end Dispatch

theorem charge_entry {stringLimit depth : Nat} {cursor : Cursor}
    (fits : entry.Fits stringLimit depth cursor) (path : List RawJsonPathSegment) :
    located path (chargeContainerEntry cursor) = .ok (entry.after cursor cursor.rest) :=
  located_eq_ok.mpr (rawScanProfile.chargeContainerEntry_eq_ok.mpr ⟨(fits_entry.mp fits).2, rfl⟩)

/-- One turn of the loop over the elements of an array. -/
theorem parseElements_turn {stringLimit fuel depth index : Nat} {path : List RawJsonPathSegment}
    {cursor : Cursor} (fits : entry.Fits stringLimit depth cursor) :
    parseElements stringLimit (fuel + 1) depth path index cursor =
      (parseValue stringLimit fuel depth (path ++ [.index index])
        (entry.after cursor cursor.rest)).bind
          (closeOrContinue ']' path (parseElements stringLimit fuel depth path (index + 1))) := by
  rw [parseElements, charge_entry fits]
  rfl

/-- One turn of the loop over the members of an object. -/
theorem parseMembers_turn {stringLimit fuel depth : Nat} {path : List RawJsonPathSegment}
    {seen : List String} {cursor : Cursor} {name : MemberName} {characters : List Char}
    {first : Char} {valueText : List Char}
    (fits : (entry.append (text name.items)).Fits stringLimit depth cursor)
    (decoded : decodeItems name.items = some characters) (new : String.ofList characters ∉ seen)
    (equal : cursor.rest = name.text ++ first :: valueText) (visible : isWhitespace first = false) :
    parseMembers stringLimit (fuel + 1) depth path seen cursor =
      (parseValue stringLimit fuel depth (path ++ [.member (String.ofList characters)])
        ((entry.append (text name.items)).after cursor (first :: valueText))).bind
          (closeOrContinue '\x7d' path
            (parseMembers stringLimit fuel depth path (String.ofList characters :: seen))) := by
  obtain ⟨entryFits, nameFits⟩ := (fits_append cursor.rest).mp fits
  obtain ⟨nothingFits, found, foundDecoded, bounded⟩ := fits_text.mp nameFits
  obtain rfl : characters = found := Option.some.inj (decoded.symm.trans foundDecoded)
  have named : cursor.rest = stringText name.items ++
      (name.after.text ++ ':' :: (name.before.text ++ first :: valueText)) := by
    simpa [MemberName.text] using equal
  have nameRead : located path (parseString stringLimit true (entry.after cursor cursor.rest)) =
      .ok (some (String.ofList characters), Cursor.afterString (entry.after cursor cursor.rest)
        characters (name.after.text ++ ':' :: (name.before.text ++ first :: valueText))) :=
    located_eq_ok.mpr ((rawScanProfile.parseString_eq_ok nothingFits.stringBytes).mpr
      ⟨name.items, characters, _, decoded, named, bounded, rfl, rfl⟩)
  rw [parseMembers, charge_entry entryFits]
  simp only [Except.bind, nameRead, new, if_false, parseMemberValue]
  rw [skipWhitespace_of_rest rfl (notBlank_cons (by decide)), consume_cons]
  simp only
  rw [skipWhitespace_of_rest rfl (notBlank_cons visible), after_append _ _ _ cursor.rest,
    after_text decoded]
  rfl

mutual

/-- A value that fits is read to its end. -/
theorem parseValue_complete (value : Value) {stringLimit fuel depth : Nat}
    {path : List RawJsonPathSegment} {cursor : Cursor} {rest : List Char}
    (enough : value.text.length ≤ fuel) (equal : cursor.rest = value.text ++ rest)
    (delimited : Delimited rest) (fits : (valueContent value).Fits stringLimit depth cursor) :
    parseValue stringLimit fuel depth path cursor =
      .ok ((valueContent value).after cursor rest) := by
  cases fuel with
  | zero =>
    obtain ⟨first, text, start, -⟩ := value_first value
    rw [start] at enough
    exact absurd enough (Nat.not_succ_le_zero _)
  | succ fuel =>
    match value with
    | .null | .boolean true | .boolean false =>
      rw [Value.text] at equal
      rw [parseValue_literal (by decide) equal]
      exact located_eq_ok.mpr (rawScanProfile.parseLiteral_eq_ok.mpr ⟨rest, equal, rfl⟩)
    | .number lexeme =>
      rw [Value.text] at equal
      obtain ⟨first, text, begins, start⟩ := number_first lexeme
      obtain ⟨-, tokenFits, bounded⟩ := fits_token.mp fits
      rw [parseValue_number (by rw [equal, begins]; rfl) start]
      exact located_eq_ok.mpr (parseNumber_complete equal delimited tokenFits bounded)
    | .string items =>
      rw [Value.text] at equal
      obtain ⟨nothingFits, characters, decoded, bounded⟩ := fits_text.mp fits
      rw [parseValue_quote (by rw [equal, stringText]; rfl)]
      refine map_eq_ok.mpr ⟨(none, cursor.afterString characters rest), ?_, ?_⟩
      · exact located_eq_ok.mpr ((rawScanProfile.parseString_eq_ok nothingFits.stringBytes).mpr
          ⟨items, characters, rest, decoded, equal, bounded, rfl, rfl⟩)
      · exact (after_text decoded cursor rest).symm
    | .emptyArray inside =>
      have opened : cursor.rest = '[' :: (inside.text ++ ']' :: rest) := by
        simpa [Value.text] using equal
      have inner : nothing.inContainer.Fits stringLimit depth cursor := fits
      rw [parseValue_bracket opened]
      exact openContainer_eq_ok opened (by decide) (fits_inContainer.mp inner).nesting
        (.inl ⟨rfl, rfl⟩)
    | .array before elements =>
      obtain ⟨first, text, begins, visible, other⟩ := elements_first elements
      have inner : (elementsContent elements).inContainer.Fits stringLimit depth cursor := fits
      have elementsFit := fits_inContainer.mp inner
      have opened : cursor.rest = '[' :: (before.text ++ first :: (text ++ rest)) := by
        simpa [Value.text, begins] using equal
      rw [parseValue_bracket opened]
      refine openContainer_eq_ok opened visible (Nat.le_of_add_right_le elementsFit.nesting)
        (.inr ⟨other, ?_⟩)
      refine parseElements_complete elements ?_ (by rw [begins]; rfl) (elementsFit.move _)
      rw [Value.text, List.length_cons, List.length_append] at enough
      omega
    | .emptyObject inside =>
      have opened : cursor.rest = '\x7b' :: (inside.text ++ '\x7d' :: rest) := by
        simpa [Value.text] using equal
      have inner : nothing.inContainer.Fits stringLimit depth cursor := fits
      rw [parseValue_brace opened]
      exact openContainer_eq_ok opened (by decide) (fits_inContainer.mp inner).nesting
        (.inl ⟨rfl, rfl⟩)
    | .object before members =>
      obtain ⟨text, begins⟩ := members_first members
      have inner : ((membersContent members).inObject members.names).Fits stringLimit depth cursor :=
        fits
      obtain ⟨newNames, membersFit⟩ := fits_inObject.mp inner
      have opened : cursor.rest = '\x7b' :: (before.text ++ '"' :: (text ++ rest)) := by
        simpa [Value.text, begins] using equal
      rw [parseValue_brace opened]
      refine openContainer_eq_ok opened (by decide) (Nat.le_of_add_right_le membersFit.nesting)
        (.inr ⟨by decide, ?_⟩)
      refine parseMembers_complete members ?_ (by rw [begins]; rfl) newNames (membersFit.move _)
      rw [Value.text, List.length_cons, List.length_append] at enough
      omega

/-- The elements of an array that fit are read to its end. -/
theorem parseElements_complete (elements : Elements) {stringLimit fuel depth index : Nat}
    {path : List RawJsonPathSegment} {cursor : Cursor} {rest : List Char}
    (enough : elements.text.length ≤ fuel) (equal : cursor.rest = elements.text ++ rest)
    (fits : (elementsContent elements).Fits stringLimit depth cursor) :
    parseElements stringLimit fuel depth path index cursor =
      .ok ((elementsContent elements).after cursor rest) := by
  cases fuel with
  | zero =>
    obtain ⟨first, text, start, -⟩ := elements_first elements
    rw [start] at enough
    exact absurd enough (Nat.not_succ_le_zero _)
  | succ fuel =>
    match elements with
    | .last value after =>
      rw [elementsContent_last] at fits ⊢
      obtain ⟨entryFits, valueFits⟩ := (fits_append cursor.rest).mp fits
      have valueEqual : cursor.rest = value.text ++ (after.text ++ ']' :: rest) := by
        simpa [Elements.text] using equal
      rw [parseElements_turn entryFits]
      refine bind_eq_ok.mpr ⟨_, parseValue_complete value ?_ valueEqual
        (delimited_whitespace after (delimited_cons rest (by decide))) valueFits, ?_⟩
      · simp only [Elements.text, List.length_append, List.length_singleton] at enough
        omega
      · rw [closeOrContinue_close rfl (by decide), after_append _ _ _ cursor.rest]
        rfl
    | .more value after before elements =>
      obtain ⟨first, text, begins, visible, -⟩ := elements_first elements
      rw [elementsContent_more] at fits ⊢
      obtain ⟨elementFits, elementsFit⟩ := (fits_append (first :: (text ++ rest))).mp fits
      obtain ⟨entryFits, valueFits⟩ := (fits_append cursor.rest).mp elementFits
      have valueEqual : cursor.rest =
          value.text ++ (after.text ++ ',' :: (before.text ++ first :: (text ++ rest))) := by
        simpa [Elements.text, begins] using equal
      simp only [Elements.text, List.length_append, List.length_cons] at enough
      rw [parseElements_turn entryFits]
      refine bind_eq_ok.mpr ⟨_, parseValue_complete value (by omega) valueEqual
        (delimited_whitespace after (delimited_cons _ (by decide))) valueFits, ?_⟩
      rw [closeOrContinue_more rfl (by decide) visible]
      change parseElements stringLimit fuel depth path (index + 1)
        ((valueContent value).after (entry.after cursor cursor.rest) (first :: (text ++ rest))) = _
      rw [← after_append, after_append _ (elementsContent elements)]
      refine parseElements_complete elements ?_ (by rw [begins]; rfl) elementsFit
      omega

/-- The members of an object that fit are read to its end. -/
theorem parseMembers_complete (members : Members) {stringLimit fuel depth : Nat}
    {path : List RawJsonPathSegment} {seen : List String} {cursor : Cursor} {rest : List Char}
    (enough : members.text.length ≤ fuel) (equal : cursor.rest = members.text ++ rest)
    (newNames : NewNames seen members.names)
    (fits : (membersContent members).Fits stringLimit depth cursor) :
    parseMembers stringLimit fuel depth path seen cursor =
      .ok ((membersContent members).after cursor rest) := by
  cases fuel with
  | zero =>
    obtain ⟨text, start⟩ := members_first members
    rw [start] at enough
    exact absurd enough (Nat.not_succ_le_zero _)
  | succ fuel =>
    match members with
    | .last name value after =>
      obtain ⟨first, text, begins, visible, -⟩ := value_first value
      rw [membersContent_last] at fits ⊢
      obtain ⟨nameFits, valueFits⟩ :=
        (fits_append (first :: (text ++ (after.text ++ '\x7d' :: rest)))).mp fits
      obtain ⟨-, characters, decoded, -⟩ := fits_text.mp ((fits_append cursor.rest).mp nameFits).2
      have new := newNames
      rw [Members.names, newNames_cons decoded, newNames_nil, List.nodup_cons] at new
      have nameEqual : cursor.rest =
          name.text ++ first :: (text ++ (after.text ++ '\x7d' :: rest)) := by
        simpa [Members.text, begins] using equal
      simp only [Members.text, List.length_append, List.length_singleton] at enough
      rw [parseMembers_turn nameFits decoded new.1 nameEqual visible]
      refine bind_eq_ok.mpr ⟨_, parseValue_complete value (by omega) (by rw [begins]; rfl)
        (delimited_whitespace after (delimited_cons rest (by decide))) valueFits, ?_⟩
      rw [closeOrContinue_close rfl (by decide), after_append _ (valueContent value)]
      rfl
    | .more name value after before members =>
      obtain ⟨first, text, begins, visible, -⟩ := value_first value
      obtain ⟨nextText, nextBegins⟩ := members_first members
      rw [membersContent_more] at fits ⊢
      obtain ⟨memberFits, membersFit⟩ := (fits_append ('"' :: (nextText ++ rest))).mp fits
      obtain ⟨nameFits, valueFits⟩ := (fits_append (first :: (text ++ (after.text ++
        ',' :: (before.text ++ '"' :: (nextText ++ rest)))))).mp memberFits
      obtain ⟨-, characters, decoded, -⟩ := fits_text.mp ((fits_append cursor.rest).mp nameFits).2
      rw [Members.names, newNames_cons decoded] at newNames
      have new : String.ofList characters ∉ seen := by
        have distinct : (String.ofList characters :: seen).Nodup :=
          newNames_nil.mp (newNames.sublist (by simp))
        exact (List.nodup_cons.mp distinct).1
      have nameEqual : cursor.rest = name.text ++ first :: (text ++ (after.text ++
          ',' :: (before.text ++ '"' :: (nextText ++ rest)))) := by
        simpa [Members.text, begins, nextBegins] using equal
      simp only [Members.text, List.length_append, List.length_cons] at enough
      rw [parseMembers_turn nameFits decoded new nameEqual visible]
      refine bind_eq_ok.mpr ⟨_, parseValue_complete value (by omega) (by rw [begins]; rfl)
        (delimited_whitespace after (delimited_cons _ (by decide))) valueFits, ?_⟩
      rw [closeOrContinue_more rfl (by decide) (by decide)]
      change parseMembers stringLimit fuel depth path _
        ((valueContent value).after ((entry.append (Content.text name.items)).after cursor _)
          ('"' :: (nextText ++ rest))) = _
      rw [← after_append, after_append _ (membersContent members)]
      refine parseMembers_complete members ?_ (by rw [nextBegins]; rfl) newNames membersFit
      omega

end

end RawJsonScanner

end FastMcp.RawAdmission
