import FastMcp.RawJsonLanguage

/-! # Whatever the raw JSON scanner reads is JSON

A successful scan has read the text of a syntax tree whose content fits the
budgets, and has charged exactly that content. The induction is on the fuel of
the scanner; each scanning function has one step.
-/

namespace FastMcp.RawAdmission

open JsonGrammar JsonNumbers Outcomes Content

namespace RawJsonScanner

variable {path : List RawJsonPathSegment} {close : Char} {depth : Nat} {cursor : Cursor}

theorem located_eq_ok {Result : Type} {result : Except RawJsonAdmissionError Result}
    {value : Result} : located path result = .ok value ↔ result = .ok value :=
  mapError_eq_ok

variable {scanEntries : Nat → Cursor → Except Stop Cursor} {next : Cursor}
  {scanNext : Cursor → Except Stop Cursor} {seen : List String}

theorem openContainer_sound
    (opened : openContainer close scanEntries depth path cursor = .ok next) :
    depth + 1 ≤ rawScanProfile.maxNestingDepth ∧
      ((∃ (inside : Whitespace) (rest : List Char),
          cursor.rest.tail = inside.text ++ close :: rest ∧ next = { cursor with rest := rest }) ∨
        ∃ (before : Whitespace) (body : List Char), cursor.rest.tail = before.text ++ body ∧
          scanEntries (depth + 1) { cursor with rest := body } = .ok next) := by
  obtain ⟨nested, entered, continued⟩ := bind_eq_ok.mp opened
  obtain ⟨shallow, rfl⟩ := rawScanProfile.enterContainer_eq_ok.mp (located_eq_ok.mp entered)
  refine ⟨shallow, ?_⟩
  simp only at continued
  split at continued
  · rename_i closed consumed
    obtain ⟨inside, rest, equal, rfl⟩ := consume_skipWhitespace consumed
    obtain rfl := Except.ok.inj continued
    exact .inl ⟨inside, rest, equal, rfl⟩
  · obtain ⟨before, body, equal, skipped⟩ :=
      skipWhitespace_eq { cursor with rest := cursor.rest.tail }
    rw [skipped] at continued
    exact .inr ⟨before, body, equal, continued⟩

theorem closeOrContinue_sound (closed : closeOrContinue close path scanNext cursor = .ok next) :
    (∃ (after : Whitespace) (rest : List Char),
        cursor.rest = after.text ++ close :: rest ∧ next = { cursor with rest := rest }) ∨
      ∃ (after before : Whitespace) (body : List Char),
        cursor.rest = after.text ++ ',' :: (before.text ++ body) ∧
          scanNext { cursor with rest := body } = .ok next := by
  unfold closeOrContinue at closed
  split at closed
  · rename_i ended consumed
    obtain ⟨after, rest, equal, rfl⟩ := consume_skipWhitespace consumed
    obtain rfl := Except.ok.inj closed
    exact .inl ⟨after, rest, equal, rfl⟩
  · split at closed
    · simp at closed
    · rename_i separated consumed
      obtain ⟨after, rest, equal, rfl⟩ := consume_skipWhitespace consumed
      obtain ⟨before, body, restEqual, skipped⟩ := skipWhitespace_eq { cursor with rest := rest }
      rw [skipped] at closed
      refine .inr ⟨after, before, body, ?_, closed⟩
      rw [← restEqual, equal]

section Sound

variable (stringLimit fuel : Nat)

/-- A scan of one value reads a value and charges its content. -/
def SoundValue : Prop :=
  ∀ depth path cursor next, nothing.Fits stringLimit depth cursor →
    parseValue stringLimit fuel depth path cursor = .ok next →
      ∃ (value : Value) (rest : List Char), cursor.rest = value.text ++ rest ∧
        (valueContent value).Fits stringLimit depth cursor ∧
        next = (valueContent value).after cursor rest

/-- The loop over the elements of an array reads all of them. -/
def SoundElements : Prop :=
  ∀ depth path index cursor next, nothing.Fits stringLimit depth cursor →
    parseElements stringLimit fuel depth path index cursor = .ok next →
      ∃ (elements : Elements) (rest : List Char), cursor.rest = elements.text ++ rest ∧
        (elementsContent elements).Fits stringLimit depth cursor ∧
        next = (elementsContent elements).after cursor rest

/-- Member names that differ from each other and from those seen before. -/
def NewNames (seen : List String) (names : List (List StringItem)) : Prop :=
  (seen.map (fun name => some name.toList) ++ names.map decodeItems).Nodup

/-- The loop over the members of an object reads all of them. -/
def SoundMembers : Prop :=
  ∀ depth path seen cursor next, seen.Nodup → nothing.Fits stringLimit depth cursor →
    parseMembers stringLimit fuel depth path seen cursor = .ok next →
      ∃ (members : Members) (rest : List Char), cursor.rest = members.text ++ rest ∧
        (membersContent members).Fits stringLimit depth cursor ∧
        NewNames seen members.names ∧
        next = (membersContent members).after cursor rest

end Sound

theorem newNames_cons {items : List StringItem} {characters : List Char}
    {names : List (List StringItem)} (decoded : decodeItems items = some characters) :
    NewNames seen (items :: names) ↔ NewNames (String.ofList characters :: seen) names := by
  simp only [NewNames, List.map_cons, List.cons_append, decoded, String.toList_ofList,
    List.nodup_middle]

theorem newNames_nil : NewNames seen [] ↔ seen.Nodup := by
  rw [NewNames, List.map_nil, List.append_nil]
  refine List.nodup_map_iff fun first second equal => ?_
  exact String.toList_injective (Option.some.inj equal)

variable {stringLimit fuel : Nat}

theorem chargeContainerEntry_sound {charged : Cursor} (fits : nothing.Fits stringLimit depth cursor)
    (charging : located path (chargeContainerEntry cursor) = .ok charged) :
    entry.Fits stringLimit depth cursor ∧ charged = entry.after cursor cursor.rest := by
  obtain ⟨room, rfl⟩ := rawScanProfile.chargeContainerEntry_eq_ok.mp (located_eq_ok.mp charging)
  exact ⟨fits_entry.mpr ⟨fits, room⟩, rfl⟩

/-- The name of a member, charged after its entry. -/
theorem parseString_name_sound {afterName : Cursor} {found : Option String}
    (fits : entry.Fits stringLimit depth cursor)
    (scanned : located path (parseString stringLimit true (entry.after cursor cursor.rest)) =
      .ok (found, afterName)) :
    ∃ items characters rest, decodeItems items = some characters ∧
      cursor.rest = stringText items ++ rest ∧
      (entry.append (text items)).Fits stringLimit depth cursor ∧
      found = some (String.ofList characters) ∧
      afterName = (entry.append (text items)).after cursor rest := by
  have entered := fits.nothing_after cursor.rest
  obtain ⟨items, characters, rest, decoded, equal, bounded, rfl, rfl⟩ :=
    (rawScanProfile.parseString_eq_ok entered.stringBytes).mp (located_eq_ok.mp scanned)
  refine ⟨items, characters, rest, decoded, equal, ?_, rfl, ?_⟩
  · exact (fits_append cursor.rest).mpr
      ⟨fits, fits_text.mpr ⟨entered, characters, decoded, bounded⟩⟩
  · rw [after_append _ _ _ cursor.rest, after_text decoded]

/-- The colon after a name, with the blanks around it. -/
theorem consume_colon_sound {content : Content} {afterColon : Cursor} {rest : List Char}
    (consumed : (content.after cursor rest).skipWhitespace.consume ':' = some afterColon) :
    ∃ (after before : Whitespace) (valueText : List Char),
      rest = after.text ++ ':' :: (before.text ++ valueText) ∧
        afterColon.skipWhitespace = content.after cursor valueText := by
  obtain ⟨after, afterMark, markEqual, rfl⟩ := consume_skipWhitespace consumed
  obtain ⟨before, valueText, beforeEqual, skipped⟩ :=
    skipWhitespace_eq { content.after cursor rest with rest := afterMark }
  have restText : rest = after.text ++ ':' :: afterMark := markEqual
  have markText : afterMark = before.text ++ valueText := beforeEqual
  exact ⟨after, before, valueText, by rw [restText, markText], skipped⟩

theorem soundElements_step (soundValue : SoundValue stringLimit fuel)
    (soundElements : SoundElements stringLimit fuel) : SoundElements stringLimit (fuel + 1) := by
  intro depth path index cursor next fits scanned
  rw [parseElements] at scanned
  obtain ⟨charged, charging, scanned⟩ := bind_eq_ok.mp scanned
  obtain ⟨entryFits, rfl⟩ := chargeContainerEntry_sound fits charging
  obtain ⟨afterValue, valueScanned, scanned⟩ := bind_eq_ok.mp scanned
  obtain ⟨value, rest, equal, valueFits, rfl⟩ := soundValue _ _ (entry.after cursor cursor.rest) _
    (entryFits.nothing_after _) valueScanned
  have elementFits := (fits_append cursor.rest).mpr ⟨entryFits, valueFits⟩
  have cursorEqual : cursor.rest = value.text ++ rest := equal
  rcases closeOrContinue_sound scanned with
    ⟨after, tail, restEqual, rfl⟩ | ⟨after, before, body, restEqual, continued⟩
  · have ended : rest = after.text ++ ']' :: tail := restEqual
    refine ⟨.last value after, tail, ?_, ?_, ?_⟩
    · rw [cursorEqual, ended]
      simp [Elements.text]
    · rw [elementsContent_last]
      exact elementFits
    · rw [elementsContent_last]
      exact (after_append _ _ _ cursor.rest _).symm
  · have separated : rest = after.text ++ ',' :: (before.text ++ body) := restEqual
    change parseElements stringLimit fuel depth path (index + 1)
      ((valueContent value).after (entry.after cursor cursor.rest) body) = .ok next at continued
    rw [← after_append] at continued
    obtain ⟨elements, tail, bodyEqual, elementsFit, rfl⟩ := soundElements _ _ _ _ _
      (elementFits.nothing_after body) continued
    have bodyText : body = elements.text ++ tail := bodyEqual
    refine ⟨.more value after before elements, tail, ?_, ?_, ?_⟩
    · rw [cursorEqual, separated, bodyText]
      simp [Elements.text]
    · rw [elementsContent_more]
      exact (fits_append body).mpr ⟨elementFits, elementsFit⟩
    · rw [elementsContent_more]
      exact (after_append _ _ _ body _).symm

theorem soundMembers_step (soundValue : SoundValue stringLimit fuel)
    (soundMembers : SoundMembers stringLimit fuel) : SoundMembers stringLimit (fuel + 1) := by
  intro depth path seen cursor next distinct fits scanned
  rw [parseMembers] at scanned
  obtain ⟨charged, charging, scanned⟩ := bind_eq_ok.mp scanned
  obtain ⟨entryFits, rfl⟩ := chargeContainerEntry_sound fits charging
  obtain ⟨⟨found, afterName⟩, nameScanned, scanned⟩ := bind_eq_ok.mp scanned
  obtain ⟨items, characters, rest, decoded, cursorEqual, nameFits, rfl, rfl⟩ :=
    parseString_name_sound entryFits nameScanned
  simp only at scanned
  split at scanned
  · simp at scanned
  · rename_i new
    unfold parseMemberValue at scanned
    split at scanned
    · simp at scanned
    · rename_i afterColon consumed
      obtain ⟨blanks, before, valueText, colon, skipped⟩ := consume_colon_sound consumed
      rw [skipped] at scanned
      obtain ⟨afterValue, valueScanned, scanned⟩ := bind_eq_ok.mp scanned
      obtain ⟨value, afterText, valueEqual, valueFits, rfl⟩ := soundValue _ _ _ _
        (nameFits.nothing_after valueText) valueScanned
      have valueRead : valueText = value.text ++ afterText := valueEqual
      have memberFits := (fits_append valueText).mpr ⟨nameFits, valueFits⟩
      rcases closeOrContinue_sound scanned with
        ⟨after, tail, restEqual, rfl⟩ | ⟨after, next, body, restEqual, continued⟩
      · have ended : afterText = after.text ++ '\x7d' :: tail := restEqual
        refine ⟨.last ⟨items, blanks, before⟩ value after, tail, ?_, ?_, ?_, ?_⟩
        · rw [cursorEqual, colon, valueRead, ended]
          simp [Members.text, MemberName.text]
        · rw [membersContent_last]
          exact memberFits
        · rw [Members.names, newNames_cons decoded, newNames_nil]
          exact List.nodup_cons.mpr ⟨new, distinct⟩
        · rw [membersContent_last]
          exact (after_append _ _ _ valueText _).symm
      · have separated : afterText = after.text ++ ',' :: (next.text ++ body) := restEqual
        change parseMembers stringLimit fuel depth path _
          ((valueContent value).after ((entry.append (text items)).after cursor valueText) body) =
            _ at continued
        rw [← after_append] at continued
        obtain ⟨members, tail, bodyEqual, membersFit, newNames, rfl⟩ := soundMembers _ _ _ _ _
          (List.nodup_cons.mpr ⟨new, distinct⟩) (memberFits.nothing_after body) continued
        have bodyText : body = members.text ++ tail := bodyEqual
        refine ⟨.more ⟨items, blanks, before⟩ value after next members, tail, ?_, ?_, ?_, ?_⟩
        · rw [cursorEqual, colon, valueRead, separated, bodyText]
          simp [Members.text, MemberName.text]
        · rw [membersContent_more]
          exact (fits_append body).mpr ⟨memberFits, membersFit⟩
        · rw [Members.names, newNames_cons decoded]
          exact newNames
        · rw [membersContent_more]
          exact (after_append _ _ _ body _).symm

theorem soundValue_step (soundElements : SoundElements stringLimit fuel)
    (soundMembers : SoundMembers stringLimit fuel) : SoundValue stringLimit (fuel + 1) := by
  intro depth path cursor next fits scanned
  rw [parseValue] at scanned
  split at scanned
  · simp at scanned
  · rename_i first text startEqual
    split at scanned
    · rename_i brace
      subst brace
      obtain ⟨shallow, ended | continued⟩ := openContainer_sound scanned
      · obtain ⟨inside, rest, tailEqual, rfl⟩ := ended
        refine ⟨.emptyObject inside, rest, ?_, fits_inContainer.mpr (fits.entered shallow), rfl⟩
        rw [startEqual, List.tail_cons] at tailEqual
        rw [startEqual, tailEqual]
        simp [Value.text]
      · obtain ⟨before, body, tailEqual, continued⟩ := continued
        obtain ⟨members, rest, bodyEqual, membersFit, newNames, rfl⟩ := soundMembers _ _ _ _ _
          List.nodup_nil ((fits.entered shallow).move body) continued
        refine ⟨.object before members, rest, ?_, ?_, rfl⟩
        · have bodyText : body = members.text ++ rest := bodyEqual
          rw [startEqual, List.tail_cons] at tailEqual
          rw [startEqual, tailEqual, bodyText]
          simp [Value.text]
        · exact fits_inObject.mpr ⟨newNames, membersFit.move cursor.rest⟩
    split at scanned
    · rename_i bracket
      subst bracket
      obtain ⟨shallow, ended | continued⟩ := openContainer_sound scanned
      · obtain ⟨inside, rest, tailEqual, rfl⟩ := ended
        refine ⟨.emptyArray inside, rest, ?_, fits_inContainer.mpr (fits.entered shallow), rfl⟩
        rw [startEqual, List.tail_cons] at tailEqual
        rw [startEqual, tailEqual]
        simp [Value.text]
      · obtain ⟨before, body, tailEqual, continued⟩ := continued
        obtain ⟨elements, rest, bodyEqual, elementsFit, rfl⟩ := soundElements _ _ _ _ _
          ((fits.entered shallow).move body) continued
        refine ⟨.array before elements, rest, ?_, ?_, rfl⟩
        · have bodyText : body = elements.text ++ rest := bodyEqual
          rw [startEqual, List.tail_cons] at tailEqual
          rw [startEqual, tailEqual, bodyText]
          simp [Value.text]
        · exact fits_inContainer.mpr (elementsFit.move cursor.rest)
    split at scanned
    · obtain ⟨⟨found, afterString⟩, stringScanned, rfl⟩ := map_eq_ok.mp scanned
      obtain ⟨items, characters, rest, decoded, equal, bounded, -, rfl⟩ :=
        (rawScanProfile.parseString_eq_ok fits.stringBytes).mp (located_eq_ok.mp stringScanned)
      refine ⟨.string items, rest, equal, fits_text.mpr ⟨fits, characters, decoded, bounded⟩, ?_⟩
      exact (after_text decoded cursor rest).symm
    split at scanned
    · obtain ⟨rest, equal, rfl⟩ := rawScanProfile.parseLiteral_eq_ok.mp (located_eq_ok.mp scanned)
      exact ⟨.boolean true, rest, equal, fits, rfl⟩
    split at scanned
    · obtain ⟨rest, equal, rfl⟩ := rawScanProfile.parseLiteral_eq_ok.mp (located_eq_ok.mp scanned)
      exact ⟨.boolean false, rest, equal, fits, rfl⟩
    split at scanned
    · obtain ⟨rest, equal, rfl⟩ := rawScanProfile.parseLiteral_eq_ok.mp (located_eq_ok.mp scanned)
      exact ⟨.null, rest, equal, fits, rfl⟩
    split at scanned
    · obtain ⟨lexeme, rest, equal, tokenFits, bounded, rfl⟩ :=
        parseNumber_sound (located_eq_ok.mp scanned)
      exact ⟨.number lexeme, rest, equal, fits_token.mpr ⟨fits, tokenFits, bounded⟩, rfl⟩
    · simp at scanned

/-- Every scan that succeeds has read the text of a syntax tree that fits. -/
theorem sound (stringLimit fuel : Nat) :
    SoundValue stringLimit fuel ∧ SoundElements stringLimit fuel ∧
      SoundMembers stringLimit fuel := by
  induction fuel with
  | zero =>
    refine ⟨?_, ?_, ?_⟩
    · intro depth path cursor next fits scanned
      simp [parseValue] at scanned
    · intro depth path index cursor next fits scanned
      simp [parseElements] at scanned
    · intro depth path seen cursor next distinct fits scanned
      simp [parseMembers] at scanned
  | succ fuel ih =>
    obtain ⟨value, elements, members⟩ := ih
    exact ⟨soundValue_step elements members, soundElements_step value elements,
      soundMembers_step value members⟩

/-! ## Fuel

Every value and every entry consumes a character before the next one is
scanned, so a fuel of twice the length of the text is never used up: more of
it does not change the result, whether it is a success or an error.
-/

theorem closeOrContinue_congr {other : Cursor → Except Stop Cursor}
    (same : ∀ body : List Char, body.length < cursor.rest.length →
      scanNext { cursor with rest := body } = other { cursor with rest := body }) :
    closeOrContinue close path scanNext cursor = closeOrContinue close path other cursor := by
  unfold closeOrContinue
  split
  · rfl
  · split
    · rfl
    · rename_i separated consumed
      obtain ⟨blanks, rest, equal, rfl⟩ := consume_skipWhitespace consumed
      obtain ⟨before, body, restEqual, skipped⟩ := skipWhitespace_eq { cursor with rest := rest }
      have restText : rest = before.text ++ body := restEqual
      rw [skipped]
      refine same body ?_
      rw [equal, restText]
      simp only [List.length_append, List.length_cons]
      omega

theorem openContainer_congr {other : Nat → Cursor → Except Stop Cursor}
    (nonempty : cursor.rest ≠ [])
    (same : depth + 1 ≤ rawScanProfile.maxNestingDepth → ∀ body : List Char,
      body.length < cursor.rest.length →
      scanEntries (depth + 1) { cursor with rest := body } =
        other (depth + 1) { cursor with rest := body }) :
    openContainer close scanEntries depth path cursor =
      openContainer close other depth path cursor := by
  refine bind_congr_ok fun nested entered => ?_
  obtain ⟨shallow, rfl⟩ := rawScanProfile.enterContainer_eq_ok.mp (located_eq_ok.mp entered)
  obtain ⟨before, body, tailEqual, skipped⟩ :=
    skipWhitespace_eq { cursor with rest := cursor.rest.tail }
  have tailText : cursor.rest.tail = before.text ++ body := tailEqual
  simp only
  split
  · rfl
  · rw [skipped]
    refine same shallow body ?_
    have positive := List.length_pos_of_ne_nil nonempty
    have lengths := congrArg List.length tailText
    rw [List.length_tail, List.length_append] at lengths
    omega

section Fuel

variable (stringLimit fuel : Nat)

def EnoughForValue : Prop :=
  ∀ depth path cursor, nothing.Fits stringLimit depth cursor → 2 * cursor.rest.length < fuel →
    parseValue stringLimit (fuel + 1) depth path cursor =
      parseValue stringLimit fuel depth path cursor

def EnoughForElements : Prop :=
  ∀ depth path index cursor, nothing.Fits stringLimit depth cursor →
    2 * cursor.rest.length + 1 < fuel →
    parseElements stringLimit (fuel + 1) depth path index cursor =
      parseElements stringLimit fuel depth path index cursor

def EnoughForMembers : Prop :=
  ∀ depth path seen cursor, nothing.Fits stringLimit depth cursor →
    2 * cursor.rest.length + 1 < fuel →
    parseMembers stringLimit (fuel + 1) depth path seen cursor =
      parseMembers stringLimit fuel depth path seen cursor

end Fuel

theorem enoughForElements_step (enoughValue : EnoughForValue stringLimit fuel)
    (enoughElements : EnoughForElements stringLimit fuel) :
    EnoughForElements stringLimit (fuel + 1) := by
  intro depth path index cursor fits enough
  rw [parseElements, parseElements]
  refine bind_congr_ok fun charged charging => ?_
  obtain ⟨entryFits, rfl⟩ := chargeContainerEntry_sound fits charging
  rw [enoughValue _ _ (entry.after cursor cursor.rest) (entryFits.nothing_after _)
    (by simp only [Content.after]; omega)]
  refine bind_congr_ok fun afterValue valueScanned => closeOrContinue_congr fun body shorter => ?_
  obtain ⟨value, rest, equal, valueFits, rfl⟩ := (sound stringLimit fuel).1 _ _
    (entry.after cursor cursor.rest) _ (entryFits.nothing_after _) valueScanned
  have lengths := congrArg List.length (show cursor.rest = value.text ++ rest from equal)
  rw [List.length_append] at lengths
  have bodyShorter : body.length < rest.length := shorter
  refine enoughElements _ _ _ _ ((valueFits.nothing_after rest).move body) ?_
  simp only
  omega

theorem enoughForMembers_step (enoughValue : EnoughForValue stringLimit fuel)
    (enoughMembers : EnoughForMembers stringLimit fuel) :
    EnoughForMembers stringLimit (fuel + 1) := by
  intro depth path seen cursor fits enough
  rw [parseMembers, parseMembers]
  refine bind_congr_ok fun charged charging => ?_
  obtain ⟨entryFits, rfl⟩ := chargeContainerEntry_sound fits charging
  refine bind_congr_ok fun parsed nameScanned => ?_
  obtain ⟨found, afterName⟩ := parsed
  obtain ⟨items, characters, rest, decoded, cursorEqual, nameFits, rfl, rfl⟩ :=
    parseString_name_sound entryFits nameScanned
  have nameLength := congrArg List.length cursorEqual
  rw [List.length_append] at nameLength
  simp only
  split
  · rfl
  · unfold parseMemberValue
    split
    · rfl
    · rename_i afterColon consumed
      obtain ⟨blanks, before, valueText, colon, skipped⟩ := consume_colon_sound consumed
      have colonLength := congrArg List.length colon
      simp only [List.length_append, List.length_cons] at colonLength
      rw [skipped, enoughValue _ _ _ (nameFits.nothing_after valueText)
        (by simp only [Content.after]; omega)]
      refine bind_congr_ok fun afterValue valueScanned =>
        closeOrContinue_congr fun body shorter => ?_
      obtain ⟨value, afterText, valueEqual, valueFits, rfl⟩ := (sound stringLimit fuel).1 _ _ _ _
        (nameFits.nothing_after valueText) valueScanned
      have valueLength := congrArg List.length (show valueText = value.text ++ afterText from valueEqual)
      rw [List.length_append] at valueLength
      have bodyShorter : body.length < afterText.length := shorter
      refine enoughMembers _ _ _ _ ((valueFits.nothing_after afterText).move body) ?_
      simp only
      omega

theorem enoughForValue_step (enoughElements : EnoughForElements stringLimit fuel)
    (enoughMembers : EnoughForMembers stringLimit fuel) :
    EnoughForValue stringLimit (fuel + 1) := by
  intro depth path cursor fits enough
  rw [parseValue, parseValue]
  split
  · rfl
  · rename_i first text equal
    split
    · refine openContainer_congr (by simp [equal]) fun shallow body shorter => ?_
      exact enoughMembers _ _ _ _ ((fits.entered shallow).move body) (by simp only; omega)
    split
    · refine openContainer_congr (by simp [equal]) fun shallow body shorter => ?_
      exact enoughElements _ _ _ _ ((fits.entered shallow).move body) (by simp only; omega)
    · rfl

theorem enough (stringLimit fuel : Nat) :
    EnoughForValue stringLimit fuel ∧ EnoughForElements stringLimit fuel ∧
      EnoughForMembers stringLimit fuel := by
  induction fuel with
  | zero =>
    refine ⟨?_, ?_, ?_⟩
    · exact fun depth path cursor fits enough => absurd enough (Nat.not_lt_zero _)
    · exact fun depth path index cursor fits enough => absurd enough (Nat.not_lt_zero _)
    · exact fun depth path seen cursor fits enough => absurd enough (Nat.not_lt_zero _)
  | succ fuel ih =>
    obtain ⟨value, elements, members⟩ := ih
    exact ⟨enoughForValue_step elements members, enoughForElements_step value elements,
      enoughForMembers_step value members⟩

/-- The scanner's own fuel is as good as any greater one. -/
theorem parseValue_fuel (fits : nothing.Fits stringLimit depth cursor) {more : Nat}
    (greater : fuelFor cursor ≤ more) :
    parseValue stringLimit more depth path cursor =
      parseValue stringLimit (fuelFor cursor) depth path cursor := by
  induction more, greater using Nat.le_induction with
  | base => rfl
  | succ more greater ih =>
    rw [← ih]
    refine (enough stringLimit more).1 depth path cursor fits ?_
    rw [fuelFor] at greater
    omega

end RawJsonScanner

end FastMcp.RawAdmission
