import FastMcp.AdmissionScanning
import Mathlib.Data.List.TakeWhile

/-! # What the scanners read as one lexeme

Blanks, strings and literals: each scanning function succeeds exactly on the
texts that begin with the lexeme it looks for, and consumes the whole of it.
-/

namespace FastMcp.RawAdmission

open ByteText JsonGrammar JsonNumbers Outcomes

/-! ## Whitespace and single characters -/

/-- A text that begins with something other than whitespace. -/
def NotBlank (text : List Char) : Prop :=
  ∀ character ∈ text.head?, isWhitespace character = false

variable {text rest : List Char} {cursor : Cursor} {expected character : Char}

theorem dropWhile_whitespace (whitespace : Whitespace) (notBlank : NotBlank text) :
    (whitespace.text ++ text).dropWhile isWhitespace = text := by
  rw [List.dropWhile_append_of_pos whitespace.blank]
  cases text with
  | nil => rfl
  | cons first text => simp [notBlank first rfl]

theorem exists_whitespace (text : List Char) :
    ∃ whitespace : Whitespace, text = whitespace.text ++ text.dropWhile isWhitespace :=
  ⟨⟨text.takeWhile isWhitespace, fun _ member => List.mem_takeWhile_imp member⟩,
    (List.takeWhile_append_dropWhile).symm⟩

theorem consume_eq_some {next : Cursor} :
    cursor.consume expected = some next ↔
      ∃ rest, cursor.rest = expected :: rest ∧ next = { cursor with rest := rest } := by
  unfold Cursor.consume
  split
  · rename_i noRest
    simp [noRest]
  · rename_i first rest equal
    rw [equal]
    by_cases same : first = expected
    · simp [same, eq_comm]
    · simp [same]

theorem consume_eq_none : cursor.consume expected = none ↔ cursor.rest.head? ≠ some expected := by
  obtain ⟨rest, entries, numbers, strings⟩ := cursor
  rcases rest with _ | ⟨first, rest⟩
  · simp [Cursor.consume]
  · by_cases same : first = expected <;> simp [Cursor.consume, same]

/-- An expected character with blanks before it. -/
theorem consume_skipWhitespace {next : Cursor}
    (consumed : cursor.skipWhitespace.consume expected = some next) :
    ∃ (blanks : Whitespace) (rest : List Char),
      cursor.rest = blanks.text ++ expected :: rest ∧ next = { cursor with rest := rest } := by
  obtain ⟨rest, equal, rfl⟩ := consume_eq_some.mp consumed
  obtain ⟨blanks, split⟩ := exists_whitespace cursor.rest
  have expectedNext : cursor.rest.dropWhile isWhitespace = expected :: rest := equal
  exact ⟨blanks, rest, by rw [← expectedNext, ← split], rfl⟩

/-- Blanks before a character other than the expected one. -/
theorem skipWhitespace_eq (cursor : Cursor) :
    ∃ (blanks : Whitespace) (rest : List Char),
      cursor.rest = blanks.text ++ rest ∧ cursor.skipWhitespace = { cursor with rest := rest } := by
  obtain ⟨blanks, split⟩ := exists_whitespace cursor.rest
  exact ⟨blanks, _, split, rfl⟩

/-! ## Escapes -/

theorem nibbles_eq_some {digits : List Char} {start value : Nat} :
    digits.foldlM (fun value digit => (nibble digit).map (value * 16 + ·)) start = some value ↔
      (∀ digit ∈ digits, (nibble digit).isSome = true) ∧
        digits.foldl (fun value digit => value * 16 + (nibble digit).getD 0) start = value := by
  induction digits generalizing start with
  | nil => simp
  | cons digit digits ih =>
    rw [List.foldlM_cons, List.foldl_cons, List.forall_mem_cons]
    cases known : nibble digit with
    | none => simp
    | some weight => simp [ih]

theorem parseHexQuad_eq_some {value : Nat} :
    parseHexQuad text = some (value, rest) ↔
      ∃ quad : HexQuad, text = quad.digits ++ rest ∧ quad.value = value := by
  unfold parseHexQuad
  constructor
  · intro parsed
    split at parsed
    · rename_i four
      obtain ⟨found, folded, equal⟩ := Option.map_eq_some_iff.mp parsed
      obtain ⟨rfl, rfl⟩ := Prod.mk.inj equal
      obtain ⟨hexadecimal, sum⟩ := nibbles_eq_some.mp folded
      exact ⟨⟨text.take 4, four, hexadecimal⟩, (List.take_append_drop 4 text).symm, sum⟩
    · simp at parsed
  · rintro ⟨quad, rfl, rfl⟩
    have front : (quad.digits ++ rest).take 4 = quad.digits := List.take_left' quad.four
    have back : (quad.digits ++ rest).drop 4 = rest := List.drop_left' quad.four
    rw [front, back, if_pos quad.four, nibbles_eq_some.mpr ⟨quad.hexadecimal, rfl⟩]
    rfl

/-- A code point in the range of the surrogates is no character. -/
theorem isLowSurrogate_of_codePoint {scalar : Nat} (decoded : codePoint scalar = some character) :
    isLowSurrogate scalar = false := by
  unfold codePoint at decoded
  split at decoded
  · rename_i valid
    simp only [isLowSurrogate, Bool.and_eq_false_iff, decide_eq_false_iff_not]
    rcases valid with small | ⟨large, _⟩ <;> omega
  · simp at decoded

theorem parseUnicodeEscape_eq_some :
    parseUnicodeEscape text = some (character, rest) ↔
      (∃ quad : HexQuad, text = quad.digits ++ rest ∧ isHighSurrogate quad.value = false ∧
        codePoint quad.value = some character) ∨
      ∃ high low : HexQuad, text = high.digits ++ '\\' :: 'u' :: (low.digits ++ rest) ∧
        isHighSurrogate high.value = true ∧ isLowSurrogate low.value = true ∧
          codePoint (pairScalar high.value low.value) = some character := by
  unfold parseUnicodeEscape
  constructor
  · intro parsed
    obtain ⟨⟨first, afterFirst⟩, firstParsed, continued⟩ := Option.bind_eq_some_iff.mp parsed
    obtain ⟨high, rfl, rfl⟩ := parseHexQuad_eq_some.mp firstParsed
    split at continued
    · rename_i isHigh
      split at continued
      · rename_i afterMarker equal
        obtain ⟨⟨second, afterSecond⟩, secondParsed, paired⟩ := Option.bind_eq_some_iff.mp continued
        obtain ⟨low, rfl, rfl⟩ := parseHexQuad_eq_some.mp secondParsed
        split at paired
        · rename_i isLow
          obtain ⟨found, scalar, same⟩ := Option.map_eq_some_iff.mp paired
          obtain ⟨rfl, rfl⟩ := Prod.mk.inj same
          exact .inr ⟨high, low, by rw [← equal], isHigh, isLow, scalar⟩
        · simp at paired
      · simp at continued
    · rename_i notHigh
      split at continued
      · simp at continued
      · obtain ⟨found, scalar, same⟩ := Option.map_eq_some_iff.mp continued
        obtain ⟨rfl, rfl⟩ := Prod.mk.inj same
        exact .inl ⟨high, rfl, by simpa using notHigh, scalar⟩
  · rintro (⟨quad, rfl, single, scalar⟩ | ⟨high, low, rfl, isHigh, isLow, scalar⟩)
    · rw [parseHexQuad_eq_some.mpr ⟨quad, rfl, rfl⟩]
      simp [single, isLowSurrogate_of_codePoint scalar, scalar]
    · rw [parseHexQuad_eq_some.mpr ⟨high, rfl, rfl⟩]
      simp only [Option.bind_some, isHigh, if_true]
      rw [parseHexQuad_eq_some.mpr ⟨low, rfl, rfl⟩]
      simp [isLow, scalar]

theorem parseEscape_eq_some :
    parseEscape text = some (character, rest) ↔
      ∃ spelled, Spells spelled character ∧
        '\\' :: text = spelled.flatMap StringItem.text ++ rest := by
  constructor
  · intro parsed
    have short (escape : ShortEscape) (rest : List Char) : ∃ spelled,
        Spells spelled escape.character ∧
          '\\' :: escape.letter :: rest = spelled.flatMap StringItem.text ++ rest :=
      ⟨[.short escape], .short escape, rfl⟩
    unfold parseEscape at parsed
    split at parsed
    case h_9 =>
      rcases parseUnicodeEscape_eq_some.mp parsed with
        ⟨quad, rfl, single, scalar⟩ | ⟨high, low, rfl, isHigh, isLow, scalar⟩
      · exact ⟨[.unicode quad], .unicode quad character single scalar, by simp [StringItem.text]⟩
      · exact ⟨[.unicode high, .unicode low], .pair high low character isHigh isLow scalar,
          by simp [StringItem.text]⟩
    case h_10 => simp at parsed
    all_goals
      simp only [Option.some.injEq, Prod.mk.injEq] at parsed
      obtain ⟨rfl, rfl⟩ := parsed
    · exact short .quote _
    · exact short .backslash _
    · exact short .slash _
    · exact short .backspace _
    · exact short .formFeed _
    · exact short .newline _
    · exact short .carriageReturn _
    · exact short .tab _
  · rintro ⟨spelled, spells, equal⟩
    cases spells with
    | plain character unescaped =>
      obtain ⟨rfl, -⟩ := List.cons.inj equal
      simp [isUnescaped] at unescaped
    | short escape =>
      obtain ⟨-, rfl⟩ := List.cons.inj equal
      cases escape <;> rfl
    | unicode quad character single scalar =>
      have same : text = 'u' :: (quad.digits ++ rest) := by simpa [StringItem.text] using equal
      rw [same]
      exact parseUnicodeEscape_eq_some.mpr (.inl ⟨quad, rfl, single, scalar⟩)
    | pair high low character isHigh isLow scalar =>
      have same : text = 'u' :: (high.digits ++ '\\' :: 'u' :: (low.digits ++ rest)) := by
        simpa [StringItem.text] using equal
      rw [same]
      exact parseUnicodeEscape_eq_some.mpr (.inr ⟨high, low, rfl, isHigh, isLow, scalar⟩)

/-! ## Strings -/

theorem stringStep_eq_closed : stringStep text = .closed rest ↔ text = '"' :: rest := by
  cases text with
  | nil => simp [stringStep]
  | cons first text =>
    unfold stringStep
    by_cases quote : first = '"'
    · simp [quote]
    · simp only [quote, if_false, List.cons.injEq, false_and, iff_false]
      repeat' split
      all_goals simp

theorem spells_plain_or_escaped {spelled : List StringItem} (spells : Spells spelled character) :
    (∃ unescaped, spelled = [.plain character unescaped]) ∨
      ∃ escape, spelled.flatMap StringItem.text = '\\' :: escape := by
  cases spells with
  | plain character unescaped => exact .inl ⟨unescaped, rfl⟩
  | short escape => exact .inr ⟨_, rfl⟩
  | unicode quad character single scalar => exact .inr ⟨_, rfl⟩
  | pair high low character isHigh isLow scalar => exact .inr ⟨_, rfl⟩

theorem spells_length_pos {spelled : List StringItem} (spells : Spells spelled character) :
    0 < (spelled.flatMap StringItem.text).length := by
  cases spells <;> simp [StringItem.text]

theorem push_append_ofList (text : String) (character : Char) (characters : List Char) :
    text.push character ++ String.ofList characters =
      text ++ String.ofList (character :: characters) := by
  apply String.toList_injective
  simp

/-- Any other turn of the string loop reads one way of writing a character. -/
theorem stringStep_eq_character :
    stringStep text = .character character rest ↔
      ∃ spelled, Spells spelled character ∧ text = spelled.flatMap StringItem.text ++ rest := by
  constructor
  · intro step
    cases text with
    | nil => simp [stringStep] at step
    | cons first text =>
      rw [stringStep] at step
      split at step
      · simp at step
      · rename_i notQuote
        split at step
        · rename_i backslash
          subst backslash
          split at step
          · rename_i escaped
            obtain ⟨rfl, rfl⟩ := StringStep.character.inj step
            exact parseEscape_eq_some.mp escaped
          · simp at step
        · rename_i notBackslash
          split at step
          · simp at step
          · rename_i printable
            obtain ⟨rfl, rfl⟩ := StringStep.character.inj step
            have unescaped : isUnescaped first = true := by
              simp only [isUnescaped, Bool.and_eq_true, decide_eq_true_eq, bne_iff_ne]
              exact ⟨⟨by omega, notQuote⟩, notBackslash⟩
            exact ⟨[.plain first unescaped], .plain first unescaped, rfl⟩
  · rintro ⟨spelled, spells, rfl⟩
    rcases spells_plain_or_escaped spells with ⟨unescaped, rfl⟩ | ⟨escape, front⟩
    · simp only [isUnescaped, Bool.and_eq_true, decide_eq_true_eq, bne_iff_ne] at unescaped
      obtain ⟨⟨printable, notQuote⟩, notBackslash⟩ := unescaped
      have notControl : ¬character.toNat < 0x20 := by omega
      simp [stringStep, StringItem.text, notQuote, notBackslash, notControl]
    · have parsed : parseEscape (escape ++ rest) = some (character, rest) :=
        parseEscape_eq_some.mpr ⟨spelled, spells, by rw [front]; rfl⟩
      rw [front]
      simp [stringStep, parsed]

/-- The cursor after a string that denotes given characters. -/
def Cursor.afterString (cursor : Cursor) (characters rest : List Char) : Cursor :=
  { cursor with
    rest := rest
    decodedStringBytes := cursor.decodedStringBytes + byteLength characters }

namespace ScanProfile

variable {Failure : Type} (profile : ScanProfile Failure)

theorem enterContainer_eq_ok {depth nested : Nat} :
    profile.enterContainer depth = .ok nested ↔
      depth + 1 ≤ profile.maxNestingDepth ∧ nested = depth + 1 := by
  unfold enterContainer
  split
  · simp
    omega
  · simp
    omega

variable {cursor next : Cursor} {limit : Nat}

theorem chargeContainerEntry_eq_ok :
    profile.chargeContainerEntry cursor = .ok next ↔
      cursor.containerEntries + 1 ≤ profile.maxContainerEntries ∧
        next = { cursor with containerEntries := cursor.containerEntries + 1 } := by
  unfold chargeContainerEntry
  split
  · simp
    omega
  · simp [eq_comm]
    omega

theorem chargeStringBytes_eq_ok {bytes : Nat} :
    profile.chargeStringBytes limit bytes cursor = .ok next ↔
      cursor.decodedStringBytes + bytes ≤ limit ∧
        next = { cursor with decodedStringBytes := cursor.decodedStringBytes + bytes } := by
  unfold chargeStringBytes
  split
  · simp
    omega
  · simp [eq_comm]
    omega

theorem chargeNumberBytes_eq_ok {bytes : Nat} :
    profile.chargeNumberBytes bytes cursor = .ok next ↔
      cursor.numberBytes + bytes ≤ profile.maxAggregateNumberBytes ∧
        next = { cursor with numberBytes := cursor.numberBytes + bytes } := by
  unfold chargeNumberBytes
  split
  · simp
    omega
  · simp [eq_comm]
    omega

/-- The string loop reads the rest of a string up to its closing mark. -/
theorem parseStringLoop_eq_ok {turns : Nat} {decoded found : Option String}
    (fits : cursor.decodedStringBytes ≤ limit) (enough : cursor.rest.length ≤ turns) :
    profile.parseStringLoop limit turns decoded cursor = .ok (found, next) ↔
      ∃ items characters rest, decodeItems items = some characters ∧
        cursor.rest = items.flatMap StringItem.text ++ '"' :: rest ∧
        cursor.decodedStringBytes + byteLength characters ≤ limit ∧
        found = decoded.map (· ++ String.ofList characters) ∧
        next = cursor.afterString characters rest := by
  induction turns generalizing decoded cursor with
  | zero =>
    have noRest : cursor.rest = [] := List.length_eq_zero_iff.mp (Nat.le_zero.mp enough)
    simp [parseStringLoop, noRest]
  | succ turns ih =>
    rw [parseStringLoop]
    constructor
    · intro parsed
      split at parsed
      · simp at parsed
      · rename_i rest step
        obtain ⟨rfl, rfl⟩ := Prod.mk.inj (Except.ok.inj parsed)
        refine ⟨[], [], rest, rfl, stringStep_eq_closed.mp step, fits, ?_, rfl⟩
        cases decoded <;> simp
      · rename_i character afterCharacter step
        obtain ⟨spelled, spells, equal⟩ := stringStep_eq_character.mp step
        obtain ⟨charged, charge, continued⟩ := bind_eq_ok.mp parsed
        obtain ⟨within, rfl⟩ := profile.chargeStringBytes_eq_ok.mp charge
        have shorter : afterCharacter.length ≤ turns := by
          have spelledLength := spells_length_pos spells
          rw [equal, List.length_append] at enough
          omega
        obtain ⟨items, characters, rest, decodes, restEqual, bounded, rfl, rfl⟩ :=
          (ih within shorter).mp continued
        refine ⟨spelled ++ items, character :: characters, rest, ?_, ?_, ?_, ?_, ?_⟩
        · rw [decodeItems_spelled spells, decodes]
          rfl
        · simpa [equal] using restEqual
        · simpa [byteLength, Nat.add_assoc] using bounded
        · rw [Option.map_map]
          congr 1
          funext text
          exact push_append_ofList text character characters
        · simp [Cursor.afterString, byteLength, Nat.add_assoc]
    · rintro ⟨items, characters, rest, decodes, restEqual, bounded, rfl, rfl⟩
      cases characters with
      | nil =>
        obtain rfl := eq_nil_of_decodeItems decodes
        rw [stringStep_eq_closed.mpr restEqual]
        cases decoded <;> simp [Cursor.afterString, byteLength]
      | cons character characters =>
        obtain ⟨spelled, items, rfl, spells, itemsDecode⟩ := decodeItems_cons decodes
        rw [List.flatMap_append, List.append_assoc] at restEqual
        rw [stringStep_eq_character.mpr ⟨spelled, spells, restEqual⟩]
        have length : byteLength (character :: characters) =
            character.utf8Size + byteLength characters := by
          simp [byteLength]
        have within : cursor.decodedStringBytes + character.utf8Size ≤ limit := by omega
        have shorter : (items.flatMap StringItem.text ++ '"' :: rest).length ≤ turns := by
          have spelledLength := spells_length_pos spells
          rw [restEqual, List.length_append] at enough
          omega
        refine bind_eq_ok.mpr ⟨_, profile.chargeStringBytes_eq_ok.mpr ⟨within, rfl⟩, ?_⟩
        refine (ih within shorter).mpr ⟨items, characters, rest, itemsDecode, rfl, ?_, ?_, ?_⟩
        · simp only
          omega
        · rw [Option.map_map]
          congr 1
          funext text
          exact (push_append_ofList text character characters).symm
        · simp [Cursor.afterString, length, Nat.add_assoc]

/-- A string is read exactly where one stands whose escapes denote characters
that fit the budget. -/
theorem parseString_eq_ok {capture : Bool} {found : Option String}
    (fits : cursor.decodedStringBytes ≤ limit) :
    profile.parseString limit capture cursor = .ok (found, next) ↔
      ∃ items characters rest, decodeItems items = some characters ∧
        cursor.rest = stringText items ++ rest ∧
        cursor.decodedStringBytes + byteLength characters ≤ limit ∧
        found = (if capture then some (String.ofList characters) else none) ∧
        next = cursor.afterString characters rest := by
  unfold parseString
  constructor
  · intro parsed
    split at parsed
    · simp at parsed
    · rename_i opened consumed
      obtain ⟨body, restEqual, rfl⟩ := consume_eq_some.mp consumed
      obtain ⟨items, characters, rest, decodes, rfl, bounded, rfl, rfl⟩ :=
        (profile.parseStringLoop_eq_ok (by exact fits) (Nat.le_refl _)).mp parsed
      refine ⟨items, characters, rest, decodes, ?_, bounded, ?_, rfl⟩
      · rw [restEqual]
        simp [stringText]
      · cases capture <;> simp
  · rintro ⟨items, characters, rest, decodes, restEqual, bounded, rfl, rfl⟩
    have consumed : cursor.consume '"' = some { cursor with
        rest := items.flatMap StringItem.text ++ '"' :: rest } := by
      rw [consume_eq_some]
      simp [restEqual, stringText]
    rw [consumed]
    refine (profile.parseStringLoop_eq_ok (by exact fits) (Nat.le_refl _)).mpr
      ⟨items, characters, rest, decodes, rfl, bounded, ?_, rfl⟩
    cases capture <;> simp

theorem parseLiteral_eq_ok {literal : List Char} :
    profile.parseLiteral literal cursor = .ok next ↔
      ∃ rest, cursor.rest = literal ++ rest ∧ next = { cursor with rest := rest } := by
  unfold parseLiteral
  split
  · rename_i starts
    obtain ⟨rest, equal⟩ := List.isPrefixOf_iff_prefix.mp starts
    rw [Except.ok.injEq, ← equal, List.drop_left]
    constructor
    · rintro rfl
      exact ⟨rest, rfl, rfl⟩
    · rintro ⟨other, restEqual, rfl⟩
      rw [List.append_cancel_left restEqual]
  · rename_i other
    simp only [reduceCtorEq, false_iff]
    rintro ⟨rest, equal, -⟩
    exact other (List.isPrefixOf_iff_prefix.mpr ⟨rest, equal.symm⟩)

end ScanProfile

end FastMcp.RawAdmission
