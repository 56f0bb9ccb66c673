import FastMcp.RawJsonCompleteness

/-! # The documents that raw JSON admission accepts

Soundness and completeness of the scanner give the language of
`admitRawJsonDocument` for a document of any kind.
-/

namespace FastMcp.RawAdmission

open ByteText JsonGrammar JsonNumbers Outcomes Content RawJsonScanner

/-! ## Whole documents -/

theorem containsByteOrderMark_eq_true {document : Bytes} :
    containsByteOrderMark document = true ↔ byteOrderMark <:+: document := by
  simp only [containsByteOrderMark, List.any_eq_true, List.mem_tails, beq_iff_eq]
  constructor
  · rintro ⟨suffix, isSuffix, front⟩
    rw [← front]
    exact (List.take_prefix 3 suffix).isInfix.trans isSuffix.isInfix
  · rintro ⟨before, after, rfl⟩
    refine ⟨byteOrderMark ++ after, ?_, rfl⟩
    rw [List.append_assoc]
    exact List.suffix_append _ _

/-- A number token is written in ASCII. -/
theorem number_ascii (lexeme : NumberLexeme) : ∀ character ∈ lexeme.text, character.toNat < 128 := by
  have digits {text : List Char} (isDigits : IsDigits text) : ∀ digit ∈ text, digit.toNat < 128 := by
    intro digit member
    have range := (isAsciiDigit_iff digit).mp (isDigits.digits digit member)
    have nine : '9'.toNat = 57 := rfl
    omega
  intro character member
  simp only [NumberLexeme.text, List.mem_append] at member
  rcases member with ((sign | whole) | fraction) | exponent
  · split at sign
    · obtain rfl : character = '-' := by simpa using sign
      decide
    · simp at sign
  · exact digits lexeme.wholeDigits character whole
  · unfold NumberLexeme.fractionText at fraction
    split at fraction
    · simp at fraction
    · rename_i text known
      rcases List.mem_cons.mp fraction with rfl | member
      · decide
      · exact digits (lexeme.fractionDigits text known) character member
  · cases known : lexeme.exponent with
    | none => simp [known] at exponent
    | some text =>
      have member : character ∈ text.text := by simpa [known] using exponent
      simp only [ExponentText.text, List.mem_cons, List.mem_append] at member
      rcases member with marker | sign | digit
      · rw [marker]
        split <;> decide
      · rcases known : text.sign with _ | _ | _
        all_goals simp [known, ExponentText.signText] at sign
        all_goals
          rw [sign]
          decide
      · exact digits text.isDigits character digit

theorem byteLength_number (lexeme : NumberLexeme) :
    byteLength lexeme.text = lexeme.text.length := by
  have ones : lexeme.text.map Char.utf8Size = lexeme.text.map fun _ => 1 := by
    refine List.map_congr_left fun character member => ?_
    have small := number_ascii lexeme character member
    exact Char.utf8Size_eq_one_iff.mpr (by rw [UInt32.le_iff_toNat_le]; exact Nat.lt_succ_iff.mp small)
  rw [byteLength, ones]
  simp

/-- The limits of a document, stated of its syntax tree. -/
structure WithinLimits (documentByteLimit : Nat) (value : Value) : Prop where
  scalars : ∀ items ∈ value.strings, (decodeItems items).isSome = true
  distinct : ∀ names ∈ value.objects, (names.map decodeItems).Nodup
  nesting : value.nesting ≤ 64
  entries : value.entries ≤ 100000
  numberBytes : ∀ lexeme ∈ value.numbers, byteLength lexeme.text ≤ 4096
  exponents : ∀ lexeme ∈ value.numbers, ∀ exponent ∈ lexeme.exponent, exponent.value.natAbs ≤ 10000
  aggregateNumberBytes : (value.numbers.map fun lexeme => byteLength lexeme.text).sum ≤ 262144
  decodedStringBytes : (value.strings.map decodedLength).sum ≤ documentByteLimit

theorem withinLimits_iff_fits {limit : Nat} {value : Value} {input : List Char} :
    WithinLimits limit value ↔ (valueContent value).Fits limit 0 (Cursor.new input) := by
  have numbers : (valueContent value).numberBytes =
      (value.numbers.map fun lexeme => byteLength lexeme.text).sum := by
    simp only [byteLength_number]
    rfl
  constructor
  · rintro ⟨scalars, distinct, nesting, entries, numberBytes, exponents, aggregate, strings⟩
    refine ⟨?_, ?_, ?_, ?_, scalars, ?_, distinct⟩
    · rw [Nat.zero_add]
      exact nesting
    · rw [Cursor.new, Nat.zero_add]
      exact entries
    · intro lexeme member
      refine ⟨?_, exponents lexeme member⟩
      rw [← byteLength_number]
      exact numberBytes lexeme member
    · rw [Cursor.new, Nat.zero_add, numbers]
      exact aggregate
    · rw [Cursor.new, Nat.zero_add]
      exact strings
  · rintro ⟨nesting, entries, tokens, numberBytes, decodable, stringBytes, distinct⟩
    rw [Nat.zero_add] at nesting
    rw [Cursor.new, Nat.zero_add] at entries stringBytes
    rw [Cursor.new, Nat.zero_add, numbers] at numberBytes
    refine ⟨decodable, distinct, nesting, entries, ?_, ?_, numberBytes, stringBytes⟩
    · intro lexeme member
      rw [byteLength_number]
      exact (tokens lexeme member).short
    · exact fun lexeme member => (tokens lexeme member).smallExponent

theorem fits_nothing_new (limit : Nat) (input : List Char) :
    nothing.Fits limit 0 (Cursor.new input) := by
  refine ⟨?_, ?_, ?_, ?_, ?_, ?_, ?_⟩ <;>
    simp [Cursor.new, nothing, numberBytes, stringBytes]

/-- An object at the top is scanned like any other value. -/
theorem parseObject_top {limit : Nat} {input text : List Char} (equal : input = '\x7b' :: text) :
    parseObject limit (fuelFor (Cursor.new input)) 0 [] (Cursor.new input) =
      parseValue limit (fuelFor (Cursor.new input)) 0 [] (Cursor.new input) := by
  rw [← parseValue_fuel (fits_nothing_new limit input) (Nat.le_succ _)]
  exact (parseValue_brace equal).symm

theorem scanTopLevel_anyValue (limit : Nat) (input : List Char) (next : Cursor) :
    scanTopLevel limit .anyValue (Cursor.new input) = .ok next ↔
      parseValue limit (fuelFor (Cursor.new input)) 0 [] (Cursor.new input) = .ok next := by
  unfold scanTopLevel
  split
  · rename_i text equal
    have begins : input = '\x7b' :: text := equal
    rw [mapError_eq_ok, parseObject_top begins]
  · contradiction
  · contradiction
  · exact mapError_eq_ok
  · rename_i other
    cases known : input with
    | nil => simp [Cursor.new, fuelFor, parseValue]
    | cons first text => exact absurd rfl (other first text (by rw [known]; rfl))

theorem scanTopLevel_jsonRpcObject (limit : Nat) (input : List Char) (next : Cursor) :
    scanTopLevel limit .jsonRpcObject (Cursor.new input) = .ok next ↔
      input.head? = some '\x7b' ∧
        parseValue limit (fuelFor (Cursor.new input)) 0 [] (Cursor.new input) = .ok next := by
  unfold scanTopLevel
  split
  · rename_i text equal
    have begins : input = '\x7b' :: text := equal
    rw [mapError_eq_ok, parseObject_top begins]
    simp [begins]
  · rename_i text equal _
    have begins : input = '[' :: text := equal
    simp [begins]
  · contradiction
  · contradiction
  · rename_i notBrace notBracket _ _
    simp only [reduceCtorEq, false_iff, not_and]
    intro brace
    obtain ⟨text, equal⟩ := List.head?_eq_some_iff.mp brace
    exact absurd equal (notBrace text)

/-- The scanner accepts a text exactly if it is a JSON text within the limits. -/
theorem scan_text_iff (limit : Nat) (input : List Char) :
    (∃ next, scanTopLevel limit .anyValue (Cursor.new input).skipWhitespace = .ok next ∧
        next.skipWhitespace.rest = []) ↔
      ∃ document : Document, input = document.text ∧ WithinLimits limit document.value := by
  constructor
  · rintro ⟨next, scanned, ended⟩
    obtain ⟨before, text, inputEqual, skipped⟩ := skipWhitespace_eq (Cursor.new input)
    rw [skipped] at scanned
    obtain ⟨value, rest, textEqual, fits, rfl⟩ := (sound limit _).1 _ _ _ _
      (fits_nothing_new limit text) ((scanTopLevel_anyValue limit text next).mp scanned)
    obtain ⟨after, tail, restEqual, restSkipped⟩ :=
      skipWhitespace_eq ((valueContent value).after (Cursor.new text) rest)
    rw [restSkipped] at ended
    have inputText : input = before.text ++ text := inputEqual
    have valueText : text = value.text ++ rest := textEqual
    have afterText : rest = after.text ++ tail := restEqual
    have noTail : tail = [] := ended
    refine ⟨⟨before, value, after⟩, ?_, withinLimits_iff_fits.mpr fits⟩
    rw [inputText, valueText, afterText, noTail, List.append_nil]
    rfl
  · rintro ⟨⟨before, value, after⟩, rfl, within⟩
    obtain ⟨first, text, begins, visible, -⟩ := value_first value
    have skipped : (Cursor.new (Document.text ⟨before, value, after⟩)).skipWhitespace =
        Cursor.new (value.text ++ after.text) := by
      refine skipWhitespace_of_rest rfl ?_
      rw [begins]
      exact notBlank_cons visible
    have delimited : Delimited after.text := by
      rw [← List.append_nil after.text]
      exact delimited_whitespace after (by simp [Delimited])
    have enough : value.text.length ≤ fuelFor (Cursor.new (value.text ++ after.text)) := by
      rw [fuelFor, Cursor.new, List.length_append]
      omega
    have scanned := (scanTopLevel_anyValue limit _ _).mpr
      (parseValue_complete value enough rfl delimited (withinLimits_iff_fits.mp within))
    refine ⟨_, by rw [skipped]; exact scanned, ?_⟩
    rw [skipWhitespace_of_rest (List.append_nil after.text).symm (by simp [NotBlank])]

/-- Raw admission of a document of any kind accepts exactly the UTF-8 texts
without a byte-order mark that are one JSON value within the limits. -/
theorem admitRawJsonDocument_anyValue_iff (document : Bytes) (limit : Nat) :
    admitRawJsonDocument document limit .anyValue = .ok () ↔
      document.length ≤ limit ∧ ¬[0xef, 0xbb, 0xbf] <:+: document ∧
        ∃ input, fromUtf8 document = some input ∧
          ∃ json : Document, input.toList = json.text ∧ WithinLimits limit json.value := by
  unfold admitRawJsonDocument
  split
  · rename_i tooLarge
    simp only [reduceCtorEq, false_iff, not_and]
    exact fun small => absurd small (Nat.not_le.mpr tooLarge)
  · rename_i small
    split
    · rename_i marked
      simp only [reduceCtorEq, false_iff, not_and]
      exact fun _ unmarked => absurd (containsByteOrderMark_eq_true.mp marked) unmarked
    · rename_i unmarked
      have noMark : ¬[0xef, 0xbb, 0xbf] <:+: document :=
        fun mark => unmarked (containsByteOrderMark_eq_true.mpr mark)
      split
      · rename_i invalid
        simp [invalid]
      · rename_i input valid
        rw [valid, bind_eq_ok]
        simp only [Option.some.injEq, exists_eq_left', ← scan_text_iff]
        constructor
        · rintro ⟨next, scanned, ended⟩
          refine ⟨Nat.not_lt.mp small, noMark, next, scanned, ?_⟩
          by_contra more
          rw [if_neg more] at ended
          contradiction
        · rintro ⟨-, -, next, scanned, ended⟩
          exact ⟨next, scanned, if_pos ended⟩

/-- Admission of a JSON-RPC document, reduced to the scan of its text. -/
theorem admitRawJsonrpcDocument_eq_ok {document : Bytes} {input : String} {limit : Nat}
    (small : document.length ≤ limit) (unmarked : containsByteOrderMark document = false)
    (valid : fromUtf8 document = some input) :
    admitRawJsonrpcDocument document limit = .ok () ↔
      (input.toList.dropWhile isWhitespace).head? = some '\x7b' ∧
        ∃ next, parseValue limit (fuelFor (Cursor.new (input.toList.dropWhile isWhitespace))) 0 []
            (Cursor.new (input.toList.dropWhile isWhitespace)) = .ok next ∧
          next.skipWhitespace.rest = [] := by
  rw [admitRawJsonrpcDocument, mapError_eq_ok, admitRawJsonDocument, if_neg (Nat.not_lt.mpr small),
    unmarked, if_neg Bool.false_ne_true, valid]
  simp only
  rw [bind_eq_ok]
  have top (next : Cursor) :
      scanTopLevel limit .jsonRpcObject (Cursor.new input.toList).skipWhitespace = .ok next ↔ _ :=
    scanTopLevel_jsonRpcObject limit (input.toList.dropWhile isWhitespace) next
  simp only [top]
  constructor
  · rintro ⟨next, ⟨brace, scanned⟩, ended⟩
    refine ⟨brace, next, scanned, ?_⟩
    by_contra more
    rw [if_neg more] at ended
    contradiction
  · rintro ⟨brace, next, scanned, ended⟩
    exact ⟨next, ⟨brace, scanned⟩, if_pos ended⟩

end FastMcp.RawAdmission
