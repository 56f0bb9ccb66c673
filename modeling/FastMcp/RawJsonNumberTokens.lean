import FastMcp.AdmissionLexemes
import FastMcp.RawJsonScanner

/-! # The number tokens of the raw JSON scanner

The scanner reads a number in four parts: sign, whole part, fraction and
exponent. Each part is read as far as it goes, so a number token ends where no
part can be continued.
-/

namespace FastMcp.RawAdmission

open ByteText DecimalDigits JsonGrammar JsonNumbers Outcomes

/-! ## Exponents -/

theorem foldl_digits (text : List Char) :
    text.foldl (fun value digit => value * 10 + (digit.toNat - '0'.toNat)) 0 =
      value (digitsOf text) := by
  induction text using List.reverseRecOn with
  | nil => rfl
  | append_singleton text digit ih =>
    have snoc : digitsOf (text ++ [digit]) = digitsOf text ++ [digit.toNat - '0'.toNat] := by
      simp [digitsOf]
    rw [List.foldl_append, ih, snoc, value_snoc]
    simp [Nat.mul_comm]

theorem digitsOf_dropZeros {text : List Char} (digits : ∀ digit ∈ text, isAsciiDigit digit = true) :
    digitsOf (text.dropWhile (· == '0')) = trim (digitsOf text) := by
  induction text with
  | nil => rfl
  | cons first text ih =>
    obtain ⟨firstDigit, restDigits⟩ := List.forall_mem_cons.mp digits
    have range := (isAsciiDigit_iff first).mp firstDigit
    by_cases zero : first = '0'
    · simpa [zero, digitsOf, trim] using ih restDigits
    · have notZero : first.toNat - '0'.toNat ≠ 0 := by
        intro equal
        exact zero (Char.toNat_inj.mp (by omega))
      rw [List.dropWhile_cons_of_neg (by simpa using zero), digitsOf, List.map_cons, trim,
        List.dropWhile_cons_of_neg (by simpa using notZero)]

/-- The exponent check is exact as long as its limit has five digits. -/
theorem ScanProfile.exponentExceedsLimit_eq_false {Failure : Type} (profile : ScanProfile Failure)
    (fiveDigits : profile.maxExponent < 10 ^ 5) {digits : List Char}
    (isDigits : ∀ digit ∈ digits, isAsciiDigit digit = true) :
    profile.exponentExceedsLimit digits = false ↔ value (digitsOf digits) ≤ profile.maxExponent := by
  have significant := digitsOf_dropZeros isDigits
  have same : value (digitsOf (digits.dropWhile (· == '0'))) = value (digitsOf digits) := by
    rw [significant, value_trim]
  have length : (digits.dropWhile (· == '0')).length = (trim (digitsOf digits)).length := by
    rw [← significant, digitsOf, List.length_map]
  unfold exponentExceedsLimit
  rw [foldl_digits, same, length, Bool.or_eq_false_iff, decide_eq_false_iff_not,
    decide_eq_false_iff_not, Nat.not_lt, Nat.not_lt]
  constructor
  · exact And.right
  · intro small
    refine ⟨(trim_trimmed _).length_le ?_, small⟩
    rw [value_trim]
    omega

namespace RawJsonScanner

/-! ## Digits -/

/-- A text that does not begin with a digit. -/
def NoDigit (text : List Char) : Prop :=
  ∀ character ∈ text.head?, isAsciiDigit character = false

theorem startsWithDigit_eq_false {text : List Char} : startsWithDigit text = false ↔ NoDigit text := by
  cases text <;> simp [startsWithDigit, NoDigit]

theorem noDigit_consumeDigits (text : List Char) : NoDigit (consumeDigits text) := by
  intro character first
  have kept := List.head?_dropWhile_not isAsciiDigit text
  rw [consumeDigits] at first
  rw [Option.mem_def.mp first] at kept
  simpa using kept

theorem takeWhile_isDigits {text : List Char} (starts : startsWithDigit text = true) :
    IsDigits (text.takeWhile isAsciiDigit) := by
  refine ⟨?_, fun _ member => List.mem_takeWhile_imp member⟩
  cases text with
  | nil => simp [startsWithDigit] at starts
  | cons first text =>
    have digit : isAsciiDigit first = true := by simpa [startsWithDigit] using starts
    simp [digit]

variable {digits : List Char}

theorem startsWithDigit_append (isDigits : IsDigits digits) (text : List Char) :
    startsWithDigit (digits ++ text) = true := by
  cases digits with
  | nil => exact absurd rfl isDigits.nonempty
  | cons first digits => simp [startsWithDigit, isDigits.digits first List.mem_cons_self]

theorem consumeDigits_append {text : List Char}
    (isDigits : ∀ digit ∈ digits, isAsciiDigit digit = true)
    (noDigit : NoDigit text) : consumeDigits (digits ++ text) = text := by
  rw [consumeDigits, List.dropWhile_append_of_pos isDigits]
  cases text with
  | nil => rfl
  | cons first text => simp [noDigit first rfl]

theorem takeWhile_append {text : List Char} (isDigits : ∀ digit ∈ digits, isAsciiDigit digit = true)
    (noDigit : NoDigit text) : (digits ++ text).takeWhile isAsciiDigit = digits := by
  rw [List.takeWhile_append_of_pos isDigits]
  cases text with
  | nil => simp
  | cons first text => simp [noDigit first rfl]

/-! ## The parts of a number -/

theorem parseWhole_eq_ok {text rest : List Char} :
    parseWhole text = .ok rest ↔
      ∃ whole, IsDigits whole ∧ (whole = ['0'] ∨ whole.head? ≠ some '0') ∧
        text = whole ++ rest ∧ NoDigit rest := by
  constructor
  · intro parsed
    cases text with
    | nil => simp [parseWhole] at parsed
    | cons first text =>
      rw [parseWhole] at parsed
      split at parsed
      · rename_i zero
        split at parsed
        · simp at parsed
        · rename_i ended
          obtain rfl := Except.ok.inj parsed
          refine ⟨['0'], .of_all (by simp) (by decide), .inl rfl, by rw [zero]; rfl, ?_⟩
          exact startsWithDigit_eq_false.mp (by simpa using ended)
      · rename_i notZero
        split at parsed
        · rename_i digit
          obtain rfl := Except.ok.inj parsed
          have run : IsDigits ((first :: text).takeWhile isAsciiDigit) :=
            takeWhile_isDigits (by simpa [startsWithDigit] using digit)
          have front :
              (first :: text).takeWhile isAsciiDigit = first :: text.takeWhile isAsciiDigit := by
            simp [digit]
          rw [front] at run
          refine ⟨_, run, .inr (by simpa using notZero), ?_, noDigit_consumeDigits text⟩
          simp [consumeDigits]
        · simp at parsed
  · rintro ⟨whole, isDigits, canonical, rfl, noDigit⟩
    cases whole with
    | nil => exact absurd rfl isDigits.nonempty
    | cons first whole =>
      rw [List.cons_append, parseWhole]
      by_cases zero : first = '0'
      · have alone : whole = [] := by simpa [zero] using canonical
        rw [if_pos zero, alone, List.nil_append, startsWithDigit_eq_false.mpr noDigit]
        rfl
      · have digit := isDigits.digits first List.mem_cons_self
        rw [if_neg zero, if_pos digit, consumeDigits_append _ noDigit]
        exact fun character member => isDigits.digits character (List.mem_cons_of_mem _ member)

theorem parseFraction_eq_ok {text rest : List Char} :
    parseFraction text = .ok rest ↔
      (text = rest ∧ rest.head? ≠ some '.') ∨
        ∃ digits, IsDigits digits ∧ text = '.' :: (digits ++ rest) ∧ NoDigit rest := by
  constructor
  · intro parsed
    unfold parseFraction at parsed
    split at parsed
    · rename_i afterPoint
      split at parsed
      · rename_i starts
        obtain rfl := Except.ok.inj parsed
        refine .inr ⟨_, takeWhile_isDigits starts, ?_, noDigit_consumeDigits _⟩
        rw [consumeDigits, List.takeWhile_append_dropWhile]
      · simp at parsed
    · rename_i noPoint
      obtain rfl := Except.ok.inj parsed
      refine .inl ⟨rfl, fun point => ?_⟩
      obtain ⟨tail, equal⟩ := List.head?_eq_some_iff.mp point
      exact noPoint tail equal
  · rintro (⟨rfl, noPoint⟩ | ⟨digits, isDigits, rfl, noDigit⟩)
    · unfold parseFraction
      split
      · simp at noPoint
      · rfl
    · rw [parseFraction, if_pos (startsWithDigit_append isDigits rest),
        consumeDigits_append isDigits.digits noDigit]

theorem exists_skipSign (text : List Char) :
    ∃ sign, text = ExponentText.signText sign ++ skipSign text := by
  unfold skipSign
  split
  · exact ⟨some .plus, rfl⟩
  · exact ⟨some .minus, rfl⟩
  · exact ⟨none, rfl⟩

theorem skipSign_signText (sign : Option ExponentSign) {text : List Char}
    (starts : startsWithDigit text = true) : skipSign (ExponentText.signText sign ++ text) = text := by
  rcases sign with _ | _ | _
  · rw [ExponentText.signText, List.nil_append]
    unfold skipSign
    split
    · simp [startsWithDigit, isAsciiDigit] at starts
    · simp [startsWithDigit, isAsciiDigit] at starts
    · rfl
  · rfl
  · rfl

theorem parseExponentDigits_eq_ok {text rest : List Char} :
    parseExponentDigits text = .ok rest ↔
      ∃ digits, IsDigits digits ∧ text = digits ++ rest ∧ NoDigit rest ∧
        value (digitsOf digits) ≤ rawScanProfile.maxExponent := by
  unfold parseExponentDigits
  constructor
  · intro parsed
    split at parsed
    · rename_i starts
      split at parsed
      · simp at parsed
      · rename_i within
        obtain rfl := Except.ok.inj parsed
        have run := takeWhile_isDigits starts
        refine ⟨_, run, ?_, noDigit_consumeDigits text, ?_⟩
        · rw [consumeDigits, List.takeWhile_append_dropWhile]
        · exact (rawScanProfile.exponentExceedsLimit_eq_false (by decide) run.digits).mp
            (by simpa using within)
    · simp at parsed
  · rintro ⟨digits, isDigits, rfl, noDigit, small⟩
    have within := (rawScanProfile.exponentExceedsLimit_eq_false (by decide) isDigits.digits).mpr small
    rw [if_pos (startsWithDigit_append isDigits rest), takeWhile_append isDigits.digits noDigit,
      consumeDigits_append isDigits.digits noDigit, exponentExceedsRawLimit, within]
    rfl

theorem parseExponent_marker (upperCase : Bool) (text : List Char) :
    parseExponent ((if upperCase then 'E' else 'e') :: text) =
      parseExponentDigits (skipSign text) := by
  cases upperCase <;> rfl

theorem parseExponent_eq_ok {text rest : List Char} :
    parseExponent text = .ok rest ↔
      (text = rest ∧ rest.head? ≠ some 'e' ∧ rest.head? ≠ some 'E') ∨
        ∃ exponent : ExponentText, text = exponent.text ++ rest ∧ NoDigit rest ∧
          value (digitsOf exponent.digits) ≤ rawScanProfile.maxExponent := by
  constructor
  · intro parsed
    have marked (upperCase : Bool) {afterMarker : List Char}
        (parsed : parseExponentDigits (skipSign afterMarker) = .ok rest) :
        ∃ exponent : ExponentText,
          (if upperCase then 'E' else 'e') :: afterMarker = exponent.text ++ rest ∧ NoDigit rest ∧
            value (digitsOf exponent.digits) ≤ rawScanProfile.maxExponent := by
      obtain ⟨digits, isDigits, equal, noDigit, small⟩ := parseExponentDigits_eq_ok.mp parsed
      obtain ⟨sign, signed⟩ := exists_skipSign afterMarker
      refine ⟨⟨upperCase, sign, digits, isDigits⟩, ?_, noDigit, small⟩
      rw [signed, equal]
      simp [ExponentText.text]
    unfold parseExponent at parsed
    split at parsed
    · exact .inr (marked false parsed)
    · exact .inr (marked true parsed)
    · rename_i notLower notUpper
      obtain rfl := Except.ok.inj parsed
      refine .inl ⟨rfl, fun lower => ?_, fun upper => ?_⟩
      · obtain ⟨tail, equal⟩ := List.head?_eq_some_iff.mp lower
        exact notLower tail equal
      · obtain ⟨tail, equal⟩ := List.head?_eq_some_iff.mp upper
        exact notUpper tail equal
  · rintro (⟨rfl, notLower, notUpper⟩ | ⟨exponent, rfl, noDigit, small⟩)
    · unfold parseExponent
      split
      · simp at notLower
      · simp at notUpper
      · rfl
    · rw [ExponentText.text, List.cons_append, parseExponent_marker, List.append_assoc,
        skipSign_signText _ (startsWithDigit_append exponent.isDigits rest)]
      exact parseExponentDigits_eq_ok.mpr ⟨_, exponent.isDigits, rfl, noDigit, small⟩

/-! ## Number tokens -/

theorem exists_skipMinus (text : List Char) :
    ∃ negative : Bool, text = (if negative then ['-'] else []) ++ skipMinus text := by
  unfold skipMinus
  split
  · exact ⟨true, rfl⟩
  · exact ⟨false, rfl⟩

theorem skipMinus_sign (negative : Bool) {text : List Char} (starts : startsWithDigit text = true) :
    skipMinus ((if negative then ['-'] else []) ++ text) = text := by
  cases negative
  · rw [if_neg (by decide), List.nil_append]
    unfold skipMinus
    split
    · simp [startsWithDigit, isAsciiDigit] at starts
    · rfl
  · rfl

/-- The cursor after a number token. -/
def afterNumber (cursor : Cursor) (token rest : List Char) : Cursor :=
  { cursor with rest := rest, numberBytes := cursor.numberBytes + token.length }

/-- The limits that one number token has to keep. -/
structure TokenFits (lexeme : NumberLexeme) : Prop where
  short : lexeme.text.length ≤ rawScanProfile.maxNumberBytes
  smallExponent : ∀ exponent ∈ lexeme.exponent, exponent.value.natAbs ≤ rawScanProfile.maxExponent

theorem exponent_natAbs (exponent : ExponentText) :
    exponent.value.natAbs = value (digitsOf exponent.digits) := by
  unfold ExponentText.value
  simp only
  split
  · rw [Int.natAbs_neg, Int.natAbs_natCast]
  · rw [Int.natAbs_natCast]

/-- What follows a number token cannot continue it. -/
def Delimited (text : List Char) : Prop :=
  ∀ character ∈ text.head?,
    isAsciiDigit character = false ∧ character ≠ '.' ∧ character ≠ 'e' ∧ character ≠ 'E'

/-- Whatever is read up to an exponent is a number without one. -/
theorem parse_coefficient_sound {text afterWhole afterFraction : List Char}
    (wholeParsed : parseWhole (skipMinus text) = .ok afterWhole)
    (fractionParsed : parseFraction afterWhole = .ok afterFraction) :
    ∃ lexeme : NumberLexeme, lexeme.exponent = none ∧ text = lexeme.text ++ afterFraction := by
  obtain ⟨negative, signed⟩ := exists_skipMinus text
  obtain ⟨whole, wholeDigits, canonical, wholeEqual, -⟩ := parseWhole_eq_ok.mp wholeParsed
  have fractional : ∃ fraction : Option (List Char), (∀ digits ∈ fraction, IsDigits digits) ∧
      afterWhole = (fraction.map ('.' :: ·)).getD [] ++ afterFraction := by
    rcases parseFraction_eq_ok.mp fractionParsed with ⟨rfl, -⟩ | ⟨digits, isDigits, rfl, -⟩
    · exact ⟨none, by simp, rfl⟩
    · exact ⟨some digits, by simpa using isDigits, rfl⟩
  obtain ⟨fraction, fractionDigits, rfl⟩ := fractional
  refine ⟨⟨negative, whole, fraction, none, wholeDigits, canonical, fractionDigits⟩, rfl, ?_⟩
  rw [signed, wholeEqual]
  cases fraction <;> simp [NumberLexeme.text, NumberLexeme.fractionText]

theorem scanToken_sound {text rest : List Char} (scanned : scanToken text = .ok rest) :
    ∃ lexeme : NumberLexeme, text = lexeme.text ++ rest ∧
      ∀ exponent ∈ lexeme.exponent, exponent.value.natAbs ≤ rawScanProfile.maxExponent := by
  unfold scanToken at scanned
  obtain ⟨afterWhole, wholeParsed, scanned⟩ := bind_eq_ok.mp scanned
  obtain ⟨afterFraction, fractionParsed, exponentParsed⟩ := bind_eq_ok.mp scanned
  obtain ⟨lexeme, plain, rfl⟩ := parse_coefficient_sound wholeParsed fractionParsed
  rcases parseExponent_eq_ok.mp exponentParsed with ⟨rfl, -⟩ | ⟨exponent, rfl, -, small⟩
  · exact ⟨lexeme, rfl, by simp [plain]⟩
  · refine ⟨{ lexeme with exponent := some exponent }, ?_, by simpa [exponent_natAbs] using small⟩
    simp [NumberLexeme.text, NumberLexeme.fractionText, plain]

/-- A number is read up to its exponent. -/
theorem parse_coefficient {lexeme : NumberLexeme} {rest : List Char} (delimited : Delimited rest) :
    parseWhole (skipMinus (lexeme.text ++ rest)) =
        .ok (lexeme.fractionText ++ ((lexeme.exponent.map ExponentText.text).getD [] ++ rest)) ∧
      parseFraction (lexeme.fractionText ++
        ((lexeme.exponent.map ExponentText.text).getD [] ++ rest)) =
        .ok ((lexeme.exponent.map ExponentText.text).getD [] ++ rest) := by
  obtain ⟨negative, whole, fraction, exponent, wholeDigits, canonical, fractionDigits⟩ := lexeme
  -- what follows the fraction is an exponent or a delimiter
  have afterFraction : NoDigit ((exponent.map ExponentText.text).getD [] ++ rest) ∧
      ((exponent.map ExponentText.text).getD [] ++ rest).head? ≠ some '.' := by
    cases exponent with
    | none =>
      exact ⟨fun character first => (delimited character first).1,
        fun point => (delimited '.' point).2.1 rfl⟩
    | some exponent =>
      cases upperCase : exponent.upperCase <;>
        simp [ExponentText.text, NoDigit, upperCase, isAsciiDigit]
  cases fraction with
  | none =>
    simp only [NumberLexeme.text, NumberLexeme.fractionText, List.append_nil, List.nil_append,
      List.append_assoc, skipMinus_sign _ (startsWithDigit_append wholeDigits _)]
    exact ⟨parseWhole_eq_ok.mpr ⟨_, wholeDigits, canonical, rfl, afterFraction.1⟩,
      parseFraction_eq_ok.mpr (.inl ⟨rfl, afterFraction.2⟩)⟩
  | some digits =>
    simp only [NumberLexeme.text, NumberLexeme.fractionText, List.append_assoc,
      skipMinus_sign _ (startsWithDigit_append wholeDigits _)]
    exact ⟨parseWhole_eq_ok.mpr ⟨_, wholeDigits, canonical, rfl, by simp [NoDigit, isAsciiDigit]⟩,
      parseFraction_eq_ok.mpr (.inr ⟨digits, fractionDigits digits rfl, rfl, afterFraction.1⟩)⟩

theorem scanToken_complete {lexeme : NumberLexeme} {rest : List Char} (delimited : Delimited rest)
    (small : ∀ exponent ∈ lexeme.exponent, exponent.value.natAbs ≤ rawScanProfile.maxExponent) :
    scanToken (lexeme.text ++ rest) = .ok rest := by
  obtain ⟨wholeParsed, fractionParsed⟩ := @parse_coefficient lexeme _ delimited
  refine bind_eq_ok.mpr ⟨_, wholeParsed, bind_eq_ok.mpr ⟨_, fractionParsed, ?_⟩⟩
  refine parseExponent_eq_ok.mpr ?_
  cases exponentEq : lexeme.exponent with
  | none =>
    exact .inl ⟨rfl, fun lower => (delimited 'e' lower).2.2.1 rfl,
      fun upper => (delimited 'E' upper).2.2.2 rfl⟩
  | some exponent =>
    exact .inr ⟨exponent, rfl, fun character first => (delimited character first).1,
      by simpa [exponent_natAbs] using small exponent exponentEq⟩

/-- Whatever is read as a number is one number token that keeps the limits. -/
theorem parseNumber_sound {cursor next : Cursor} (parsed : parseNumber cursor = .ok next) :
    ∃ (lexeme : NumberLexeme) (rest : List Char), cursor.rest = lexeme.text ++ rest ∧
      TokenFits lexeme ∧
      cursor.numberBytes + lexeme.text.length ≤ rawScanProfile.maxAggregateNumberBytes ∧
      next = afterNumber cursor lexeme.text rest := by
  obtain ⟨rest, scanned, charged⟩ := bind_eq_ok.mp parsed
  obtain ⟨lexeme, equal, small⟩ := scanToken_sound scanned
  rw [equal, List.length_append, Nat.add_sub_cancel] at charged
  split at charged
  · simp at charged
  · rename_i short
    obtain ⟨within, rfl⟩ := rawScanProfile.chargeNumberBytes_eq_ok.mp charged
    exact ⟨lexeme, rest, equal, ⟨Nat.not_lt.mp short, small⟩, within, rfl⟩

/-- A number token that keeps the limits is read as a whole. -/
theorem parseNumber_complete {cursor : Cursor} {lexeme : NumberLexeme} {rest : List Char}
    (equal : cursor.rest = lexeme.text ++ rest) (delimited : Delimited rest)
    (fits : TokenFits lexeme)
    (within : cursor.numberBytes + lexeme.text.length ≤ rawScanProfile.maxAggregateNumberBytes) :
    parseNumber cursor = .ok (afterNumber cursor lexeme.text rest) := by
  have scanned : scanToken cursor.rest = .ok rest := by
    rw [equal]
    exact scanToken_complete delimited fits.smallExponent
  refine bind_eq_ok.mpr ⟨rest, scanned, ?_⟩
  rw [equal, List.length_append, Nat.add_sub_cancel, if_neg (Nat.not_lt.mpr fits.short)]
  exact rawScanProfile.chargeNumberBytes_eq_ok.mpr ⟨within, rfl⟩

end RawJsonScanner

end FastMcp.RawAdmission
