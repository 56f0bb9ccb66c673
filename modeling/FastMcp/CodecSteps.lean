import FastMcp.CodecAdmission
import FastMcp.RawJsonNumberTokens

/-! # The steps of the two admission scanners

Strings, literals, number tokens and budgets: each step of the codec's scanner
succeeds exactly when the protocol's does, and with the same cursor.
-/

namespace FastMcp.TransportCodec

open ByteText RawAdmission JsonGrammar JsonNumbers Outcomes

namespace JsonAdmission

/-! ## Number tokens

The codec checks the length of a token while it reads it, the protocol only at
its end. What is left to read only gets shorter, so the last check decides.
-/

/-- The part of a token that has been read is within the limit. -/
def TokenWithin (start rest : List Char) : Prop :=
  start.length - rest.length ≤ codecScanProfile.maxNumberBytes

variable {start text rest : List Char} {cursor next : Cursor}

theorem TokenWithin.of_shorter (within : TokenWithin start rest)
    (shorter : rest.length ≤ text.length) : TokenWithin start text := by
  unfold TokenWithin at within ⊢
  omega

theorem ensure_bind_eq_ok {Result : Type} {next : Except JsonAdmissionError Result}
    {value : Result} :
    (ensureNumberTokenWithinLimit start rest).bind (fun _ => next) = .ok value ↔
      TokenWithin start rest ∧ next = .ok value := by
  unfold ensureNumberTokenWithinLimit TokenWithin
  split
  · rename_i long
    simp only [Except.bind, reduceCtorEq, false_iff, not_and]
    exact fun short => absurd short (Nat.not_le.mpr long)
  · rename_i short
    simp only [Except.bind, iff_and_self]
    exact fun _ => Nat.not_lt.mp short

/-- A part of a token that the codec reads like the protocol does. -/
def Tracks (start : List Char) (codec : List Char → Except JsonAdmissionError (List Char))
    (protocol : List Char → Except RawJsonAdmissionError (List Char)) : Prop :=
  ∀ text rest, TokenWithin start text →
    (codec text = .ok rest ↔ protocol text = .ok rest ∧ TokenWithin start rest)

def Shrinks (protocol : List Char → Except RawJsonAdmissionError (List Char)) : Prop :=
  ∀ text rest, protocol text = .ok rest → rest.length ≤ text.length

variable {protocol nextProtocol : List Char → Except RawJsonAdmissionError (List Char)}
  {limit : Nat} {result : Option String × Cursor}

theorem Tracks.bind {codec nextCodec : List Char → Except JsonAdmissionError (List Char)}
    (first : Tracks start codec protocol) (second : Tracks start nextCodec nextProtocol)
    (shrinks : Shrinks nextProtocol) :
    Tracks start (fun text => (codec text).bind nextCodec)
      (fun text => (protocol text).bind nextProtocol) := by
  intro text rest within
  simp only [bind_eq_ok]
  constructor
  · rintro ⟨middle, read, continued⟩
    obtain ⟨protocolRead, middleWithin⟩ := (first text middle within).mp read
    obtain ⟨protocolContinued, restWithin⟩ := (second middle rest middleWithin).mp continued
    exact ⟨⟨middle, protocolRead, protocolContinued⟩, restWithin⟩
  · rintro ⟨⟨middle, read, continued⟩, restWithin⟩
    have middleWithin := restWithin.of_shorter (shrinks middle rest continued)
    exact ⟨middle, (first text middle within).mpr ⟨read, middleWithin⟩,
      (second middle rest middleWithin).mpr ⟨continued, restWithin⟩⟩

theorem Shrinks.bind (first : Shrinks protocol) (second : Shrinks nextProtocol) :
    Shrinks fun text => (protocol text).bind nextProtocol := by
  intro text rest read
  obtain ⟨middle, middleRead, continued⟩ := bind_eq_ok.mp read
  exact Nat.le_trans (second middle rest continued) (first text middle middleRead)

theorem consumeNumberDigits_eq_ok (within : TokenWithin start text) :
    consumeNumberDigits start text = .ok rest ↔
      rest = RawJsonScanner.consumeDigits text ∧ TokenWithin start rest := by
  induction text with
  | nil =>
    simp only [consumeNumberDigits, RawJsonScanner.consumeDigits, List.dropWhile_nil,
      Except.ok.injEq]
    constructor
    · rintro rfl
      exact ⟨rfl, within⟩
    · rintro ⟨rfl, -⟩
      rfl
  | cons first text ih =>
    rw [consumeNumberDigits]
    by_cases digit : isAsciiDigit first = true
    · have same : RawJsonScanner.consumeDigits (first :: text) =
          RawJsonScanner.consumeDigits text := by
        simp [RawJsonScanner.consumeDigits, digit]
      rw [if_pos digit, ensure_bind_eq_ok, same]
      constructor
      · rintro ⟨textWithin, consumed⟩
        exact (ih textWithin).mp consumed
      · rintro ⟨rfl, restWithin⟩
        have textWithin : TokenWithin start text :=
          restWithin.of_shorter (List.dropWhile_sublist _).length_le
        exact ⟨textWithin, (ih textWithin).mpr ⟨rfl, restWithin⟩⟩
    · have same : RawJsonScanner.consumeDigits (first :: text) = first :: text := by
        simp [RawJsonScanner.consumeDigits, digit]
      rw [if_neg digit, same, Except.ok.injEq]
      constructor
      · rintro rfl
        exact ⟨rfl, within⟩
      · rintro ⟨rfl, -⟩
        rfl

/-- One character and the digits after it. -/
theorem consume_after :
    (ensureNumberTokenWithinLimit start text).bind (fun _ => consumeNumberDigits start text) =
        .ok rest ↔
      rest = RawJsonScanner.consumeDigits text ∧ TokenWithin start rest := by
  rw [ensure_bind_eq_ok]
  constructor
  · rintro ⟨within, consumed⟩
    exact (consumeNumberDigits_eq_ok within).mp consumed
  · rintro ⟨rfl, restWithin⟩
    have within : TokenWithin start text :=
      restWithin.of_shorter (List.dropWhile_sublist _).length_le
    exact ⟨within, (consumeNumberDigits_eq_ok within).mpr ⟨rfl, restWithin⟩⟩

/-- Where nothing is read, nothing is checked. -/
theorem unread_iff (within : TokenWithin start text) :
    (.ok text : Except JsonAdmissionError (List Char)) = .ok rest ↔
      (.ok text : Except RawJsonAdmissionError (List Char)) = .ok rest ∧ TokenWithin start rest := by
  rw [Except.ok.injEq, Except.ok.injEq]
  constructor
  · rintro rfl
    exact ⟨rfl, within⟩
  · exact And.left

theorem parseWhole_tracks (start : List Char) :
    Tracks start (parseWhole start) RawJsonScanner.parseWhole := by
  intro text rest within
  cases text with
  | nil => simp [parseWhole, RawJsonScanner.parseWhole]
  | cons first text =>
    rw [parseWhole, RawJsonScanner.parseWhole]
    split
    · rw [ensure_bind_eq_ok]
      split
      · simp
      · simp only [Except.ok.injEq]
        constructor
        · rintro ⟨textWithin, rfl⟩
          exact ⟨rfl, textWithin⟩
        · rintro ⟨rfl, textWithin⟩
          exact ⟨textWithin, rfl⟩
    · split
      · rw [consume_after, Except.ok.injEq, eq_comm]
      · simp

theorem parseFraction_tracks (start : List Char) :
    Tracks start (parseFraction start) RawJsonScanner.parseFraction := by
  intro text rest within
  unfold parseFraction
  split
  · rename_i afterPoint
    rw [RawJsonScanner.parseFraction]
    by_cases starts : RawJsonScanner.startsWithDigit afterPoint = true
    · simp only [starts, if_true]
      rw [consume_after, Except.ok.injEq, eq_comm]
    · simp only [starts]
      rw [ensure_bind_eq_ok]
      simp
  · rename_i noPoint
    have plain : RawJsonScanner.parseFraction text = .ok text := by
      rw [RawJsonScanner.parseFraction]
      exact noPoint
    rw [plain]
    exact unread_iff within

theorem parseExponentSign_tracks (start : List Char) :
    Tracks start (parseExponentSign start) (fun text => .ok (RawJsonScanner.skipSign text)) := by
  intro text rest within
  have signed (afterSign : List Char) :
      (ensureNumberTokenWithinLimit start afterSign).map (fun _ => afterSign) = .ok rest ↔
        afterSign = rest ∧ TokenWithin start rest := by
    change (ensureNumberTokenWithinLimit start afterSign).bind (fun _ => .ok afterSign) = .ok rest ↔ _
    rw [ensure_bind_eq_ok, Except.ok.injEq]
    constructor
    · rintro ⟨short, rfl⟩
      exact ⟨rfl, short⟩
    · rintro ⟨rfl, short⟩
      exact ⟨short, rfl⟩
  unfold parseExponentSign
  split
  · rw [signed]
    simp [RawJsonScanner.skipSign]
  · rw [signed]
    simp [RawJsonScanner.skipSign]
  · rename_i noPlus noMinus
    have plain : RawJsonScanner.skipSign text = text := by
      rw [RawJsonScanner.skipSign]
      · exact noPlus
      · exact noMinus
    simp only [plain]
    exact unread_iff within

theorem take_consumedDigits (text : List Char) :
    text.take (text.length - (RawJsonScanner.consumeDigits text).length) =
      text.takeWhile isAsciiDigit := by
  have split : text.takeWhile isAsciiDigit ++ RawJsonScanner.consumeDigits text = text :=
    List.takeWhile_append_dropWhile
  have lengths := congrArg List.length split
  rw [List.length_append] at lengths
  have count : text.length - (RawJsonScanner.consumeDigits text).length =
      (text.takeWhile isAsciiDigit).length := by
    omega
  rw [count]
  nth_rewrite 2 [← split]
  exact List.take_left

theorem parseExponentDigits_tracks (start : List Char) :
    Tracks start (parseExponentDigits start) RawJsonScanner.parseExponentDigits := by
  intro text rest within
  unfold parseExponentDigits RawJsonScanner.parseExponentDigits
  split
  · rw [bind_eq_ok]
    constructor
    · rintro ⟨consumed, read, checked⟩
      obtain ⟨rfl, restWithin⟩ := (consumeNumberDigits_eq_ok within).mp read
      rw [take_consumedDigits] at checked
      split at checked
      · simp at checked
      · rename_i small
        obtain rfl := Except.ok.inj checked
        exact ⟨if_neg small, restWithin⟩
    · rintro ⟨checked, restWithin⟩
      split at checked
      · simp at checked
      · rename_i small
        obtain rfl := Except.ok.inj checked
        refine ⟨_, (consumeNumberDigits_eq_ok within).mpr ⟨rfl, restWithin⟩, ?_⟩
        rw [take_consumedDigits]
        exact if_neg small
  · simp

theorem parseExponentDigits_shrinks : Shrinks RawJsonScanner.parseExponentDigits := by
  intro text rest parsed
  obtain ⟨digits, -, rfl, -⟩ := RawJsonScanner.parseExponentDigits_eq_ok.mp parsed
  simp

theorem parseExponent_tracks (start : List Char) :
    Tracks start (parseExponent start) RawJsonScanner.parseExponent := by
  intro text rest within
  have marked (afterMarker : List Char) :
      ((ensureNumberTokenWithinLimit start afterMarker).bind fun _ =>
          (parseExponentSign start afterMarker).bind (parseExponentDigits start)) = .ok rest ↔
        RawJsonScanner.parseExponentDigits (RawJsonScanner.skipSign afterMarker) = .ok rest ∧
          TokenWithin start rest := by
    have tracks := (parseExponentSign_tracks start).bind (parseExponentDigits_tracks start)
      parseExponentDigits_shrinks
    rw [ensure_bind_eq_ok]
    constructor
    · rintro ⟨markerWithin, read⟩
      exact (tracks afterMarker rest markerWithin).mp read
    · rintro ⟨read, restWithin⟩
      have shorter : rest.length ≤ afterMarker.length := by
        obtain ⟨sign, equal⟩ := RawJsonScanner.exists_skipSign afterMarker
        have lengths := congrArg List.length equal
        rw [List.length_append] at lengths
        have shrunk := parseExponentDigits_shrinks _ _ read
        omega
      have markerWithin := restWithin.of_shorter shorter
      exact ⟨markerWithin, (tracks afterMarker rest markerWithin).mpr ⟨read, restWithin⟩⟩
  unfold parseExponent
  split
  · exact marked _
  · exact marked _
  · rename_i notLower notUpper
    have plain : RawJsonScanner.parseExponent text = .ok text := by
      rw [RawJsonScanner.parseExponent]
      · exact notLower
      · exact notUpper
    rw [plain]
    exact unread_iff within

theorem parseFraction_shrinks : Shrinks RawJsonScanner.parseFraction := by
  intro text rest parsed
  rcases RawJsonScanner.parseFraction_eq_ok.mp parsed with ⟨rfl, -⟩ | ⟨digits, -, rfl, -⟩
  · exact Nat.le_refl _
  · simp only [List.length_cons, List.length_append]
    omega

theorem parseExponent_shrinks : Shrinks RawJsonScanner.parseExponent := by
  intro text rest parsed
  rcases RawJsonScanner.parseExponent_eq_ok.mp parsed with ⟨rfl, -⟩ | ⟨exponent, rfl, -⟩
  · exact Nat.le_refl _
  · simp

theorem parseWhole_shrinks : Shrinks RawJsonScanner.parseWhole := by
  intro text rest parsed
  obtain ⟨whole, -, -, rfl, -⟩ := RawJsonScanner.parseWhole_eq_ok.mp parsed
  simp

theorem scanToken_eq_ok :
    scanToken start = .ok rest ↔
      RawJsonScanner.scanToken start = .ok rest ∧ TokenWithin start rest := by
  have afterWhole := (parseFraction_tracks start).bind (parseExponent_tracks start)
    parseExponent_shrinks
  have afterWholeShrinks := parseFraction_shrinks.bind parseExponent_shrinks
  have tracks := (parseWhole_tracks start).bind afterWhole afterWholeShrinks
  have shrinks := parseWhole_shrinks.bind afterWholeShrinks
  unfold scanToken
  rw [ensure_bind_eq_ok]
  constructor
  · rintro ⟨signWithin, scanned⟩
    exact (tracks _ rest signWithin).mp scanned
  · rintro ⟨scanned, within⟩
    have signWithin := within.of_shorter (shrinks _ rest scanned)
    exact ⟨signWithin, (tracks _ rest signWithin).mpr ⟨scanned, within⟩⟩

/-! ## The steps that the scanners share -/

theorem enterContainer_iff {depth nested : Nat} :
    enterContainer depth = .ok nested ↔ RawJsonScanner.enterContainer depth = .ok nested := by
  rw [codecScanProfile.enterContainer_eq_ok, rawScanProfile.enterContainer_eq_ok]
  rfl

theorem chargeContainerEntry_iff :
    chargeContainerEntry cursor = .ok next ↔
      RawJsonScanner.chargeContainerEntry cursor = .ok next := by
  rw [codecScanProfile.chargeContainerEntry_eq_ok, rawScanProfile.chargeContainerEntry_eq_ok]
  rfl

theorem parseLiteral_iff {literal : List Char} :
    parseLiteral literal cursor = .ok next ↔
      RawJsonScanner.parseLiteral literal cursor = .ok next := by
  rw [codecScanProfile.parseLiteral_eq_ok, rawScanProfile.parseLiteral_eq_ok]

theorem parseStringLoop_iff {turns : Nat} {decoded : Option String} :
    codecScanProfile.parseStringLoop limit turns decoded cursor = .ok result ↔
      rawScanProfile.parseStringLoop limit turns decoded cursor = .ok result := by
  induction turns generalizing decoded cursor with
  | zero => simp [ScanProfile.parseStringLoop]
  | succ turns ih =>
    rw [ScanProfile.parseStringLoop, ScanProfile.parseStringLoop]
    split
    · simp
    · simp
    · simp only [bind_eq_ok, codecScanProfile.chargeStringBytes_eq_ok,
        rawScanProfile.chargeStringBytes_eq_ok, ih]

theorem parseString_iff {capture : Bool} :
    parseString limit capture cursor = .ok result ↔
      RawJsonScanner.parseString limit capture cursor = .ok result := by
  unfold parseString RawJsonScanner.parseString ScanProfile.parseString
  split
  · simp
  · exact parseStringLoop_iff

/-- The codec reads the same number tokens as the protocol. -/
theorem parseNumber_iff :
    parseNumber cursor = .ok next ↔ RawJsonScanner.parseNumber cursor = .ok next := by
  unfold parseNumber RawJsonScanner.parseNumber
  simp only [bind_eq_ok, scanToken_eq_ok, codecScanProfile.chargeNumberBytes_eq_ok]
  constructor
  · rintro ⟨rest, ⟨scanned, within⟩, charged⟩
    refine ⟨rest, scanned, ?_⟩
    rw [if_neg (show ¬_ > rawScanProfile.maxNumberBytes from Nat.not_lt.mpr within)]
    exact rawScanProfile.chargeNumberBytes_eq_ok.mpr charged
  · rintro ⟨rest, scanned, charged⟩
    split at charged
    · simp at charged
    · rename_i within
      exact ⟨rest, ⟨scanned, Nat.not_lt.mp within⟩,
        rawScanProfile.chargeNumberBytes_eq_ok.mp charged⟩

end JsonAdmission

end FastMcp.TransportCodec
