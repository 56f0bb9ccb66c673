import FastMcp.Outcomes
import FastMcp.PercentCoding
import FastMcp.TextCutting
import Mathlib.Data.List.Forall2

/-! # Admission of OAuth parameters

An authorization query or a form body is split at its ampersands, and every
nonempty segment is decoded to a name and a value. Each endpoint defines some
names, which may not be repeated. The admitted parameters are listed in wire
order; of the values only the nonempty ones of defined names are kept.
-/

namespace FastMcp.OAuthParameters

open ByteText Outcomes PercentCoding TextCutting

/-! ## Endpoints -/

inductive OAuthParameterSource where
  | query
  | form
deriving DecidableEq, Repr

inductive OAuthParameterName where
  | responseType
  | clientId
  | redirectUri
  | resource
  | scope
  | state
  | codeChallenge
  | codeChallengeMethod
  | grantType
  | code
  | clientSecret
  | codeVerifier
  | refreshToken
  | token
  | tokenTypeHint
deriving DecidableEq, Repr

inductive OAuthParameterEndpoint where
  | authorizationQuery
  | tokenForm
  | revocationForm
  | introspectionForm
deriving DecidableEq, Repr

def maxOauthAuthorizationQueryBytes : Nat := 16 * 1024
def maxOauthFormBodyBytes : Nat := 16 * 1024
def maxOauthParameterPairs : Nat := 64
def maxOauthParameterNameBytes : Nat := 256
def maxOauthParameterValueBytes : Nat := 4096

namespace OAuthParameterEndpoint

def source : OAuthParameterEndpoint → OAuthParameterSource
  | authorizationQuery => .query
  | tokenForm | revocationForm | introspectionForm => .form

def maximumInputBytes : OAuthParameterEndpoint → Nat
  | authorizationQuery => maxOauthAuthorizationQueryBytes
  | tokenForm | revocationForm | introspectionForm => maxOauthFormBodyBytes

def definedParameter (endpoint : OAuthParameterEndpoint) (name : String) :
    Option OAuthParameterName :=
  match endpoint with
  | authorizationQuery =>
    match name with
    | "response_type" => some .responseType
    | "client_id" => some .clientId
    | "redirect_uri" => some .redirectUri
    | "resource" => some .resource
    | "scope" => some .scope
    | "state" => some .state
    | "code_challenge" => some .codeChallenge
    | "code_challenge_method" => some .codeChallengeMethod
    | _ => none
  | tokenForm =>
    match name with
    | "grant_type" => some .grantType
    | "code" => some .code
    | "redirect_uri" => some .redirectUri
    | "resource" => some .resource
    | "client_id" => some .clientId
    | "client_secret" => some .clientSecret
    | "code_verifier" => some .codeVerifier
    | "refresh_token" => some .refreshToken
    | "scope" => some .scope
    | _ => none
  | revocationForm | introspectionForm =>
    match name with
    | "token" => some .token
    | "token_type_hint" => some .tokenTypeHint
    | "client_id" => some .clientId
    | "client_secret" => some .clientSecret
    | _ => none

end OAuthParameterEndpoint

/-! ## Form decoding -/

def ampersand : UInt8 := 0x26
def equalsSign : UInt8 := 0x3d
def plusSign : UInt8 := 0x2b
def space : UInt8 := 0x20

inductive OAuthFormDecodeError where
  | tooLarge
  | malformedPercentEncoding
  | invalidUtf8
deriving DecidableEq, Repr

/-- The decoder's loop; the bound is checked after every byte it writes. -/
def decodeFrom (maximum : Nat) (decoded : Bytes) : Bytes → Except OAuthFormDecodeError Bytes
  | [] => .ok decoded
  | byte :: rest =>
    if byte = percent then
      match rest with
      | high :: low :: rest =>
        match hexValue high, hexValue low with
        | some high, some low =>
          let decoded := decoded ++ [high <<< 4 ||| low]
          if maximum < decoded.length then .error .tooLarge else decodeFrom maximum decoded rest
        | _, _ => .error .malformedPercentEncoding
      | _ => .error .malformedPercentEncoding
    else
      let decoded := decoded ++ [if byte = plusSign then space else byte]
      if maximum < decoded.length then .error .tooLarge else decodeFrom maximum decoded rest

def decodeOauthFormComponent (input : Bytes) (maximumOutputBytes : Nat) :
    Except OAuthFormDecodeError String := do
  let decoded ← decodeFrom maximumOutputBytes [] input
  orFail .invalidUtf8 (fromUtf8 decoded)

/-! ## Admission -/

/-- An admitted parameter without its value. -/
structure OAuthAdmittedParameter where
  source : OAuthParameterSource
  ordinal : Nat
  name : String
  valueLen : Nat
  defined : Bool
deriving DecidableEq, Repr

inductive OAuthParameterAdmissionError where
  | inputTooLarge
  | tooManyPairs
  | emptyName
  | nameTooLarge
  | valueTooLarge
  | malformedPercentEncoding
  | invalidUtf8
  | controlCharacter
  | duplicateDefinedParameter (parameter : OAuthParameterName) (source : OAuthParameterSource)
      (firstOrdinal duplicateOrdinal : Nat)
deriving DecidableEq, Repr

def OAuthParameterAdmissionError.ofDecode :
    OAuthFormDecodeError → OAuthParameterAdmissionError
  | .tooLarge => valueTooLarge
  | .malformedPercentEncoding => malformedPercentEncoding
  | .invalidUtf8 => invalidUtf8

/-- A decoding error of a name. -/
def OAuthParameterAdmissionError.ofNameDecode :
    OAuthFormDecodeError → OAuthParameterAdmissionError
  | .tooLarge => nameTooLarge
  | error => ofDecode error

/-- The admitted parameters of one request, with the values of the defined ones. -/
structure OAuthParameterAdmission where
  endpoint : OAuthParameterEndpoint
  source : OAuthParameterSource
  parameters : List OAuthAdmittedParameter
  defined : OAuthParameterName → Option String

/-- The collections that the loop over the segments fills. -/
structure Progress where
  parameters : List OAuthAdmittedParameter
  defined : OAuthParameterName → Option String
  seenDefined : OAuthParameterName → Option Nat
  ordinal : Nat

/-- The encoded name and value of a segment. -/
def rawPair (segment : Bytes) : Bytes × Bytes :=
  (splitOnce equalsSign segment).getD (segment, [])

/-- Note a decoded parameter. An empty value is not kept, but its name counts as seen. -/
def Progress.record (endpoint : OAuthParameterEndpoint) (progress : Progress)
    (pair : String × String) : Progress :=
  let defined := endpoint.definedParameter pair.1
  { parameters := progress.parameters ++ [⟨endpoint.source, progress.ordinal, pair.1,
      pair.2.utf8ByteSize, defined.isSome⟩]
    defined := fun parameter =>
      if defined = some parameter ∧ pair.2 ≠ "" then some pair.2 else progress.defined parameter
    seenDefined := fun parameter =>
      if defined = some parameter then some progress.ordinal else progress.seenDefined parameter
    ordinal := progress.ordinal + 1 }

/-- A defined name may not have been seen. -/
def Progress.checkDuplicate (endpoint : OAuthParameterEndpoint) (progress : Progress)
    (name : String) : Except OAuthParameterAdmissionError Unit :=
  match endpoint.definedParameter name with
  | none => .ok ()
  | some parameter =>
    match progress.seenDefined parameter with
    | none => .ok ()
    | some firstOrdinal => .error
        (.duplicateDefinedParameter parameter endpoint.source firstOrdinal progress.ordinal)

def admitPair (endpoint : OAuthParameterEndpoint) (progress : Progress) (segment : Bytes) :
    Except OAuthParameterAdmissionError Progress := do
  require (progress.ordinal < maxOauthParameterPairs) .tooManyPairs
  let (rawName, rawValue) := rawPair segment
  let name ← (decodeOauthFormComponent rawName maxOauthParameterNameBytes).mapError .ofNameDecode
  let value ← (decodeOauthFormComponent rawValue maxOauthParameterValueBytes).mapError .ofDecode
  require (name ≠ "") .emptyName
  require (¬ (name.toList.any isControl || value.toList.any isControl)) .controlCharacter
  progress.checkDuplicate endpoint name
  pure (progress.record endpoint (name, value))

/-- The segments that carry a parameter. -/
def segments (input : Bytes) : List Bytes :=
  (input.splitOn ampersand).filter (!·.isEmpty)

/-- An empty input has no segments, so its early return needs no case of its own. -/
def OAuthParameterAdmission.admit (endpoint : OAuthParameterEndpoint) (input : Bytes) :
    Except OAuthParameterAdmissionError OAuthParameterAdmission := do
  require (input.length ≤ endpoint.maximumInputBytes) .inputTooLarge
  let progress ← (segments input).foldlM (admitPair endpoint) ⟨[], fun _ => none, fun _ => none, 0⟩
  pure ⟨endpoint, endpoint.source, progress.parameters, progress.defined⟩

def OAuthParameterAdmission.takeDefinedValue (admission : OAuthParameterAdmission)
    (name : OAuthParameterName) : Option String × OAuthParameterAdmission :=
  (admission.defined name, { admission with
    defined := fun other => if other = name then none else admission.defined other })

/-! ## What decoding means -/

def plusAsSpace (byte : UInt8) : UInt8 :=
  if byte = plusSign then space else byte

/-- Plus signs are spaces, and every percent sign starts a complete triplet. -/
def formDecode (raw : Bytes) : Option Bytes :=
  decode (raw.map plusAsSpace)

variable {byte : UInt8} {maximum : Nat} {decoded content raw : Bytes}

theorem formDecode_plain (plain : byte ≠ percent) (rest : Bytes) :
    formDecode (byte :: rest) = (formDecode rest).map (plusAsSpace byte :: ·) := by
  have kept : plusAsSpace byte ≠ percent := by
    unfold plusAsSpace
    split
    · decide
    · exact plain
  rw [formDecode, List.map_cons, decode_cons_of_ne kept, formDecode]

theorem hexValue_plusAsSpace (byte : UInt8) : hexValue (plusAsSpace byte) = hexValue byte := by
  unfold plusAsSpace
  split
  · rename_i plus
    subst plus
    decide
  · rfl

theorem formDecode_percent (rest : Bytes) :
    formDecode (percent :: rest) =
      match rest with
      | high :: low :: rest =>
        match hexValue high, hexValue low with
        | some high, some low => (formDecode rest).map ((high <<< 4 ||| low) :: ·)
        | _, _ => none
      | _ => none := by
  have itself : plusAsSpace percent = percent := by decide
  rw [formDecode, List.map_cons, itself, decode.eq_def]
  rcases rest with _ | ⟨high, _ | ⟨low, rest⟩⟩
  · rfl
  · rfl
  · simp only [List.map_cons, if_pos, hexValue_plusAsSpace]
    rw [formDecode]
    cases hexValue high <;> cases hexValue low <;> cases decode (rest.map plusAsSpace) <;> rfl

/-- Writing one more byte, with the check of the bound behind it. -/
theorem decodeFrom_push {rest : Bytes} {whole : Option Bytes}
    (decodes : whole = (formDecode rest).map (byte :: ·))
    (continues : (decoded ++ [byte]).length ≤ maximum →
      (decodeFrom maximum (decoded ++ [byte]) rest = .ok content ↔ ∃ left,
        formDecode rest = some left ∧ content = (decoded ++ [byte]) ++ left ∧
          content.length ≤ maximum)) :
    (if maximum < (decoded ++ [byte]).length then .error .tooLarge
      else decodeFrom maximum (decoded ++ [byte]) rest) = .ok content ↔
      ∃ left, whole = some left ∧ content = decoded ++ left ∧ content.length ≤ maximum := by
  rw [decodes]
  simp only [Option.map_eq_some_iff]
  constructor
  · intro returned
    split at returned
    · contradiction
    · rename_i fits
      obtain ⟨left, found, rfl, short⟩ := (continues (Nat.not_lt.mp fits)).mp returned
      exact ⟨byte :: left, ⟨left, found, rfl⟩, by simp, short⟩
  · rintro ⟨-, ⟨left, found, rfl⟩, rfl, short⟩
    have fits : (decoded ++ [byte]).length ≤ maximum := by
      simp only [List.length_append, List.length_cons, List.length_nil] at short ⊢
      omega
    rw [if_neg (Nat.not_lt.mpr fits)]
    apply (continues fits).mpr
    exact ⟨left, found, by simp, short⟩

/-- The loop decodes what is left unless the result passes the bound. -/
theorem decodeFrom_eq_ok (within : decoded.length ≤ maximum) :
    decodeFrom maximum decoded raw = .ok content ↔
      ∃ left, formDecode raw = some left ∧ content = decoded ++ left ∧
        content.length ≤ maximum := by
  induction size : raw.length using Nat.strong_induction_on generalizing raw decoded with
  | _ size ih =>
  cases raw with
  | nil =>
    simp only [decodeFrom, formDecode, List.map_nil, decode, Except.ok.injEq, Option.some.injEq,
      exists_eq_left', List.append_nil]
    constructor
    · rintro rfl
      exact ⟨rfl, within⟩
    · exact fun found => found.1.symm
  | cons byte rest =>
    rw [decodeFrom.eq_def]
    by_cases sign : byte = percent
    · subst sign
      simp only [if_pos, formDecode_percent]
      rcases rest with _ | ⟨high, _ | ⟨low, rest⟩⟩
      · simp
      · simp
      · dsimp only
        cases highValue : hexValue high with
        | none => simp
        | some highBits =>
          cases lowValue : hexValue low with
          | none => simp
          | some lowBits =>
            apply decodeFrom_push rfl
            intro fits
            exact ih rest.length (by simp at size; omega) fits rfl
    · simp only [if_neg sign]
      apply decodeFrom_push (formDecode_plain sign rest)
      intro fits
      exact ih rest.length (by simp at size; omega) fits rfl

theorem decodeOauthFormComponent_eq_ok {bound : Nat} {text : String} :
    decodeOauthFormComponent raw bound = .ok text ↔
      formDecode raw = some (bytes text) ∧ (bytes text).length ≤ bound := by
  simp only [decodeOauthFormComponent, andThen_eq_ok, orFail_eq_ok,
    decodeFrom_eq_ok (show ([] : Bytes).length ≤ bound from Nat.zero_le bound), List.nil_append]
  constructor
  · rintro ⟨_, ⟨left, found, rfl, short⟩, decoded⟩
    rw [bytes_of_fromUtf8 decoded]
    exact ⟨found, short⟩
  · rintro ⟨found, short⟩
    exact ⟨_, ⟨_, found, rfl, short⟩, fromUtf8_bytes text⟩

/-! ## What is admitted -/

/-- A raw part of a segment spells a text within its bound and without control characters. -/
structure FormText (bound : Nat) (raw : Bytes) (text : String) : Prop where
  decodes : formDecode raw = some (bytes text)
  bounded : (bytes text).length ≤ bound
  printable : ∀ character ∈ text.toList, isControl character = false

/-- A segment spells a named parameter. -/
structure Spells (segment : Bytes) (pair : String × String) : Prop where
  name : FormText maxOauthParameterNameBytes (rawPair segment).1 pair.1
  value : FormText maxOauthParameterValueBytes (rawPair segment).2 pair.2
  named : pair.1 ≠ ""

variable (endpoint : OAuthParameterEndpoint)

/-- Two parameters are not the same one of those that the endpoint defines. -/
def Apart (first second : String × String) : Prop :=
  ∀ parameter, endpoint.definedParameter first.1 = some parameter →
    endpoint.definedParameter second.1 ≠ some parameter

/-- The input spells these parameters, in this order, and the endpoint admits them. -/
structure Admissible (input : Bytes) (pairs : List (String × String)) : Prop where
  size : input.length ≤ endpoint.maximumInputBytes
  count : (segments input).length ≤ maxOauthParameterPairs
  spelled : List.Forall₂ Spells (segments input) pairs
  apart : pairs.Pairwise (Apart endpoint)

/-- The only decoded value of a defined parameter, unless it is empty. -/
def valueOf (pairs : List (String × String)) (parameter : OAuthParameterName) : Option String :=
  (pairs.find? fun pair => endpoint.definedParameter pair.1 = some parameter).bind fun pair =>
    if pair.2 = "" then none else some pair.2

/-- The parameters as they are listed. -/
def listed (pairs : List (String × String)) : List OAuthAdmittedParameter :=
  pairs.mapIdx fun ordinal pair => ⟨endpoint.source, ordinal, pair.1, pair.2.utf8ByteSize,
    (endpoint.definedParameter pair.1).isSome⟩

/-- The collections after these parameters. -/
def Progress.after (pairs : List (String × String)) : Progress where
  parameters := listed endpoint pairs
  defined := valueOf endpoint pairs
  seenDefined := fun parameter =>
    pairs.findIdx? fun pair => endpoint.definedParameter pair.1 = some parameter
  ordinal := pairs.length

variable {endpoint}

variable {pairs : List (String × String)} {pair : String × String}

theorem not_defined_of_apart {parameter : OAuthParameterName}
    (fresh : ∀ earlier ∈ pairs, Apart endpoint earlier pair)
    (defined : endpoint.definedParameter pair.1 = some parameter) :
    ∀ earlier ∈ pairs, ¬ endpoint.definedParameter earlier.1 = some parameter :=
  fun earlier listed same => fresh earlier listed parameter same defined

/-- A parameter that is apart from all before it is recorded behind them. -/
theorem Progress.record_after (fresh : ∀ earlier ∈ pairs, Apart endpoint earlier pair) :
    (after endpoint pairs).record endpoint pair = after endpoint (pairs ++ [pair]) := by
  rw [record, after, after, Progress.mk.injEq]
  refine ⟨by simp [listed], ?_, ?_, by simp⟩
  · ext1 parameter
    by_cases defined : endpoint.definedParameter pair.1 = some parameter
    · have first : pairs.find? (fun earlier =>
          endpoint.definedParameter earlier.1 = some parameter) = none := by
        simpa using not_defined_of_apart fresh defined
      by_cases empty : pair.2 = "" <;> simp [valueOf, first, defined, empty]
    · simp [valueOf, defined]
  · ext1 parameter
    by_cases defined : endpoint.definedParameter pair.1 = some parameter
    · have first : pairs.findIdx? (fun earlier =>
          endpoint.definedParameter earlier.1 = some parameter) = none := by
        simpa using not_defined_of_apart fresh defined
      simp [List.findIdx?_append, first, defined]
    · simp [List.findIdx?_append, defined]

theorem Progress.checkDuplicate_after :
    (after endpoint pairs).checkDuplicate endpoint pair.1 = .ok () ↔
      ∀ earlier ∈ pairs, Apart endpoint earlier pair := by
  unfold checkDuplicate
  cases defined : endpoint.definedParameter pair.1 with
  | none => simp [Apart, defined]
  | some parameter =>
    have seen : (after endpoint pairs).seenDefined parameter = none ↔
        ∀ earlier ∈ pairs, Apart endpoint earlier pair := by
      simp only [after, List.findIdx?_eq_none_iff, decide_eq_false_iff_not, Apart, defined]
      constructor
      · intro absent earlier inside other same shared
        exact absent earlier inside (same.trans shared.symm)
      · exact fun fresh earlier inside same => fresh earlier inside parameter same rfl
    rw [← seen]
    dsimp only
    cases (after endpoint pairs).seenDefined parameter <;> simp

/-- One turn of the loop. -/
theorem admitPair_after {segment : Bytes} {next : Progress} :
    admitPair endpoint (.after endpoint pairs) segment = .ok next ↔
      pairs.length < maxOauthParameterPairs ∧ ∃ pair, Spells segment pair ∧
        (∀ earlier ∈ pairs, Apart endpoint earlier pair) ∧
        next = .after endpoint (pairs ++ [pair]) := by
  simp only [admitPair, andThen_eq_ok, require_eq_ok, mapError_eq_ok, exists_const,
    decodeOauthFormComponent_eq_ok, pure, Except.pure, Except.ok.injEq, Bool.not_eq_true,
    Bool.or_eq_false_iff, List.any_eq_false]
  constructor
  · rintro ⟨room, name, ⟨nameDecodes, nameFits⟩, value, ⟨valueDecodes, valueFits⟩, named,
      ⟨namePrints, valuePrints⟩, ⟨⟩, unseen, rfl⟩
    have fresh : ∀ earlier ∈ pairs, Apart endpoint earlier (name, value) :=
      Progress.checkDuplicate_after.mp unseen
    exact ⟨room, (name, value), ⟨⟨nameDecodes, nameFits, namePrints⟩,
      ⟨valueDecodes, valueFits, valuePrints⟩, named⟩, fresh, Progress.record_after fresh⟩
  · rintro ⟨room, ⟨name, value⟩, spells, fresh, rfl⟩
    exact ⟨room, name, ⟨spells.name.decodes, spells.name.bounded⟩, value,
      ⟨spells.value.decodes, spells.value.bounded⟩, spells.named,
      ⟨spells.name.printable, spells.value.printable⟩, (), Progress.checkDuplicate_after.mpr fresh,
      Progress.record_after fresh⟩

/-- The loop from any point on. -/
theorem foldlM_admitPair {done : List (String × String)} {left : List Bytes} {final : Progress}
    (few : done.length ≤ maxOauthParameterPairs) (apart : done.Pairwise (Apart endpoint)) :
    left.foldlM (admitPair endpoint) (.after endpoint done) = .ok final ↔
      ∃ pairs, List.Forall₂ Spells left pairs ∧
        done.length + left.length ≤ maxOauthParameterPairs ∧
        (done ++ pairs).Pairwise (Apart endpoint) ∧ final = .after endpoint (done ++ pairs) := by
  induction left generalizing done with
  | nil =>
    simp only [List.foldlM_nil, pure, Except.pure, Except.ok.injEq, List.forall₂_nil_left_iff]
    constructor
    · rintro rfl
      exact ⟨[], rfl, few, by simpa using apart, by simp⟩
    · rintro ⟨-, rfl, -, -, rfl⟩
      simp
  | cons segment left ih =>
    simp only [List.foldlM_cons, andThen_eq_ok, admitPair_after, List.forall₂_cons_left_iff]
    constructor
    · rintro ⟨-, ⟨room, pair, spells, fresh, rfl⟩, rest⟩
      have apartNext : (done ++ [pair]).Pairwise (Apart endpoint) := by
        simpa [List.pairwise_append, apart] using fun name value => fresh (name, value)
      obtain ⟨pairs, spelled, count, distinct, rfl⟩ := (ih (by simp; omega) apartNext).mp rest
      simp only [List.append_assoc, List.cons_append, List.nil_append] at distinct ⊢
      refine ⟨pair :: pairs, ⟨pair, pairs, spells, spelled, rfl⟩, ?_, distinct, rfl⟩
      simp only [List.length_append, List.length_cons, List.length_nil] at count ⊢
      omega
    · rintro ⟨-, ⟨pair, pairs, spells, spelled, rfl⟩, count, distinct, rfl⟩
      have fresh : ∀ earlier ∈ done, Apart endpoint earlier pair := by
        intro earlier inside
        exact (List.pairwise_append.mp distinct).2.2 earlier inside pair List.mem_cons_self
      have apartNext : (done ++ [pair]).Pairwise (Apart endpoint) := by
        simpa [List.pairwise_append, apart] using fun name value => fresh (name, value)
      simp only [List.length_cons] at count
      refine ⟨_, ⟨by omega, pair, spells, fresh, rfl⟩, (ih (by simp; omega) apartNext).mpr ?_⟩
      refine ⟨pairs, spelled, ?_, by simpa using distinct, by simp⟩
      simp
      omega

/-- An input is admitted exactly when it spells admissible parameters. The admission then lists
them all in wire order, and what is taken for a defined parameter is its only value. -/
theorem admit_eq_ok_iff (endpoint : OAuthParameterEndpoint) (input : Bytes)
    (admission : OAuthParameterAdmission) :
    OAuthParameterAdmission.admit endpoint input = .ok admission ↔
      ∃ pairs, Admissible endpoint input pairs ∧ admission.endpoint = endpoint ∧
        admission.source = endpoint.source ∧ admission.parameters = listed endpoint pairs ∧
        ∀ parameter,
          (admission.takeDefinedValue parameter).1 = valueOf endpoint pairs parameter := by
  have start : (⟨[], fun _ => none, fun _ => none, 0⟩ : Progress) = .after endpoint [] := rfl
  simp only [andThen_eq_ok, OAuthParameterAdmission.admit, require_eq_ok, exists_const, start,
    foldlM_admitPair (Nat.zero_le _) List.Pairwise.nil, List.nil_append, List.length_nil,
    Nat.zero_add, pure, Except.pure, Except.ok.injEq, OAuthParameterAdmission.takeDefinedValue]
  constructor
  · rintro ⟨size, -, ⟨pairs, spelled, count, apart, rfl⟩, rfl⟩
    exact ⟨pairs, ⟨size, count, spelled, apart⟩, rfl, rfl, rfl, fun _ => rfl⟩
  · rintro ⟨pairs, ⟨size, count, spelled, apart⟩, rfl, source, parameters, values⟩
    refine ⟨size, _, ⟨pairs, spelled, count, apart, rfl⟩, ?_⟩
    obtain ⟨endpoint, source, parameters, defined⟩ := admission
    simp_all [Progress.after, funext_iff]

end FastMcp.OAuthParameters
