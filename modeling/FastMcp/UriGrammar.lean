import FastMcp.PercentCoding
import FastMcp.TextCutting

/-! # The grammar of URIs

The generic syntax of RFC 3986, as predicates on byte strings: a scheme, a
hierarchical part with an optional authority and a path, a query and a fragment.
Every component consists of plain bytes of its own class and of complete
percent triplets. The syntax of IPv6 addresses is a parameter.

The classes of bytes are disjoint from the delimiters, so that components can be
recognized by their bytes alone once all triplets are complete.
-/

namespace FastMcp.UriGrammar

open ByteText PercentCoding TextCutting

/-! ## Bytes -/

def slash : UInt8 := 0x2f
def questionMark : UInt8 := 0x3f
def hash : UInt8 := 0x23
def atSign : UInt8 := 0x40
def openBracket : UInt8 := 0x5b
def closeBracket : UInt8 := 0x5d
def dot : UInt8 := 0x2e

def isDigit (byte : UInt8) : Bool := 0x30 ≤ byte && byte ≤ 0x39

def isAlpha (byte : UInt8) : Bool :=
  (0x41 ≤ byte && byte ≤ 0x5a) || (0x61 ≤ byte && byte ≤ 0x7a)

def isSchemeByte (byte : UInt8) : Bool :=
  isAlpha byte || isDigit byte || (bytes "+-.").contains byte

def isUnreserved (byte : UInt8) : Bool :=
  isAlpha byte || isDigit byte || (bytes "-._~").contains byte

def isSubDelim (byte : UInt8) : Bool := (bytes "!$&'()*+,;=").contains byte

def isGenDelim (byte : UInt8) : Bool := (bytes ":/?#[]@").contains byte

/-- The bytes that may stand in a URI besides triplets. -/
def isUriPlain (byte : UInt8) : Bool := isUnreserved byte || isGenDelim byte || isSubDelim byte

def isRegNamePlain (byte : UInt8) : Bool := isUnreserved byte || isSubDelim byte

def isUserinfoPlain (byte : UInt8) : Bool := isRegNamePlain byte || byte == colon

def isPcharPlain (byte : UInt8) : Bool := isUserinfoPlain byte || byte == atSign

def isQueryPlain (byte : UInt8) : Bool :=
  isPcharPlain byte || byte == slash || byte == questionMark

/-! ## Components -/

/-- Plain bytes and percent triplets, in any order. -/
inductive Encoded (plain : UInt8 → Bool) : Bytes → Prop
  | nil : Encoded plain []
  | plain {byte : UInt8} {rest : Bytes} (isPlain : plain byte = true)
    (encoded : Encoded plain rest) : Encoded plain (byte :: rest)
  | triplet {high low : UInt8} {rest : Bytes} (isHigh : isHexDigit high = true)
    (isLow : isHexDigit low = true) (encoded : Encoded plain rest) :
    Encoded plain (percent :: high :: low :: rest)

def Scheme (text : Bytes) : Prop :=
  ∃ first rest, text = first :: rest ∧ isAlpha first = true ∧
    ∀ byte ∈ rest, isSchemeByte byte = true

def IpvFuture (text : Bytes) : Prop :=
  ∃ letter version address, text = letter :: (version ++ dot :: address) ∧
    (letter = 0x76 ∨ letter = 0x56) ∧
    (version ≠ [] ∧ ∀ byte ∈ version, isHexDigit byte = true) ∧
    address ≠ [] ∧ ∀ byte ∈ address, isUserinfoPlain byte = true

variable (isIpv6Address : Bytes → Bool)

def IpLiteral (text : Bytes) : Prop :=
  ∃ literal, text = openBracket :: (literal ++ [closeBracket]) ∧
    (isIpv6Address literal = true ∨ IpvFuture literal)

/-- A registered name or an address in brackets. Every IPv4 address is a registered name. -/
def Host (text : Bytes) : Prop :=
  IpLiteral isIpv6Address text ∨ Encoded isRegNamePlain text

/-- A component behind its delimiter, if it is present. -/
def optionalPart (delimiter : UInt8) : Option Bytes → Bytes
  | none => []
  | some text => delimiter :: text

def HostPort (text : Bytes) : Prop :=
  ∃ host port, text = host ++ optionalPart colon port ∧ Host isIpv6Address host ∧
    ∀ digits ∈ port, ∀ byte ∈ digits, isDigit byte = true

def Authority (text : Bytes) : Prop :=
  HostPort isIpv6Address text ∨
    ∃ userinfo hostPort, text = userinfo ++ atSign :: hostPort ∧ Encoded isUserinfoPlain userinfo ∧
      HostPort isIpv6Address hostPort

inductive PathAbempty : Bytes → Prop
  | nil : PathAbempty []
  | segment {text rest : Bytes} (segment : Encoded isPcharPlain text) (more : PathAbempty rest) :
    PathAbempty (slash :: (text ++ rest))

def PathRootless (text : Bytes) : Prop :=
  ∃ segment rest, text = segment ++ rest ∧ segment ≠ [] ∧ Encoded isPcharPlain segment ∧
    PathAbempty rest

def PathAbsolute (text : Bytes) : Prop :=
  ∃ rest, text = slash :: rest ∧ (rest = [] ∨ PathRootless rest)

def HierPart (text : Bytes) : Prop :=
  (∃ authority path, text = slash :: slash :: (authority ++ path) ∧
    Authority isIpv6Address authority ∧ PathAbempty path) ∨
    PathAbsolute text ∨ PathRootless text ∨ text = []

/-- The components of a URI in their places. -/
def assemble (scheme hierPart : Bytes) (query fragment : Option Bytes) : Bytes :=
  scheme ++ colon :: (hierPart ++ optionalPart questionMark query ++ optionalPart hash fragment)

def Uri (text : Bytes) : Prop :=
  ∃ scheme hierPart query fragment, text = assemble scheme hierPart query fragment ∧
    Scheme scheme ∧ HierPart isIpv6Address hierPart ∧
    (∀ part ∈ query, Encoded isQueryPlain part) ∧ ∀ part ∈ fragment, Encoded isQueryPlain part

/-! ## Complete triplets -/

/-- Every percent sign begins a triplet. -/
def CompleteTriplets (text : Bytes) : Prop := Encoded (· != percent) text

variable {plain : UInt8 → Bool} {text first second : Bytes}

theorem Encoded.of_plain (allPlain : ∀ byte ∈ text, plain byte = true) : Encoded plain text := by
  induction text with
  | nil => exact .nil
  | cons byte text ih =>
    obtain ⟨isPlain, allPlain⟩ := List.forall_mem_cons.mp allPlain
    exact .plain isPlain (ih allPlain)

theorem completeTriplets_of_notMem (absent : percent ∉ text) : CompleteTriplets text := by
  apply Encoded.of_plain
  intro byte listed
  simpa using fun same : byte = percent => absent (same ▸ listed)

theorem Encoded.mono {other : UInt8 → Bool}
    (more : ∀ byte, plain byte = true → other byte = true) (encoded : Encoded plain text) :
    Encoded other text := by
  induction encoded with
  | nil => exact .nil
  | plain isPlain _ ih => exact .plain (more _ isPlain) ih
  | triplet isHigh isLow _ ih => exact .triplet isHigh isLow ih

theorem Encoded.append (left : Encoded plain first) (right : Encoded plain second) :
    Encoded plain (first ++ second) := by
  induction left with
  | nil => exact right
  | plain isPlain _ ih => exact .plain isPlain ih
  | triplet isHigh isLow _ ih => exact .triplet isHigh isLow ih

/-- No triplet reaches across a byte that is not hexadecimal. -/
theorem Encoded.split {delimiter : UInt8} (notHex : isHexDigit delimiter = false)
    (notPercent : delimiter ≠ percent) (encoded : Encoded plain (first ++ delimiter :: second)) :
    Encoded plain first ∧ Encoded plain second := by
  generalize isText : first ++ delimiter :: second = text at encoded
  induction encoded generalizing first with
  | nil => simp at isText
  | plain isPlain encoded ih =>
    cases first with
    | nil =>
      obtain ⟨-, rfl⟩ := List.cons.inj isText
      exact ⟨.nil, encoded⟩
    | cons byte first =>
      obtain ⟨rfl, rest⟩ := List.cons.inj isText
      obtain ⟨left, right⟩ := ih rest
      exact ⟨.plain isPlain left, right⟩
  | triplet isHigh isLow encoded ih =>
    match first, isText with
    | [], isText => exact absurd (List.cons.inj isText).1 notPercent
    | [_], isText =>
      rw [← (List.cons.inj (List.cons.inj isText).2).1, notHex] at isHigh
      contradiction
    | [_, _], isText =>
      rw [← (List.cons.inj (List.cons.inj (List.cons.inj isText).2).2).1, notHex] at isLow
      contradiction
    | _ :: _ :: _ :: first, isText =>
      simp only [List.cons_append, List.cons.injEq] at isText
      obtain ⟨rfl, rfl, rfl, rest⟩ := isText
      obtain ⟨left, right⟩ := ih rest
      exact ⟨.triplet isHigh isLow left, right⟩

theorem completeTriplets_append {delimiter : UInt8} (notHex : isHexDigit delimiter = false)
    (notPercent : delimiter ≠ percent) :
    CompleteTriplets (first ++ delimiter :: second) ↔
      CompleteTriplets first ∧ CompleteTriplets second := by
  constructor
  · exact Encoded.split notHex notPercent
  · rintro ⟨left, right⟩
    exact left.append (.plain (by simpa using notPercent) right)

/-- Classes of plain bytes whose texts are recognized byte by byte. -/
structure PlainClass (plain : UInt8 → Bool) : Prop where
  noPercent : plain percent = false
  hexDigits : ∀ byte, isHexDigit byte = true → plain byte = true

theorem encoded_iff (isClass : PlainClass plain) :
    Encoded plain text ↔
      CompleteTriplets text ∧ ∀ byte ∈ text, (plain byte || byte == percent) = true := by
  constructor
  · intro encoded
    induction encoded with
    | nil => exact ⟨.nil, by simp⟩
    | @plain byte rest isPlain _ ih =>
      have notPercent : byte ≠ percent := by
        rintro rfl
        rw [isClass.noPercent] at isPlain
        contradiction
      use .plain (by simpa using notPercent) ih.1
      simpa [isPlain] using ih.2
    | triplet isHigh isLow _ ih =>
      use .triplet isHigh isLow ih.1
      simpa [isClass.hexDigits _ isHigh, isClass.hexDigits _ isLow] using ih.2
  · rintro ⟨complete, admitted⟩
    induction complete with
    | nil => exact .nil
    | @plain byte rest notPercent _ ih =>
      rw [List.forall_mem_cons] at admitted
      have isPlain : plain byte = true := by
        simpa [bne_iff_ne.mp notPercent] using admitted.1
      exact .plain isPlain (ih admitted.2)
    | triplet isHigh isLow _ ih =>
      simp only [List.forall_mem_cons] at admitted
      exact .triplet isHigh isLow (ih admitted.2.2.2)

theorem isHexDigit_alphanumeric {byte : UInt8} (isHex : isHexDigit byte = true) :
    isAlpha byte = true ∨ isDigit byte = true := by
  simp only [isHexDigit, hexValue] at isHex
  simp only [isAlpha, isDigit, Bool.and_eq_true, Bool.or_eq_true, decide_eq_true_eq,
    UInt8.le_iff_toNat_le] at isHex ⊢
  split_ifs at isHex with digit upper lower
  · exact .inr digit
  · exact .inl (.inl ⟨upper.1, upper.2.trans (by decide)⟩)
  · exact .inl (.inr ⟨lower.1, lower.2.trans (by decide)⟩)
  · simp at isHex

theorem plainClass_regName : PlainClass isRegNamePlain := by
  refine ⟨by decide, fun byte isHex => ?_⟩
  rcases isHexDigit_alphanumeric isHex with isLetter | isNumber
  · simp [isRegNamePlain, isUnreserved, isLetter]
  · simp [isRegNamePlain, isUnreserved, isNumber]

theorem plainClass_userinfo : PlainClass isUserinfoPlain :=
  ⟨by decide, fun byte isHex => by simp [isUserinfoPlain, plainClass_regName.hexDigits byte isHex]⟩

theorem plainClass_pchar : PlainClass isPcharPlain :=
  ⟨by decide, fun byte isHex => by simp [isPcharPlain, plainClass_userinfo.hexDigits byte isHex]⟩

theorem plainClass_query : PlainClass isQueryPlain :=
  ⟨by decide, fun byte isHex => by simp [isQueryPlain, plainClass_pchar.hexDigits byte isHex]⟩

/-- A byte outside of a class does not occur in its texts. -/
theorem Encoded.notMem (isClass : PlainClass plain) (encoded : Encoded plain text) {byte : UInt8}
    (foreign : (plain byte || byte == percent) = false) : byte ∉ text := by
  intro listed
  rw [((encoded_iff isClass).mp encoded).2 byte listed] at foreign
  contradiction

/-! ## Paths -/

/-- The bytes of a path. -/
def isPathByte (byte : UInt8) : Bool := isPcharPlain byte || byte == percent || byte == slash

theorem segment_iff :
    Encoded isPcharPlain text ↔
      CompleteTriplets text ∧ (∀ byte ∈ text, isPathByte byte = true) ∧ slash ∉ text := by
  rw [encoded_iff plainClass_pchar]
  apply and_congr_right'
  constructor
  · intro admitted
    refine ⟨fun byte listed => ?_, fun listed => ?_⟩
    · rw [isPathByte, admitted byte listed, Bool.true_or]
    · exact absurd (admitted slash listed) (by decide)
  · rintro ⟨admitted, noSlash⟩ byte listed
    have isPath := admitted byte listed
    have notSlash : byte ≠ slash := fun same => noSlash (same ▸ listed)
    simpa [isPathByte, notSlash] using isPath

/-- A path that is empty or begins with a separator, recognized by its bytes. -/
theorem pathAbempty_iff :
    PathAbempty text ↔ (text = [] ∨ text.head? = some slash) ∧ CompleteTriplets text ∧
      ∀ byte ∈ text, isPathByte byte = true := by
  constructor
  · intro path
    induction path with
    | nil => exact ⟨.inl rfl, .nil, by simp⟩
    | segment segment more ih =>
      obtain ⟨complete, admitted, -⟩ := segment_iff.mp segment
      obtain ⟨-, restComplete, restAdmitted⟩ := ih
      refine ⟨.inr rfl, .plain (by decide) (complete.append restComplete), ?_⟩
      rw [List.forall_mem_cons, List.forall_mem_append]
      exact ⟨by decide, admitted, restAdmitted⟩
  · -- The path is taken apart segment by segment.
    induction length : text.length using Nat.strong_induction_on generalizing text with
    | h size ih =>
      rintro ⟨start, complete, admitted⟩
      cases text with
      | nil => exact .nil
      | cons byte rest =>
        obtain rfl : byte = slash := by simpa using start
        have restComplete : CompleteTriplets rest :=
          ((completeTriplets_append (by decide) (by decide)).mp
            (List.nil_append (slash :: rest) ▸ complete)).2
        rw [List.forall_mem_cons] at admitted
        cases cut : splitOnce slash rest with
        | none =>
          have noSlash := splitOnce_eq_none.mp cut
          have segment := segment_iff.mpr ⟨restComplete, admitted.2, noSlash⟩
          simpa using PathAbempty.segment segment .nil
        | some pieces =>
          obtain ⟨segment, after⟩ := pieces
          obtain ⟨rfl, noSlash⟩ := splitOnce_eq_some.mp cut
          obtain ⟨segmentComplete, afterComplete⟩ :=
            (completeTriplets_append (by decide) (by decide)).mp restComplete
          have segmentAdmitted : ∀ byte ∈ segment, isPathByte byte = true := fun byte listed =>
            admitted.2 byte (List.mem_append_left _ listed)
          have more : PathAbempty (slash :: after) := by
            apply ih (slash :: after).length _ rfl
            · refine ⟨.inr rfl, .plain (by decide) afterComplete, fun byte listed => ?_⟩
              exact admitted.2 byte (List.mem_append_right _ listed)
            · rw [← length]
              simp only [List.length_cons, List.length_append]
              omega
          exact .segment (segment_iff.mpr ⟨segmentComplete, segmentAdmitted, noSlash⟩) more

theorem pathRootless_iff :
    PathRootless text ↔ (text ≠ [] ∧ text.head? ≠ some slash) ∧ CompleteTriplets text ∧
      ∀ byte ∈ text, isPathByte byte = true := by
  constructor
  · rintro ⟨segment, rest, rfl, nonempty, isSegment, more⟩
    obtain ⟨complete, admitted, noSlash⟩ := segment_iff.mp isSegment
    obtain ⟨-, restComplete, restAdmitted⟩ := pathAbempty_iff.mp more
    obtain ⟨first, tail, rfl⟩ := List.exists_cons_of_ne_nil nonempty
    refine ⟨⟨by simp, ?_⟩, complete.append restComplete, ?_⟩
    · intro start
      obtain rfl : first = slash := by simpa using start
      exact noSlash List.mem_cons_self
    · rw [List.forall_mem_append]
      exact ⟨admitted, restAdmitted⟩
  · rintro ⟨⟨nonempty, start⟩, complete, admitted⟩
    cases cut : splitOnce slash text with
    | none =>
      have noSlash := splitOnce_eq_none.mp cut
      exact ⟨text, [], by simp, nonempty, segment_iff.mpr ⟨complete, admitted, noSlash⟩, .nil⟩
    | some pieces =>
      obtain ⟨segment, after⟩ := pieces
      obtain ⟨rfl, noSlash⟩ := splitOnce_eq_some.mp cut
      obtain ⟨segmentComplete, afterComplete⟩ :=
        (completeTriplets_append (by decide) (by decide)).mp complete
      rw [List.forall_mem_append] at admitted
      refine ⟨segment, slash :: after, rfl, ?_,
        segment_iff.mpr ⟨segmentComplete, admitted.1, noSlash⟩,
        pathAbempty_iff.mpr ⟨.inr rfl, .plain (by decide) afterComplete, admitted.2⟩⟩
      rintro rfl
      exact start rfl

/-- The paths of URIs without an authority, recognized by their bytes. -/
theorem path_iff :
    PathAbsolute text ∨ PathRootless text ∨ text = [] ↔
      ¬ [slash, slash] <+: text ∧ CompleteTriplets text ∧
        ∀ byte ∈ text, isPathByte byte = true := by
  cases text with
  | nil =>
    simp only [or_true, List.not_mem_nil, false_implies, implies_true, and_true, true_iff]
    exact ⟨by simp, .nil⟩
  | cons first rest =>
    by_cases absolute : first = slash
    · subst absolute
      have notRootless : ¬ PathRootless (slash :: rest) := by
        intro rootless
        exact (pathRootless_iff.mp rootless).1.2 rfl
      have triplets : CompleteTriplets (slash :: rest) ↔ CompleteTriplets rest := by
        constructor
        · intro complete
          exact ((completeTriplets_append (by decide) (by decide)).mp
            (List.nil_append (slash :: rest) ▸ complete)).2
        · exact Encoded.plain (by decide)
      have single : [slash, slash] <+: slash :: rest ↔ rest.head? = some slash := by
        cases rest with
        | nil => simp
        | cons second rest => simp [eq_comm]
      simp only [notRootless, reduceCtorEq, or_false, single, triplets, List.forall_mem_cons]
      unfold PathAbsolute
      simp only [List.cons.injEq, true_and, exists_eq_left', pathRootless_iff]
      constructor
      · rintro (rfl | ⟨⟨-, start⟩, complete, admitted⟩)
        · exact ⟨by simp, .nil, by decide, by simp⟩
        · exact ⟨start, complete, by decide, admitted⟩
      · rintro ⟨start, complete, -, admitted⟩
        by_cases empty : rest = []
        · exact .inl empty
        · exact .inr ⟨⟨empty, start⟩, complete, admitted⟩
    · have notAbsolute : ¬ PathAbsolute (first :: rest) := by
        rintro ⟨other, isPath, -⟩
        exact absolute (List.cons.inj isPath).1
      have notDouble : ¬ [slash, slash] <+: first :: rest := by
        simp [Ne.symm absolute]
      simp only [notAbsolute, reduceCtorEq, or_false, false_or, notDouble, not_false_eq_true,
        true_and, pathRootless_iff, ne_eq, List.head?_cons, Option.some.injEq, absolute]

/-! ## What an encoder writes -/

theorem isHexDigit_hexDigit (byte : UInt8) :
    isHexDigit (hexDigit (byte >>> 4)) = true ∧ isHexDigit (hexDigit (byte &&& 0x0f)) = true := by
  rw [isHexDigit, isHexDigit, hexValue_hexDigit (high_small byte),
    hexValue_hexDigit (low_small byte)]
  exact ⟨rfl, rfl⟩

theorem encodeByte_encoded (keep : UInt8 → Bool) (byte : UInt8) :
    Encoded keep (encodeByte keep byte) := by
  unfold encodeByte
  split
  · rename_i kept
    exact .plain kept .nil
  · exact .triplet (isHexDigit_hexDigit byte).1 (isHexDigit_hexDigit byte).2 .nil

theorem encode_encoded (keep : UInt8 → Bool) (preserve : Bool) (source : Bytes) :
    Encoded keep (encode keep preserve source) := by
  fun_induction encode keep preserve source with
  | case1 => exact .nil
  | case2 byte high low tail copied ih =>
    simp only [startsWithTriplet, Bool.and_eq_true, beq_iff_eq] at copied
    obtain ⟨-, ⟨rfl, isHigh⟩, isLow⟩ := copied
    exact .triplet isHigh isLow ih
  | case3 byte high low tail _ ih => exact (encodeByte_encoded keep byte).append ih
  | case4 byte shorter _ ih => exact (encodeByte_encoded keep byte).append ih

/-- An encoder that copies triplets leaves an encoded text as it is. -/
theorem encode_of_encoded {keep : UInt8 → Bool} (keepsNoPercent : keep percent = false)
    (encoded : Encoded keep text) : encode keep true text = text := by
  induction encoded with
  | nil => rfl
  | @plain byte rest isKept _ ih =>
    have notPercent : byte ≠ percent := by
      rintro rfl
      rw [keepsNoPercent] at isKept
      contradiction
    have single : encodeByte keep byte = [byte] := if_pos isKept
    rw [encode.eq_def]
    simp only
    split
    · rename_i high low tail
      rw [if_neg (by simp [startsWithTriplet, notPercent]), single, ih]
      rfl
    · rw [single, ih]
      rfl
  | triplet isHigh isLow _ ih =>
    rw [encode, if_pos (by simp [startsWithTriplet, isHigh, isLow]), ih]

end FastMcp.UriGrammar
