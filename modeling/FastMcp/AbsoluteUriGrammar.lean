import FastMcp.AbsoluteUris

/-! # Absolute URIs are the URIs of the grammar

Each check is compared with the grammar of its component, under the assumption
that all percent triplets are complete. The pieces between the delimiters are the
components of the grammar because no component contains a delimiter that follows
it.
-/

namespace FastMcp.Uri

open ByteText PercentCoding TextCutting UriGrammar Outcomes

/-! ## Single components -/

theorem validateComponent_eq_ok {kind : AbsoluteUriComponent} {admitted : UInt8 → Bool}
    {offset : Nat} {text : Bytes} :
    validateComponent kind admitted offset text = .ok () ↔
      ∀ byte ∈ text, admitted byte = true := by
  induction text generalizing offset with
  | nil => simp [validateComponent]
  | cons byte text ih =>
    rw [validateComponent, List.forall_mem_cons]
    split
    · rename_i isAdmitted
      rw [ih, and_iff_right isAdmitted]
    · rename_i refused
      simp [refused]

/-- Visible characters of ASCII. -/
def isWireByte (byte : UInt8) : Bool := byte < 128 && 0x20 < byte && byte != 0x7f

theorem validateAsciiWireBytes_eq_ok {index : Nat} {text : Bytes} :
    validateAsciiWireBytes index text = .ok () ↔ ∀ byte ∈ text, isWireByte byte = true := by
  induction text generalizing index with
  | nil => simp [validateAsciiWireBytes]
  | cons byte text ih =>
    rw [validateAsciiWireBytes, List.forall_mem_cons]
    split
    · rename_i notAscii
      simp [isWireByte, UInt8.not_lt.mpr notAscii]
    · rename_i ascii
      split
      · rename_i refused
        rcases refused with control | delete
        · simp [isWireByte, UInt8.not_lt.mpr control]
        · simp [isWireByte, delete]
      · rename_i visible
        rw [not_or] at visible
        rw [ih, and_iff_right]
        simp only [isWireByte, Bool.and_eq_true, decide_eq_true_eq, bne_iff_ne]
        exact ⟨⟨UInt8.not_le.mp ascii, UInt8.not_le.mp visible.1⟩, visible.2⟩

theorem validateScheme_eq_ok {text : Bytes} : validateScheme text = .ok () ↔ Scheme text := by
  unfold validateScheme Scheme
  cases text with
  | nil => simp
  | cons first rest =>
    simp only [List.cons.injEq, ↓existsAndEq, true_and]
    split
    · rename_i alpha
      rw [validateComponent_eq_ok, and_iff_right alpha]
    · rename_i notAlpha
      simp [notAlpha]

theorem validatePercentTriplets_eq_ok {index : Nat} {text : Bytes} :
    validatePercentTriplets index text = .ok () ↔ CompleteTriplets text := by
  fun_induction validatePercentTriplets index text with
  | case1 => simp [CompleteTriplets, Encoded.nil]
  | case2 index high low tail digits ih =>
    rw [ih]
    rw [Bool.and_eq_true] at digits
    constructor
    · exact Encoded.triplet digits.1 digits.2
    · intro complete
      cases complete with
      | plain isPlain => simp at isPlain
      | triplet _ _ rest => exact rest
  | case3 index high low tail digits =>
    simp only [reduceCtorEq, false_iff]
    intro complete
    cases complete with
    | plain isPlain => simp at isPlain
    | triplet isHigh isLow => simp [isHigh, isLow] at digits
  | case4 index rest short =>
    simp only [reduceCtorEq, false_iff]
    intro complete
    cases complete with
    | plain isPlain => simp at isPlain
    | triplet isHigh isLow => exact short _ _ _ rfl
  | case5 index byte rest notPercent ih =>
    rw [ih]
    constructor
    · exact Encoded.plain (by simpa using notPercent)
    · intro complete
      cases complete with
      | plain _ encoded => exact encoded
      | triplet => exact absurd rfl notPercent

theorem isUserinfoByte_eq (byte : UInt8) :
    isUserinfoByte byte = (isUserinfoPlain byte || byte == percent) := rfl

theorem isPchar_eq (byte : UInt8) : isPchar byte = (isPcharPlain byte || byte == percent) := rfl

theorem validateRegName_eq_ok {offset : Nat} {text : Bytes} (complete : CompleteTriplets text) :
    validateComponent .host isRegNameByte offset text = .ok () ↔ Encoded isRegNamePlain text := by
  rw [validateComponent_eq_ok, encoded_iff plainClass_regName, and_iff_right complete]
  rfl

theorem validateUserinfo_eq_ok {offset : Nat} {text : Bytes} (complete : CompleteTriplets text) :
    validateComponent .userinfo isUserinfoByte offset text = .ok () ↔
      Encoded isUserinfoPlain text := by
  rw [validateComponent_eq_ok, encoded_iff plainClass_userinfo, and_iff_right complete]
  rfl

theorem validateQueryOrFragment_eq_ok {component : AbsoluteUriComponent} {offset : Nat}
    {text : Bytes} (complete : CompleteTriplets text) :
    validateQueryOrFragment component offset text = .ok () ↔ Encoded isQueryPlain text := by
  rw [validateQueryOrFragment, validateComponent_eq_ok, encoded_iff plainClass_query,
    and_iff_right complete]
  apply forall₂_congr
  intro byte _
  simp only [isPchar_eq, isQueryPlain, Bool.or_eq_true]
  tauto

theorem validatePath_eq_ok {offset : Nat} {text : Bytes} :
    validatePath offset text = .ok () ↔ ∀ byte ∈ text, isPathByte byte = true := by
  rw [validatePath, validateComponent_eq_ok]
  rfl

/-! ## Hosts -/

theorem drop_length_succ (before : Bytes) (separator : UInt8) (after : Bytes) :
    (before ++ separator :: after).drop (before.length + 1) = after := by
  rw [List.drop_append, List.drop_eq_nil_of_le (by omega), Nat.add_sub_cancel_left]
  rfl

theorem isValidIpvFuture_iff {literal : Bytes} :
    isValidIpvFuture literal = true ↔ IpvFuture literal := by
  unfold isValidIpvFuture IpvFuture
  cases literal with
  | nil => simp
  | cons letter rest =>
    constructor
    · intro valid
      simp only at valid
      split at valid
      · contradiction
      rename_i start
      split at valid
      · contradiction
      rename_i place found
      split at valid
      · contradiction
      rename_i inside
      obtain ⟨version, address, rfl, -, rfl⟩ := exists_of_find found
      rw [List.take_left, drop_length_succ, Bool.and_eq_true, List.all_eq_true,
        List.all_eq_true] at valid
      simp only [Bool.or_eq_true, not_or, Bool.not_eq_true, Bool.not_eq_false',
        beq_iff_eq] at start
      simp only [List.length_append, List.length_cons, not_or] at inside
      refine ⟨letter, version, address, rfl, start.2, ⟨?_, valid.1⟩, ?_, valid.2⟩
      · rintro rfl
        exact inside.1 rfl
      · rintro rfl
        simp at inside
    · rintro ⟨letter, version, address, isLiteral, isLetter, ⟨versioned, digits⟩, addressed, plain⟩
      obtain ⟨rfl, rfl⟩ := List.cons.inj isLiteral
      have noDot : dot ∉ version := fun listed => absurd (digits dot listed) (by decide)
      have versionLength := List.length_pos_iff.mpr versioned
      have addressLength := List.length_pos_iff.mpr addressed
      have long : ¬ (version ++ dot :: address).length < 3 := by
        simp only [List.length_append, List.length_cons]
        omega
      have start : (letter == 0x76 || letter == 0x56) = true := by simpa using isLetter
      have inside : ¬ (version.length = 0 ∨
          version.length + 1 ≥ (version ++ dot :: address).length) := by
        simp only [List.length_append, List.length_cons]
        omega
      simp only [find_append noDot, decide_eq_false long, start, Bool.not_true, Bool.or_false,
        Bool.false_eq_true, if_false, if_neg inside]
      rw [List.take_left, drop_length_succ, Bool.and_eq_true, List.all_eq_true, List.all_eq_true]
      exact ⟨digits, plain⟩

variable {isIpv6Address : Bytes → Bool}

/-- Addresses are written with digits, colons and dots only. -/
def Ipv6Characters (isIpv6Address : Bytes → Bool) : Prop :=
  ∀ literal, isIpv6Address literal = true →
    ∀ byte ∈ literal, (isHexDigit byte || byte == colon || byte == dot) = true

theorem isValidIpLiteral_iff {literal : Bytes} :
    isValidIpLiteral isIpv6Address literal = true ↔
      isIpv6Address literal = true ∨ IpvFuture literal := by
  rw [isValidIpLiteral, Bool.or_eq_true, isValidIpvFuture_iff]

/-- The bytes between the brackets of an address. -/
theorem ipLiteral_bytes (characters : Ipv6Characters isIpv6Address) {literal : Bytes}
    (isLiteral : isIpv6Address literal = true ∨ IpvFuture literal) :
    ∀ byte ∈ literal, isUserinfoPlain byte = true := by
  rcases isLiteral with isAddress | ⟨letter, version, address, rfl, isLetter, digits, -, plain⟩
  · intro byte listed
    have isCharacter := characters literal isAddress byte listed
    simp only [Bool.or_eq_true, beq_iff_eq] at isCharacter
    rcases isCharacter with (isHex | rfl) | rfl
    · exact plainClass_userinfo.hexDigits byte isHex
    · decide
    · decide
  · simp only [List.forall_mem_cons, List.forall_mem_append]
    refine ⟨?_, fun byte listed => plainClass_userinfo.hexDigits byte (digits.2 byte listed),
      by decide, plain⟩
    rcases isLetter with rfl | rfl <;> decide

theorem completeTriplets_of_plain {plain : UInt8 → Bool} (isClass : PlainClass plain)
    {text : Bytes} (allPlain : ∀ byte ∈ text, plain byte = true) : CompleteTriplets text := by
  apply completeTriplets_of_notMem
  intro listed
  have isPlain := allPlain percent listed
  rw [isClass.noPercent] at isPlain
  contradiction

theorem isDigit_plain (byte : UInt8) (digit : isDigit byte = true) :
    isRegNamePlain byte = true := by
  simp [isRegNamePlain, isUnreserved, digit]

/-- The bytes of a host and a port. -/
def isHostPortByte (byte : UInt8) : Bool :=
  isUserinfoByte byte || byte == openBracket || byte == closeBracket

theorem HostPort.recognized (characters : Ipv6Characters isIpv6Address) {text : Bytes}
    (hostPort : HostPort isIpv6Address text) :
    CompleteTriplets text ∧ ∀ byte ∈ text, isHostPortByte byte = true := by
  obtain ⟨host, port, rfl, isHost, isPort⟩ := hostPort
  have ofHost : CompleteTriplets host ∧ ∀ byte ∈ host, isHostPortByte byte = true := by
    rcases isHost with ⟨literal, rfl, isLiteral⟩ | regName
    · have plain := ipLiteral_bytes characters isLiteral
      constructor
      · exact .plain (by decide)
          ((completeTriplets_of_plain plainClass_userinfo plain).append (.plain (by decide) .nil))
      · simp only [List.forall_mem_cons, List.forall_mem_append]
        refine ⟨by decide, fun byte listed => ?_, by decide, by simp⟩
        simp [isHostPortByte, isUserinfoByte_eq, plain byte listed]
    · obtain ⟨complete, admitted⟩ := (encoded_iff plainClass_regName).mp regName
      refine ⟨complete, fun byte listed => ?_⟩
      have isRegName := admitted byte listed
      simp only [isHostPortByte, isUserinfoByte_eq, isUserinfoPlain, Bool.or_eq_true] at isRegName ⊢
      tauto
  cases port with
  | none => simpa [optionalPart] using ofHost
  | some digits =>
    have allDigits := isPort digits rfl
    have plain : ∀ byte ∈ digits, isRegNamePlain byte = true := fun byte listed =>
      isDigit_plain byte (allDigits byte listed)
    constructor
    · exact ofHost.1.append
        (.plain (by decide) (completeTriplets_of_plain plainClass_regName plain))
    · simp only [optionalPart, List.forall_mem_append, List.forall_mem_cons]
      refine ⟨ofHost.2, by decide, fun byte listed => ?_⟩
      simp [isHostPortByte, isUserinfoByte_eq, isUserinfoPlain, plain byte listed]

theorem validateHostPort_eq_ok (characters : Ipv6Characters isIpv6Address) {offset : Nat}
    {text : Bytes} (complete : CompleteTriplets text) :
    validateHostPort isIpv6Address offset text = .ok () ↔ HostPort isIpv6Address text := by
  unfold validateHostPort
  constructor
  · intro validated
    split at validated
    · rename_i ipLiteral stripped
      split at validated
      · contradiction
      rename_i close found
      split at validated
      · rename_i isLiteral
        obtain ⟨literal, suffix, rfl, -, rfl⟩ := exists_of_find found
        rw [List.take_left] at isLiteral
        rw [drop_length_succ] at validated
        have isText := stripPrefix_eq_some.mp stripped
        have isHost : Host isIpv6Address (openBracket :: (literal ++ [closeBracket])) :=
          .inl ⟨literal, rfl, isValidIpLiteral_iff.mp isLiteral⟩
        cases suffix with
        | nil => exact ⟨_, none, by simp [isText, optionalPart], isHost, by simp⟩
        | cons next port =>
          simp only at validated
          split at validated
          · rename_i isColon
            subst isColon
            have digits := validateComponent_eq_ok.mp validated
            exact ⟨_, some port, by simp [isText, optionalPart], isHost, by simpa using digits⟩
          · contradiction
      · contradiction
    · split at validated
      · rename_i host port cut
        split at validated
        · contradiction
        obtain ⟨rfl, -⟩ := splitOnce_eq_some.mp cut
        obtain ⟨hostComplete, -⟩ := (completeTriplets_append (by decide) (by decide)).mp complete
        obtain ⟨_, hostChecked, portChecked⟩ := bind_eq_ok.mp validated
        have isHost := (validateRegName_eq_ok hostComplete).mp hostChecked
        have digits := validateComponent_eq_ok.mp portChecked
        exact ⟨host, some port, rfl, .inr isHost, by simpa using digits⟩
      · have isHost := (validateRegName_eq_ok complete).mp validated
        exact ⟨text, none, by simp [optionalPart], .inr isHost, by simp⟩
  · rintro ⟨host, port, rfl, isHost, isPort⟩
    rcases isHost with ⟨literal, rfl, isLiteral⟩ | regName
    · have noBracket : closeBracket ∉ literal := fun listed =>
        absurd (ipLiteral_bytes characters isLiteral closeBracket listed) (by decide)
      have stripped : stripPrefix [openBracket]
          (openBracket :: (literal ++ [closeBracket]) ++ optionalPart colon port) =
            some (literal ++ closeBracket :: optionalPart colon port) := by
        rw [stripPrefix_eq_some]
        simp
      rw [stripped]
      simp only [find_append noBracket, List.take_left, isValidIpLiteral_iff.mpr isLiteral,
        if_true, drop_length_succ]
      cases port with
      | none => rfl
      | some digits =>
        simp only [optionalPart, if_true]
        exact validateComponent_eq_ok.mpr (isPort digits rfl)
    · have noBracket : openBracket ∉ host := regName.notMem plainClass_regName (by decide)
      have noColon : colon ∉ host := regName.notMem plainClass_regName (by decide)
      have plain : stripPrefix [openBracket] (host ++ optionalPart colon port) = none := by
        rw [stripPrefix_eq_none]
        rintro ⟨rest, isText⟩
        cases host with
        | nil =>
          cases port with
          | none => simp [optionalPart] at isText
          | some digits => exact absurd (List.cons.inj isText).1 (by decide)
        | cons first host =>
          exact noBracket (by simp [← (List.cons.inj isText).1])
      rw [plain]
      have hostChecked (offset : Nat) :
          validateComponent .host isRegNameByte offset host = .ok () :=
        (validateRegName_eq_ok ((encoded_iff plainClass_regName).mp regName).1).mpr regName
      cases port with
      | none =>
        rw [optionalPart, List.append_nil, splitOnce_eq_none.mpr noColon]
        exact hostChecked offset
      | some digits =>
        have allDigits := isPort digits rfl
        have single : find colon digits = none := by
          rw [find_eq_none]
          intro listed
          exact absurd (allDigits colon listed) (by decide)
        rw [optionalPart, splitOnce_eq_some.mpr ⟨rfl, noColon⟩]
        simp only [single, hostChecked, Except.bind]
        exact validateComponent_eq_ok.mpr allDigits

/-! ## Authorities and paths -/

/-- The bytes of an authority. -/
def isAuthorityByte (byte : UInt8) : Bool := isHostPortByte byte || byte == atSign

theorem Authority.recognized (characters : Ipv6Characters isIpv6Address) {text : Bytes}
    (authority : Authority isIpv6Address text) :
    CompleteTriplets text ∧ ∀ byte ∈ text, isAuthorityByte byte = true := by
  rcases authority with hostPort | ⟨userinfo, hostPort, rfl, isUserinfo, isHostPort⟩
  · obtain ⟨complete, admitted⟩ := HostPort.recognized characters hostPort
    refine ⟨complete, fun byte listed => ?_⟩
    rw [isAuthorityByte, admitted byte listed, Bool.true_or]
  · obtain ⟨complete, admitted⟩ := HostPort.recognized characters isHostPort
    obtain ⟨userinfoComplete, userinfoAdmitted⟩ := (encoded_iff plainClass_userinfo).mp isUserinfo
    constructor
    · exact userinfoComplete.append (.plain (by decide) complete)
    · simp only [List.forall_mem_append, List.forall_mem_cons]
      refine ⟨fun byte listed => ?_, by decide, fun byte listed => ?_⟩
      · simp [isAuthorityByte, isHostPortByte, isUserinfoByte_eq, userinfoAdmitted byte listed]
      · rw [isAuthorityByte, admitted byte listed, Bool.true_or]

theorem validateAuthority_eq_ok (characters : Ipv6Characters isIpv6Address) {offset : Nat}
    {text : Bytes} (complete : CompleteTriplets text) :
    validateAuthority isIpv6Address offset text = .ok () ↔ Authority isIpv6Address text := by
  unfold validateAuthority
  cases found : find atSign text with
  | none =>
    simp only [validateHostPort_eq_ok characters complete]
    constructor
    · exact .inl
    · rintro (hostPort | ⟨userinfo, hostPort, rfl, -⟩)
      · exact hostPort
      · exact absurd (find_eq_none.mp found) (by simp)
  | some place =>
    obtain ⟨userinfo, hostPort, rfl, noAt, rfl⟩ := exists_of_find found
    obtain ⟨userinfoComplete, hostPortComplete⟩ :=
      (completeTriplets_append (by decide) (by decide)).mp complete
    simp only [List.take_left, drop_length_succ]
    constructor
    · intro validated
      split at validated
      · contradiction
      obtain ⟨_, userinfoChecked, hostPortChecked⟩ := bind_eq_ok.mp validated
      exact .inr ⟨userinfo, hostPort, rfl,
        (validateUserinfo_eq_ok userinfoComplete).mp userinfoChecked,
        (validateHostPort_eq_ok characters hostPortComplete).mp hostPortChecked⟩
    · rintro (whole | ⟨otherUserinfo, otherHostPort, same, isUserinfo, isHostPort⟩)
      · have admitted := (HostPort.recognized characters whole).2
        exact absurd (admitted atSign (by simp)) (by decide)
      · -- Neither part contains a second at sign, so the two cuts are the same.
        have otherNoAt : atSign ∉ otherUserinfo := isUserinfo.notMem plainClass_userinfo (by decide)
        obtain ⟨rfl, rfl⟩ := cut_injective noAt otherNoAt same
        have single : find atSign hostPort = none := by
          rw [find_eq_none]
          intro listed
          exact absurd ((HostPort.recognized characters isHostPort).2 atSign listed) (by decide)
        simp only [single, (validateUserinfo_eq_ok userinfoComplete).mpr isUserinfo, Except.bind]
        exact (validateHostPort_eq_ok characters hostPortComplete).mpr isHostPort

/-- The bytes of a hierarchical part. -/
def isHierByte (byte : UInt8) : Bool := isAuthorityByte byte || byte == slash

theorem isPathByte_isHierByte (byte : UInt8) :
    isPathByte byte = true → isHierByte byte = true := by
  simp only [isPathByte, isHierByte, isPcharPlain, isUserinfoPlain, isRegNamePlain,
    isAuthorityByte, isHostPortByte, isUserinfoByte]
  grind

theorem HierPart.recognized (characters : Ipv6Characters isIpv6Address) {text : Bytes}
    (hierPart : HierPart isIpv6Address text) :
    CompleteTriplets text ∧ ∀ byte ∈ text, isHierByte byte = true := by
  rcases hierPart with ⟨authority, path, rfl, isAuthority, isPath⟩ | isPath
  · obtain ⟨complete, admitted⟩ := Authority.recognized characters isAuthority
    obtain ⟨-, pathComplete, pathAdmitted⟩ := pathAbempty_iff.mp isPath
    constructor
    · exact .plain (by decide) (.plain (by decide) (complete.append pathComplete))
    · simp only [List.forall_mem_cons, List.forall_mem_append]
      refine ⟨by decide, by decide, fun byte listed => ?_, fun byte listed => ?_⟩
      · rw [isHierByte, admitted byte listed, Bool.true_or]
      · exact isPathByte_isHierByte byte (pathAdmitted byte listed)
  · obtain ⟨-, complete, admitted⟩ := path_iff.mp isPath
    exact ⟨complete, fun byte listed => isPathByte_isHierByte byte (admitted byte listed)⟩

/-- The authority ends at the first separator after it. -/
theorem authority_cut (text : Bytes) :
    ∃ authority path, text = authority ++ path ∧ slash ∉ authority ∧
      (path = [] ∨ path.head? = some slash) ∧
        (find slash text).getD text.length = authority.length := by
  cases found : find slash text with
  | none => exact ⟨text, [], by simp, find_eq_none.mp found, .inl rfl, rfl⟩
  | some place =>
    obtain ⟨authority, path, rfl, noSlash, rfl⟩ := exists_of_find found
    exact ⟨authority, slash :: path, rfl, noSlash, .inr rfl, rfl⟩

theorem path_cut_injective {authority path otherAuthority otherPath : Bytes}
    (noSlash : slash ∉ authority) (otherNoSlash : slash ∉ otherAuthority)
    (start : path = [] ∨ path.head? = some slash)
    (otherStart : otherPath = [] ∨ otherPath.head? = some slash)
    (same : authority ++ path = otherAuthority ++ otherPath) :
    authority = otherAuthority ∧ path = otherPath := by
  cases path with
  | nil =>
    cases otherPath with
    | nil => simpa using same
    | cons first rest =>
      obtain rfl : first = slash := by simpa using otherStart
      rw [List.append_nil] at same
      exact absurd (same ▸ List.mem_append_right _ List.mem_cons_self) noSlash
  | cons first rest =>
    obtain rfl : first = slash := by simpa using start
    cases otherPath with
    | nil =>
      rw [List.append_nil] at same
      exact absurd (same ▸ List.mem_append_right _ List.mem_cons_self) otherNoSlash
    | cons other otherRest =>
      obtain rfl : other = slash := by simpa using otherStart
      obtain ⟨rfl, rfl⟩ := cut_injective noSlash otherNoSlash same
      exact ⟨rfl, rfl⟩

theorem completeTriplets_cut {authority path : Bytes}
    (start : path = [] ∨ path.head? = some slash)
    (complete : CompleteTriplets (authority ++ path)) :
    CompleteTriplets authority ∧ CompleteTriplets path := by
  cases path with
  | nil => exact ⟨by simpa using complete, .nil⟩
  | cons first rest =>
    obtain rfl : first = slash := by simpa using start
    obtain ⟨left, right⟩ := (completeTriplets_append (by decide) (by decide)).mp complete
    exact ⟨left, .plain (by decide) right⟩

theorem validateHierPart_eq_ok (characters : Ipv6Characters isIpv6Address) {offset : Nat}
    {text : Bytes} (complete : CompleteTriplets text) :
    validateHierPart isIpv6Address offset text = .ok () ↔ HierPart isIpv6Address text := by
  unfold validateHierPart
  cases stripped : stripPrefix [slash, slash] text with
  | none =>
    have single := stripPrefix_eq_none.mp stripped
    simp only [validatePath_eq_ok]
    constructor
    · intro admitted
      exact .inr (path_iff.mpr ⟨single, complete, admitted⟩)
    · rintro (⟨authority, path, rfl, -⟩ | isPath)
      · exact absurd (by simp) single
      · exact (path_iff.mp isPath).2.2
  | some afterSlashes =>
    obtain rfl := stripPrefix_eq_some.mp stripped
    obtain ⟨authority, path, rfl, noSlash, start, isLength⟩ := authority_cut afterSlashes
    simp only [isLength, List.take_left, List.drop_left]
    have afterComplete : CompleteTriplets (authority ++ path) := by
      cases complete with
      | plain _ inner =>
        cases inner with
        | plain _ innermost => exact innermost
    obtain ⟨authorityComplete, pathComplete⟩ := completeTriplets_cut start afterComplete
    constructor
    · intro validated
      obtain ⟨_, authorityChecked, pathChecked⟩ := bind_eq_ok.mp validated
      exact .inl ⟨authority, path, rfl,
        (validateAuthority_eq_ok characters authorityComplete).mp authorityChecked,
        pathAbempty_iff.mpr ⟨start, pathComplete, validatePath_eq_ok.mp pathChecked⟩⟩
    · rintro (⟨otherAuthority, otherPath, same, isAuthority, isPath⟩ | isPath)
      · have otherNoSlash : slash ∉ otherAuthority := fun listed =>
          absurd ((Authority.recognized characters isAuthority).2 slash listed) (by decide)
        obtain ⟨otherStart, -, admitted⟩ := pathAbempty_iff.mp isPath
        obtain ⟨rfl, rfl⟩ := path_cut_injective noSlash otherNoSlash start otherStart
          (List.cons.inj (List.cons.inj same).2).2
        rw [(validateAuthority_eq_ok characters authorityComplete).mpr isAuthority]
        exact validatePath_eq_ok.mpr admitted
      · exact absurd (by simp) (path_iff.mp isPath).1

/-! ## The places of the delimiters -/

/-- A text that is cut at the first colon, the first number sign and the first question mark
before it. -/
structure Cut (text scheme hierPart : Bytes) (query fragment : Option Bytes) : Prop where
  whole : text = assemble scheme hierPart query fragment
  schemePlain : ∀ byte ∈ scheme, isSchemeByte byte = true
  hierNoQuery : questionMark ∉ hierPart
  hierNoFragment : hash ∉ hierPart
  queryNoFragment : ∀ part ∈ query, hash ∉ part

variable {text scheme hierPart : Bytes} {query fragment : Option Bytes}

/-- Everything before the fragment. -/
def beforeFragment (scheme hierPart : Bytes) (query : Option Bytes) : Bytes :=
  scheme ++ colon :: (hierPart ++ optionalPart questionMark query)

namespace Cut

variable (cut : Cut text scheme hierPart query fragment)

include cut

theorem schemeNo {byte : UInt8} (foreign : isSchemeByte byte = false) : byte ∉ scheme := by
  intro listed
  rw [cut.schemePlain byte listed] at foreign
  contradiction

theorem whole_eq : text = beforeFragment scheme hierPart query ++ optionalPart hash fragment := by
  rw [cut.whole]
  simp [assemble, beforeFragment]

theorem noFragmentBefore : hash ∉ beforeFragment scheme hierPart query := by
  have inQuery : hash ∉ optionalPart questionMark query := by
    cases isQuery : query with
    | none => simp [optionalPart]
    | some part =>
      rw [optionalPart, List.mem_cons, not_or]
      exact ⟨by decide, cut.queryNoFragment part isQuery⟩
  simp only [beforeFragment, List.mem_append, List.mem_cons, not_or]
  exact ⟨cut.schemeNo (by decide), by decide, cut.hierNoFragment, inQuery⟩

theorem find_colon : find colon text = some scheme.length := by
  rw [cut.whole]
  exact find_append (cut.schemeNo (by decide)) _

theorem take_scheme : text.take scheme.length = scheme := by
  rw [cut.whole]
  exact List.take_left

theorem find_hash :
    find hash text = fragment.map fun _ => (beforeFragment scheme hierPart query).length := by
  have absent := cut.noFragmentBefore
  rw [cut.whole_eq]
  cases fragment with
  | none => rwa [optionalPart, List.append_nil, Option.map_none, find_eq_none]
  | some part => exact find_append absent part

/-- Where the part before the fragment ends. -/
theorem beforeFragmentEnd :
    (fragment.map fun _ => (beforeFragment scheme hierPart query).length).getD text.length =
      (beforeFragment scheme hierPart query).length := by
  cases isFragment : fragment with
  | none =>
    rw [cut.whole_eq, isFragment]
    simp [optionalPart]
  | some part => rfl

theorem take_beforeFragment :
    text.take (beforeFragment scheme hierPart query).length =
      beforeFragment scheme hierPart query := by
  rw [cut.whole_eq]
  exact List.take_left

theorem find_questionMark :
    find questionMark (beforeFragment scheme hierPart query) =
      query.map fun _ => scheme.length + 1 + hierPart.length := by
  have absent : questionMark ∉ scheme ++ colon :: hierPart := by
    simp only [List.mem_append, List.mem_cons, not_or]
    exact ⟨cut.schemeNo (by decide), by decide, cut.hierNoQuery⟩
  have split : beforeFragment scheme hierPart query =
      (scheme ++ colon :: hierPart) ++ optionalPart questionMark query := by
    simp [beforeFragment]
  rw [split]
  cases query with
  | none => rwa [optionalPart, List.append_nil, Option.map_none, find_eq_none]
  | some part =>
    rw [optionalPart, find_append absent part]
    simp [Nat.add_assoc, Nat.add_comm 1]

omit cut in
theorem hierEnd (scheme hierPart : Bytes) (query : Option Bytes) :
    (query.map fun _ => scheme.length + 1 + hierPart.length).getD
      (beforeFragment scheme hierPart query).length = scheme.length + 1 + hierPart.length := by
  cases query with
  | none =>
    simp only [Option.map_none, Option.getD_none, beforeFragment, optionalPart, List.append_nil,
      List.length_append, List.length_cons]
    omega
  | some part => rfl

theorem slice_hierPart :
    slice text (scheme.length + 1) (scheme.length + 1 + hierPart.length) = hierPart := by
  have split : text = (scheme ++ colon :: hierPart) ++
      (optionalPart questionMark query ++ optionalPart hash fragment) := by
    rw [cut.whole]
    simp [assemble]
  have length : (scheme ++ colon :: hierPart).length = scheme.length + 1 + hierPart.length := by
    simp only [List.length_append, List.length_cons]
    omega
  rw [slice, ← length, split, List.take_left, drop_length_succ]

theorem slice_query {part : Bytes} (isQuery : query = some part) :
    slice text (scheme.length + 1 + hierPart.length + 1)
      (beforeFragment scheme hierPart query).length = part := by
  have split : beforeFragment scheme hierPart query =
      (scheme ++ colon :: hierPart) ++ questionMark :: part := by
    simp [beforeFragment, isQuery, optionalPart]
  have length : (scheme ++ colon :: hierPart).length = scheme.length + 1 + hierPart.length := by
    simp only [List.length_append, List.length_cons]
    omega
  rw [slice, cut.take_beforeFragment, split, ← length, drop_length_succ]

theorem drop_fragment {part : Bytes} (isFragment : fragment = some part) :
    text.drop ((beforeFragment scheme hierPart query).length + 1) = part := by
  rw [cut.whole_eq, isFragment]
  exact drop_length_succ _ _ _

theorem slice_fragment {part : Bytes} (isFragment : fragment = some part) :
    slice text ((beforeFragment scheme hierPart query).length + 1) text.length = part := by
  rw [slice, List.take_length, cut.drop_fragment isFragment]

/-- No triplet reaches across the delimiters of the components. -/
theorem completeTriplets_iff :
    CompleteTriplets (text.drop (scheme.length + 1)) ↔
      CompleteTriplets hierPart ∧ (∀ part ∈ query, CompleteTriplets part) ∧
        ∀ part ∈ fragment, CompleteTriplets part := by
  have rest : text.drop (scheme.length + 1) =
      hierPart ++ optionalPart questionMark query ++ optionalPart hash fragment := by
    rw [cut.whole]
    exact drop_length_succ _ _ _
  have optional (delimiter : UInt8) (notHex : isHexDigit delimiter = false)
      (notPercent : delimiter ≠ percent) (before : Bytes) (part : Option Bytes) :
      CompleteTriplets (before ++ optionalPart delimiter part) ↔
        CompleteTriplets before ∧ ∀ inner ∈ part, CompleteTriplets inner := by
    cases part with
    | none => simp [optionalPart]
    | some inner => simp [optionalPart, completeTriplets_append notHex notPercent]
  rw [rest, optional hash (by decide) (by decide), optional questionMark (by decide) (by decide),
    and_assoc]

end Cut

/-- Every text with a scheme can be cut. -/
theorem exists_cut {rest : Bytes} (isText : text = scheme ++ colon :: rest)
    (schemePlain : ∀ byte ∈ scheme, isSchemeByte byte = true) :
    ∃ hierPart query fragment, Cut text scheme hierPart query fragment := by
  obtain ⟨before, fragment, isRest, noFragment⟩ :
      ∃ before fragment, rest = before ++ optionalPart hash fragment ∧ hash ∉ before := by
    cases cut : splitOnce hash rest with
    | none => exact ⟨rest, none, by simp [optionalPart], splitOnce_eq_none.mp cut⟩
    | some pieces =>
      obtain ⟨isRest, absent⟩ := splitOnce_eq_some.mp cut
      exact ⟨pieces.1, some pieces.2, isRest, absent⟩
  obtain ⟨hierPart, query, isBefore, noQuery⟩ :
      ∃ hierPart query, before = hierPart ++ optionalPart questionMark query ∧
        questionMark ∉ hierPart := by
    cases cut : splitOnce questionMark before with
    | none => exact ⟨before, none, by simp [optionalPart], splitOnce_eq_none.mp cut⟩
    | some pieces =>
      obtain ⟨isBefore, absent⟩ := splitOnce_eq_some.mp cut
      exact ⟨pieces.1, some pieces.2, isBefore, absent⟩
  refine ⟨hierPart, query, fragment, ?_, schemePlain, noQuery, ?_, ?_⟩
  · rw [isText, isRest, isBefore]
    rfl
  · intro listed
    exact noFragment (isBefore ▸ List.mem_append_left _ listed)
  · intro part isQuery listed
    apply noFragment
    rw [isBefore, isQuery]
    exact List.mem_append_right _ (List.mem_cons_of_mem _ listed)

/-! ## Whole URIs -/

theorem Scheme.plain (isScheme : Scheme scheme) : ∀ byte ∈ scheme, isSchemeByte byte = true := by
  obtain ⟨first, rest, rfl, alpha, plain⟩ := isScheme
  rw [List.forall_mem_cons]
  exact ⟨by simp [isSchemeByte, alpha], plain⟩

/-- The components of a URI in the grammar are cut at their delimiters. -/
theorem cut_of_grammar (characters : Ipv6Characters isIpv6Address) (isScheme : Scheme scheme)
    (isHierPart : HierPart isIpv6Address hierPart)
    (isQuery : ∀ part ∈ query, Encoded isQueryPlain part) :
    Cut (assemble scheme hierPart query fragment) scheme hierPart query fragment := by
  have admitted := (HierPart.recognized characters isHierPart).2
  refine ⟨rfl, Scheme.plain isScheme, ?_, ?_, ?_⟩
  · intro listed
    exact absurd (admitted questionMark listed) (by decide)
  · intro listed
    exact absurd (admitted hash listed) (by decide)
  · intro part present
    exact (isQuery part present).notMem plainClass_query (by decide)

theorem isWireByte_iff (byte : UInt8) :
    isWireByte byte = true ↔ 0x20 < byte.toNat ∧ byte.toNat < 0x7f := by
  simp only [isWireByte, Bool.and_eq_true, decide_eq_true_eq, bne_iff_ne, ne_eq,
    UInt8.lt_iff_toNat_lt, ← UInt8.toNat_inj, UInt8.reduceToNat]
  omega

/-- Letters and digits and a few visible characters are visible. -/
theorem wire_of_listed {marks : Bytes} (visible : ∀ mark ∈ marks, isWireByte mark = true)
    {byte : UInt8} (listed : (isAlpha byte || isDigit byte || marks.contains byte) = true) :
    isWireByte byte = true := by
  simp only [Bool.or_eq_true, List.contains_iff_mem] at listed
  rcases listed with inRange | isMark
  · simp only [isAlpha, isDigit, Bool.or_eq_true, Bool.and_eq_true, decide_eq_true_eq,
      UInt8.le_iff_toNat_le, UInt8.reduceToNat] at inRange
    rw [isWireByte_iff]
    omega
  · exact visible byte isMark

theorem isSchemeByte_wire (byte : UInt8) (isScheme : isSchemeByte byte = true) :
    isWireByte byte = true :=
  wire_of_listed (List.all_eq_true.mp (by decide)) isScheme

theorem isPcharPlain_wire (byte : UInt8) (isPchar : isPcharPlain byte = true) :
    isWireByte byte = true := by
  simp only [isPcharPlain, isUserinfoPlain, isRegNamePlain, Bool.or_eq_true, beq_iff_eq] at isPchar
  rcases isPchar with ((isUnreserved | isSubDelim) | rfl) | rfl
  · exact wire_of_listed (List.all_eq_true.mp (by decide)) isUnreserved
  · have visible : (bytes "!$&'()*+,;=").all isWireByte = true := by decide
    exact List.all_eq_true.mp visible byte (List.contains_iff_mem.mp isSubDelim)
  · decide
  · decide

theorem isHierByte_wire (byte : UInt8) (isHier : isHierByte byte = true) :
    isWireByte byte = true := by
  simp only [isHierByte, isAuthorityByte, isHostPortByte, isUserinfoByte, Bool.or_eq_true,
    beq_iff_eq] at isHier
  rcases isHier with ((((((unreserved | subDelim) | rfl) | rfl) | rfl) | rfl) | rfl) | rfl
  · exact isPcharPlain_wire byte (by simp [isPcharPlain, isUserinfoPlain, isRegNamePlain, unreserved])
  · exact isPcharPlain_wire byte (by simp [isPcharPlain, isUserinfoPlain, isRegNamePlain, subDelim])
  all_goals decide

theorem isQueryByte_wire (byte : UInt8)
    (isQuery : (isQueryPlain byte || byte == percent) = true) : isWireByte byte = true := by
  simp only [isQueryPlain, Bool.or_eq_true, beq_iff_eq] at isQuery
  rcases isQuery with ((isPchar | rfl) | rfl) | rfl
  · exact isPcharPlain_wire byte isPchar
  all_goals decide

/-- The grammar has visible characters of ASCII only. -/
theorem wire_of_grammar (characters : Ipv6Characters isIpv6Address) (isScheme : Scheme scheme)
    (isHierPart : HierPart isIpv6Address hierPart)
    (isQuery : ∀ part ∈ query, Encoded isQueryPlain part)
    (isFragment : ∀ part ∈ fragment, Encoded isQueryPlain part) :
    ∀ byte ∈ assemble scheme hierPart query fragment, isWireByte byte = true := by
  have optional {delimiter : UInt8} (visible : isWireByte delimiter = true) {part : Option Bytes}
      (isPart : ∀ inner ∈ part, Encoded isQueryPlain inner) :
      ∀ byte ∈ optionalPart delimiter part, isWireByte byte = true := by
    cases part with
    | none => simp [optionalPart]
    | some inner =>
      rw [optionalPart, List.forall_mem_cons]
      refine ⟨visible, fun byte listed => isQueryByte_wire byte ?_⟩
      exact ((encoded_iff plainClass_query).mp (isPart inner rfl)).2 byte listed
  simp only [assemble, List.forall_mem_append, List.forall_mem_cons]
  refine ⟨fun byte listed => ?_, by decide, ⟨fun byte listed => ?_, optional (by decide) isQuery⟩,
    optional (by decide) isFragment⟩
  · exact isSchemeByte_wire byte (Scheme.plain isScheme byte listed)
  · exact isHierByte_wire byte ((HierPart.recognized characters isHierPart).2 byte listed)

theorem validateAfter_eq_ok (component : AbsoluteUriComponent) {stop place : Nat}
    {part : Option Bytes} (complete : ∀ inner ∈ part, CompleteTriplets inner)
    (isSlice : ∀ inner ∈ part, slice text (place + 1) stop = inner) :
    validateAfter component text stop (part.map fun _ => place) = .ok () ↔
      ∀ inner ∈ part, Encoded isQueryPlain inner := by
  cases part with
  | none => simp [validateAfter]
  | some inner =>
    simp only [Option.map_some, validateAfter, isSlice inner rfl,
      validateQueryOrFragment_eq_ok (complete inner rfl), Option.mem_some_iff, forall_eq']

namespace AbsoluteUri

variable {input : String} {maxBytes : Nat}

/-- What is stored about a URI with the given components. -/
def ofCut (input : String) (scheme hierPart : Bytes) (query fragment : Option Bytes) :
    AbsoluteUri where
  original := input
  schemeEnd := scheme.length
  queryDelimiter := query.map fun _ => scheme.length + 1 + hierPart.length
  fragmentDelimiter := fragment.map fun _ => (beforeFragment scheme hierPart query).length

/-- The views of a URI are its components. -/
theorem views_ofCut (cut : Cut (bytes input) scheme hierPart query fragment) :
    (ofCut input scheme hierPart query fragment).scheme = scheme ∧
      (ofCut input scheme hierPart query fragment).hierPart = hierPart ∧
      (ofCut input scheme hierPart query fragment).query = query ∧
      (ofCut input scheme hierPart query fragment).fragment = fragment := by
  have stop := cut.beforeFragmentEnd
  refine ⟨cut.take_scheme, ?_, ?_, ?_⟩
  · have hierEnd : ((query.map fun _ => scheme.length + 1 + hierPart.length).or
        (fragment.map fun _ => (beforeFragment scheme hierPart query).length)).getD
          (bytes input).length = scheme.length + 1 + hierPart.length := by
      rw [Option.getD_or, stop]
      exact Cut.hierEnd scheme hierPart query
    simp only [AbsoluteUri.hierPart, ofCut, hierEnd]
    exact cut.slice_hierPart
  · simp only [AbsoluteUri.query, ofCut, stop]
    cases isQuery : query with
    | none => rfl
    | some part =>
      have sliced := cut.slice_query isQuery
      rw [isQuery] at sliced
      simp [sliced]
  · cases isFragment : fragment with
    | none => rfl
    | some part => simp [AbsoluteUri.fragment, ofCut, cut.drop_fragment isFragment]

theorem parse_eq_ok_of_cut (characters : Ipv6Characters isIpv6Address)
    (ceiling : maxBytes ≤ absoluteUriHardMaxBytes) (short : input.utf8ByteSize ≤ maxBytes)
    (cut : Cut (bytes input) scheme hierPart query fragment) {uri : AbsoluteUri} :
    parseWithMaxBytes isIpv6Address input maxBytes = .ok uri ↔
      (∀ byte ∈ bytes input, isWireByte byte = true) ∧ Scheme scheme ∧
        HierPart isIpv6Address hierPart ∧ (∀ part ∈ query, Encoded isQueryPlain part) ∧
          (∀ part ∈ fragment, Encoded isQueryPlain part) ∧
            uri = ofCut input scheme hierPart query fragment := by
  have nonempty : bytes input ≠ [] := by
    rw [cut.whole]
    simp [assemble]
  rw [utf8ByteSize_eq] at short
  unfold parseWithMaxBytes
  simp only [if_neg (Nat.not_lt.mpr ceiling), if_neg (Nat.not_lt.mpr short), List.isEmpty_iff,
    if_neg nonempty, checkedBind_eq_ok, cut.find_colon, orFail, ok_bind, cut.take_scheme,
    cut.find_hash, cut.beforeFragmentEnd, cut.take_beforeFragment, cut.find_questionMark,
    Cut.hierEnd, cut.slice_hierPart, validateAsciiWireBytes_eq_ok, validateScheme_eq_ok,
    validatePercentTriplets_eq_ok, cut.completeTriplets_iff, map_eq_ok]
  have queryChecked (complete : ∀ part ∈ query, CompleteTriplets part) :=
    validateAfter_eq_ok .query complete fun part isQuery => cut.slice_query isQuery
  have fragmentChecked (complete : ∀ part ∈ fragment, CompleteTriplets part) :=
    validateAfter_eq_ok .fragment complete fun part isFragment =>
      cut.slice_fragment isFragment
  constructor
  · rintro ⟨wire, isScheme, ⟨hierComplete, queryComplete, fragmentComplete⟩, isHierPart, isQuery,
      _, isFragment, rfl⟩
    exact ⟨wire, isScheme, (validateHierPart_eq_ok characters hierComplete).mp isHierPart,
      (queryChecked queryComplete).mp isQuery, (fragmentChecked fragmentComplete).mp isFragment,
      rfl⟩
  · rintro ⟨wire, isScheme, isHierPart, isQuery, isFragment, rfl⟩
    have hierComplete := (HierPart.recognized characters isHierPart).1
    have complete {parts : Option Bytes} (encoded : ∀ part ∈ parts, Encoded isQueryPlain part) :
        ∀ part ∈ parts, CompleteTriplets part := fun part present =>
      ((encoded_iff plainClass_query).mp (encoded part present)).1
    exact ⟨wire, isScheme, ⟨hierComplete, complete isQuery, complete isFragment⟩,
      (validateHierPart_eq_ok characters hierComplete).mpr isHierPart,
      (queryChecked (complete isQuery)).mpr isQuery, (),
      (fragmentChecked (complete isFragment)).mpr isFragment, rfl⟩

/-- Whatever is parsed begins with a scheme. -/
theorem exists_cut_of_parse {uri : AbsoluteUri}
    (parsed : parseWithMaxBytes isIpv6Address input maxBytes = .ok uri) :
    ∃ scheme hierPart query fragment, Cut (bytes input) scheme hierPart query fragment := by
  unfold parseWithMaxBytes at parsed
  simp only at parsed
  split at parsed
  · contradiction
  split at parsed
  · contradiction
  split at parsed
  · contradiction
  obtain ⟨-, parsed⟩ := checkedBind_eq_ok.mp parsed
  obtain ⟨schemeEnd, found, parsed⟩ := bind_eq_ok.mp parsed
  obtain ⟨schemeChecked, -⟩ := checkedBind_eq_ok.mp parsed
  obtain ⟨scheme, rest, isText, -, rfl⟩ := exists_of_find (orFail_eq_ok.mp found)
  rw [isText, List.take_left] at schemeChecked
  exact ⟨scheme, exists_cut isText (Scheme.plain (validateScheme_eq_ok.mp schemeChecked))⟩

/-- Parsing accepts exactly the URIs of the grammar, and the views give back the whole text. -/
theorem parseWithMaxBytes_exact (characters : Ipv6Characters isIpv6Address)
    (ceiling : maxBytes ≤ absoluteUriHardMaxBytes) (short : input.utf8ByteSize ≤ maxBytes) :
    ((∃ uri, parseWithMaxBytes isIpv6Address input maxBytes = .ok uri) ↔
      UriGrammar.Uri isIpv6Address (bytes input)) ∧
    ∀ uri, parseWithMaxBytes isIpv6Address input maxBytes = .ok uri →
      bytes input = assemble uri.scheme uri.hierPart uri.query uri.fragment := by
  refine ⟨⟨?_, ?_⟩, ?_⟩
  · rintro ⟨uri, parsed⟩
    obtain ⟨scheme, hierPart, query, fragment, cut⟩ := exists_cut_of_parse parsed
    obtain ⟨-, isScheme, isHierPart, isQuery, isFragment, -⟩ :=
      (parse_eq_ok_of_cut characters ceiling short cut).mp parsed
    exact ⟨scheme, hierPart, query, fragment, cut.whole, isScheme, isHierPart, isQuery, isFragment⟩
  · rintro ⟨scheme, hierPart, query, fragment, isText, isScheme, isHierPart, isQuery, isFragment⟩
    have cut : Cut (bytes input) scheme hierPart query fragment :=
      isText ▸ cut_of_grammar characters isScheme isHierPart isQuery
    have wire : ∀ byte ∈ bytes input, isWireByte byte = true :=
      isText ▸ wire_of_grammar characters isScheme isHierPart isQuery isFragment
    exact ⟨_, (parse_eq_ok_of_cut characters ceiling short cut).mpr
      ⟨wire, isScheme, isHierPart, isQuery, isFragment, rfl⟩⟩
  · intro uri parsed
    obtain ⟨scheme, hierPart, query, fragment, cut⟩ := exists_cut_of_parse parsed
    obtain ⟨-, -, -, -, -, rfl⟩ := (parse_eq_ok_of_cut characters ceiling short cut).mp parsed
    obtain ⟨isScheme, isHierPart, isQuery, isFragment⟩ := views_ofCut cut
    rw [isScheme, isHierPart, isQuery, isFragment]
    exact cut.whole

/-- A parser that knows a single address. -/
def isLoopback (literal : Bytes) : Bool := literal == bytes "::1"

theorem ipv6Characters_isLoopback : Ipv6Characters isLoopback := by
  intro literal isAddress
  rw [isLoopback, beq_iff_eq] at isAddress
  rw [isAddress]
  exact List.all_eq_true.mp (by decide)

theorem parseWithMaxBytes_exact_loopback :
    UriGrammar.Uri isLoopback (bytes "http://me@[::1]:80/a%20b?q#f") ∧
      ¬ UriGrammar.Uri isLoopback (bytes "http://me@[1::2::3]:80/a%20b?q#f") := by
  have characters := ipv6Characters_isLoopback
  have accepted : parseWithMaxBytes isLoopback "http://me@[::1]:80/a%20b?q#f" 100 =
      .ok ⟨"http://me@[::1]:80/a%20b?q#f", 4, some 24, some 26⟩ := by
    decide
  have refused : parseWithMaxBytes isLoopback "http://me@[1::2::3]:80/a%20b?q#f" 100 =
      .error (.invalidAuthority 11 .invalidIpLiteral) := by
    decide
  have ceiling : 100 ≤ absoluteUriHardMaxBytes := by decide
  refine ⟨(parseWithMaxBytes_exact characters ceiling (by decide)).1.mp ⟨_, accepted⟩, ?_⟩
  intro isUri
  obtain ⟨uri, parsed⟩ := (parseWithMaxBytes_exact characters ceiling (by decide)).1.mpr isUri
  rw [refused] at parsed
  contradiction

end AbsoluteUri

end FastMcp.Uri
