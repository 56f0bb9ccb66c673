import FastMcp.MachineWords
import FastMcp.Outcomes
import FastMcp.PercentCoding

/-! # Filesystem resource URIs

The filesystem provider names a file by a URI: a fixed base, an optional
prefix, and the relative path with its own table of bytes that stay literal.
Only canonical spellings of relative paths are named, and a URI is read back
only in the spelling that the provider itself writes.

Paths are split as on Unix targets, the only ones the provider is built for.
-/

namespace FastMcp.Filesystem

open ByteText PercentCoding MachineWords Outcomes

def maxConfiguredFileSize : Nat := 10 * 1024 * 1024
def maxRelativePathBytes : Nat := 4096
def maxEncodedRelativePathBytes : Nat := maxRelativePathBytes * 3
def maxUriPrefixBytes : Nat := 256
def maxDescriptionBytes : Nat := 4096
def maxConfiguredEntries : Nat := 100000
def maxConfiguredDepth : Nat := 256
def maxConfiguredListingBytes : Nat := 10 * 1024 * 1024
def redactedResourcePath : String := "<resource-path>"

/-- What failed in the operating system, or in the text of a file. -/
inductive IoFailure where
  | cannotOpen (requested : String)
  | notRegular (path : String)
  | notUtf8 (path : String)
deriving DecidableEq, Repr

inductive FilesystemProviderError where
  | pathTraversal (requested : String)
  | tooLarge (path : String) (size max : Nat)
  | symlinkDenied (path : String)
  | hardLinkDenied (path : String) (links : Nat)
  | io (failure : IoFailure)
  | notFound (path : String)
  | tooManyEntries (count max : Nat)
  | tooDeep (path : String) (depth max : Nat)
  | listingTooLarge (size max : Nat)
  | invalidConfiguration (field : String)
  | cancelled
deriving DecidableEq, Repr

def pathTraversalError : FilesystemProviderError :=
  .pathTraversal redactedResourcePath

/-- The configuration of a provider. -/
structure FilesystemProvider where
  uriPrefix : Option String := none
  includePatterns : List String := []
  includePatternsValid : Bool := true
  -- Hidden entries, in the root and on every deeper level.
  excludePatterns : List String := [".*", "**/.*"]
  excludePatternsValid : Bool := true
  recursive : Bool := false
  maxFileSize : Nat := 10 * 1024 * 1024
  maxEntries : Nat := 10000
  maxDepth : Nat := 64
  maxListingBytes : Nat := 1024 * 1024
  description : Option String := none
deriving DecidableEq, Repr

def isDirectionalFormatCharacter (character : Char) : Bool :=
  character.toNat == 0x061c || character.toNat == 0x200e || character.toNat == 0x200f ||
    (0x202a ≤ character.toNat && character.toNat ≤ 0x202e) ||
    (0x2066 ≤ character.toNat && character.toNat ≤ 0x2069)

def hasUnsafeDisplayCharacters (text : String) : Bool :=
  text.toList.any fun character => isControl character || isDirectionalFormatCharacter character

def isAsciiAlphanumericByte (byte : UInt8) : Bool :=
  (0x30 ≤ byte && byte ≤ 0x39) || (0x41 ≤ byte && byte ≤ 0x5a) || (0x61 ≤ byte && byte ≤ 0x7a)

def isPrefixByte (byte : UInt8) : Bool :=
  isAsciiAlphanumericByte byte || (bytes "._-").contains byte

/-- One component of a path on a Unix target. -/
inductive Component where
  | rootDir
  | curDir
  | parentDir
  | normal (name : List Char)
deriving DecidableEq, Repr

/-- The component that a piece between separators stands for. Empty pieces and
single dots vanish. -/
def component? (piece : List Char) : Option Component :=
  if piece = [] ∨ piece = ['.'] then none
  else if piece = ['.', '.'] then some .parentDir
  else some (.normal piece)

/-- The components of a path. A single dot stays only at the very beginning. -/
def components (path : List Char) : List Component :=
  let pieces := path.splitOn '/'
  let start :=
    if path.head? = some '/' then [Component.rootDir]
    else if pieces.head? = some ['.'] then [Component.curDir]
    else []
  start ++ pieces.filterMap component?

/-- The name of an ordinary component. -/
def Component.normalName : Component → Except FilesystemProviderError (List Char)
  | .normal name => .ok name
  | .rootDir | .curDir | .parentDir => .error pathTraversalError

def resourcePathByteMayRemainLiteral (byte : UInt8) : Bool :=
  isAsciiAlphanumericByte byte || (bytes "-._~:/@!$&'()*+,;=").contains byte

def encodeResourcePath (path : String) : Except FilesystemProviderError String :=
  if path.utf8ByteSize * 3 > maxEncodedRelativePathBytes then .error pathTraversalError
  else .ok (asciiText ((bytes path).flatMap (encodeByte resourcePathByteMayRemainLiteral)))

/-- Every way to fail gives the same error, so the length may be checked at the
end. -/
def decodeResourcePath (encoded : Bytes) : Except FilesystemProviderError String :=
  match decode encoded with
  | none => .error pathTraversalError
  | some decoded =>
    if decoded.length > maxRelativePathBytes then .error pathTraversalError
    else
      match fromUtf8 decoded with
      | none => .error pathTraversalError
      | some path => .ok path

namespace FilesystemProvider

def validateConfiguration (provider : FilesystemProvider) : Except FilesystemProviderError Unit :=
  if !provider.includePatternsValid || !provider.excludePatternsValid then
    .error (.invalidConfiguration "glob_patterns")
  else if provider.maxFileSize > maxConfiguredFileSize then
    .error (.invalidConfiguration "max_file_size")
  else if provider.maxEntries = 0 ∨ provider.maxEntries > maxConfiguredEntries then
    .error (.invalidConfiguration "max_entries")
  else if provider.maxDepth > maxConfiguredDepth then
    .error (.invalidConfiguration "max_depth")
  else if provider.maxListingBytes < 2 ∨ provider.maxListingBytes > maxConfiguredListingBytes then
    .error (.invalidConfiguration "max_listing_bytes")
  else if provider.uriPrefix.any fun lead => lead.isEmpty ||
      decide (lead.utf8ByteSize > maxUriPrefixBytes) || (bytes lead).any (!isPrefixByte ·) then
    .error (.invalidConfiguration "prefix")
  else if provider.description.any fun description =>
      decide (description.utf8ByteSize > maxDescriptionBytes) ||
        hasUnsafeDisplayCharacters description then
    .error (.invalidConfiguration "description")
  else .ok ()

/-- Accepts exactly one spelling of a relative path with ordinary components. -/
def validatePath (requested : String) : Except FilesystemProviderError (List (List Char)) :=
  if requested.utf8ByteSize > maxRelativePathBytes ||
      requested.toList.any fun character =>
        isControl character || character == '?' || character == '#' then
    .error pathTraversalError
  else if requested.toList.head? = some '/' then .error pathTraversalError
  else
    ((components requested.toList).mapM Component.normalName).bind fun names =>
      if names = [] then .error pathTraversalError
      else if List.intercalate ['/'] names ≠ requested.toList then .error pathTraversalError
      else .ok names

/-- What every URI of the provider begins with. -/
def uriBase (provider : FilesystemProvider) : String :=
  match provider.uriPrefix with
  | some lead => "file:///" ++ lead ++ "/"
  | none => "file:///"

/-- The canonical URI of a file. -/
def fileUri (provider : FilesystemProvider) (relativePath : String) :
    Except FilesystemProviderError String :=
  (validatePath relativePath).bind fun _ =>
    (encodeResourcePath relativePath).bind fun encodedPath =>
      let baseBytes := match provider.uriPrefix with
        | some lead =>
          saturatingAdd usizeMax
            (saturatingAdd usizeMax "file:///".utf8ByteSize lead.utf8ByteSize) 1
        | none => 8
      match checkedAdd usizeMax baseBytes encodedPath.utf8ByteSize with
      | none => .error pathTraversalError
      | some _ => .ok (provider.uriBase ++ encodedPath)

/-- The template under which the provider is registered. -/
def uriTemplate (provider : FilesystemProvider) : String :=
  provider.uriBase ++ "\x7b+path\x7d"

/-- Reads the relative path back from a URI. -/
def pathFromUri (provider : FilesystemProvider) (uri : String) :
    Except FilesystemProviderError String :=
  if uri.utf8ByteSize >
        saturatingAdd usizeMax provider.uriBase.utf8ByteSize maxEncodedRelativePathBytes ||
      uri.toList.any fun character =>
        isControl character || character == '?' || character == '#' then
    .error pathTraversalError
  else
    match stripPrefix (bytes provider.uriBase) (bytes uri) with
    | none => .error pathTraversalError
    | some encodedPath =>
      (decodeResourcePath encodedPath).bind fun path =>
        (validatePath path).bind fun _ =>
          (encodeResourcePath path).bind fun canonical =>
            if bytes canonical ≠ encodedPath then .error pathTraversalError else .ok path

end FilesystemProvider

/-- The bytes that may stand in a URI of the provider. -/
def isUriByte (byte : UInt8) : Bool :=
  0x21 ≤ byte && byte ≤ 0x7e && byte != 0x3f && byte != 0x23

theorem isUriByte_ascii (byte : UInt8) (isUri : isUriByte byte = true) : byte < 128 := by
  simp only [isUriByte, Bool.and_eq_true, decide_eq_true_eq] at isUri
  exact UInt8.lt_of_le_of_lt isUri.1.1.2 (by decide)

theorem isUriByte_character (byte : UInt8) (isUri : isUriByte byte = true) :
    (isControl (Char.ofNat byte.toNat) || Char.ofNat byte.toNat == '?' ||
      Char.ofNat byte.toNat == '#') = false := by
  simp only [isUriByte, Bool.and_eq_true, decide_eq_true_eq, bne_iff_ne, UInt8.le_iff_toNat_le,
    ne_eq, ← UInt8.toNat_inj, UInt8.reduceToNat] at isUri
  obtain ⟨⟨⟨low, high⟩, noQuestion⟩, noHash⟩ := isUri
  have code := toNat_ofNat_byte byte
  generalize Char.ofNat byte.toNat = character at code ⊢
  have different (mark : Char) (other : byte.toNat ≠ mark.toNat) : (character == mark) = false := by
    rw [beq_eq_false_iff_ne]
    rintro rfl
    exact other code.symm
  rw [different '?' noQuestion, different '#' noHash]
  simp only [isControl, code, Bool.or_false, Bool.or_eq_false_iff, Bool.and_eq_false_iff,
    decide_eq_false_iff_not]
  omega

theorem isUriByte_of_listed {marks : Bytes} (plain : marks.all isUriByte = true) {byte : UInt8}
    (listed : (isAsciiAlphanumericByte byte || marks.contains byte) = true) :
    isUriByte byte = true := by
  rw [Bool.or_eq_true, List.contains_iff_mem] at listed
  rcases listed with inRange | isMark
  · simp only [isAsciiAlphanumericByte, isUriByte, Bool.or_eq_true, Bool.and_eq_true,
      decide_eq_true_eq, bne_iff_ne] at inRange ⊢
    grind
  · exact List.all_eq_true.mp plain byte isMark

theorem encodeByte_isUriByte (byte : UInt8) :
    ∀ written ∈ encodeByte resourcePathByteMayRemainLiteral byte, isUriByte written = true := by
  unfold encodeByte
  split
  next literal =>
    rw [List.forall_mem_singleton]
    exact isUriByte_of_listed (by decide) literal
  next => exact forall_triplet (isUriByte · = true) (by decide) (by decide) byte

theorem isPrefixByte_isUriByte (byte : UInt8) (isPrefix : isPrefixByte byte = true) :
    isUriByte byte = true :=
  isUriByte_of_listed (by decide) isPrefix

/-- What a path is written as. -/
def encodedBytes (path : String) : Bytes :=
  (bytes path).flatMap (encodeByte resourcePathByteMayRemainLiteral)

theorem encodedBytes_all (path : String) : ∀ byte ∈ encodedBytes path, isUriByte byte = true := by
  intro byte member
  obtain ⟨source, -, member⟩ := List.mem_flatMap.mp member
  exact encodeByte_isUriByte source byte member

theorem encodedBytes_length (path : String) :
    (encodedBytes path).length ≤ 3 * path.utf8ByteSize := by
  rw [utf8ByteSize_eq, encodedBytes, ← encode_eq_flatMap (by simp : false = true → _)]
  exact encode_length _ false _

theorem decode_encodedBytes (path : String) : decode (encodedBytes path) = some (bytes path) := by
  have decoded := decode_flatMap_append
    (by decide : resourcePathByteMayRemainLiteral percent = false) (bytes path) []
  simpa [encodedBytes, decode] using decoded

theorem encodeResourcePath_ok {path encoded : String} :
    encodeResourcePath path = .ok encoded ↔
      path.utf8ByteSize ≤ maxRelativePathBytes ∧ encoded = asciiText (encodedBytes path) := by
  unfold encodeResourcePath maxEncodedRelativePathBytes
  by_cases tooLong : path.utf8ByteSize * 3 > maxRelativePathBytes * 3
  · rw [if_pos tooLong]
    simp only [reduceCtorEq, false_iff, not_and]
    intro fits
    omega
  · rw [if_neg tooLong, Except.ok.injEq, eq_comm, ← encodedBytes]
    have fits : path.utf8ByteSize ≤ maxRelativePathBytes := by omega
    exact (and_iff_right fits).symm

namespace FilesystemProvider

variable {provider : FilesystemProvider} {path uri : String}

theorem validateConfiguration_lead (valid : provider.validateConfiguration = .ok ())
    {lead : String} (configured : provider.uriPrefix = some lead) :
    lead.utf8ByteSize ≤ maxUriPrefixBytes ∧ ∀ byte ∈ bytes lead, isPrefixByte byte = true := by
  have checked : (lead.isEmpty || decide (lead.utf8ByteSize > maxUriPrefixBytes) ||
      (bytes lead).any (!isPrefixByte ·)) = false := by
    unfold validateConfiguration at valid
    rw [configured] at valid
    by_contra bad
    rw [Bool.not_eq_false] at bad
    simp only [Option.any_some, bad, if_true] at valid
    repeat' split at valid
    all_goals contradiction
  simp only [Bool.or_eq_false_iff, decide_eq_false_iff_not, List.any_eq_false,
    Bool.not_eq_eq_eq_not, Bool.not_true, Bool.not_eq_false, Nat.not_lt] at checked
  exact ⟨checked.1.2, checked.2⟩

/-- What holds of the fixed base and of every byte of a prefix holds of every
byte that a URI of the provider begins with. -/
theorem uriBase_forall (valid : provider.validateConfiguration = .ok ()) {holds : UInt8 → Bool}
    (fixed : (bytes "file:///").all holds = true)
    (ofPrefix : ∀ byte, isPrefixByte byte = true → holds byte = true) :
    ∀ byte ∈ bytes provider.uriBase, holds byte = true := by
  rw [List.all_eq_true] at fixed
  unfold uriBase
  split
  · rename_i lead configured
    have leadBytes := (validateConfiguration_lead valid configured).2
    simp only [bytes_append, List.forall_mem_append]
    refine ⟨⟨fixed, fun byte member => ofPrefix byte (leadBytes byte member)⟩, ?_⟩
    intro byte member
    rw [List.mem_singleton.mp (show byte ∈ [0x2f] from member)]
    exact fixed 0x2f (by decide)
  · exact fixed

theorem uriBase_size (valid : provider.validateConfiguration = .ok ()) :
    provider.uriBase.utf8ByteSize ≤ 9 + maxUriPrefixBytes := by
  unfold uriBase
  split
  · rename_i lead configured
    have fits := (validateConfiguration_lead valid configured).1
    simp only [utf8ByteSize_eq, bytes_append, List.length_append] at fits ⊢
    have scheme : (bytes "file:///").length = 8 := by decide
    have slash : (bytes "/").length = 1 := by decide
    omega
  · decide

theorem fileUri_ok (named : provider.fileUri path = .ok uri) :
    (∃ names, validatePath path = .ok names) ∧ path.utf8ByteSize ≤ maxRelativePathBytes ∧
      bytes uri = bytes provider.uriBase ++ encodedBytes path := by
  obtain ⟨names, validated, encodedUri⟩ := bind_eq_ok.mp named
  obtain ⟨encoded, encodedOk, sized⟩ := bind_eq_ok.mp encodedUri
  obtain ⟨fits, rfl⟩ := encodeResourcePath_ok.mp encodedOk
  refine ⟨⟨names, validated⟩, fits, ?_⟩
  simp only at sized
  split at sized
  · contradiction
  · cases sized
    rw [bytes_append, bytes_asciiText]
    exact fun byte member => isUriByte_ascii byte (encodedBytes_all path byte member)

theorem fileUri_bytes (valid : provider.validateConfiguration = .ok ())
    (named : provider.fileUri path = .ok uri) : ∀ byte ∈ bytes uri, isUriByte byte = true := by
  rw [(fileUri_ok named).2.2]
  exact List.forall_mem_append.mpr
    ⟨uriBase_forall valid (by decide) isPrefixByte_isUriByte, encodedBytes_all path⟩

/-- The provider reads back every path that it names. -/
theorem pathFromUri_fileUri (valid : provider.validateConfiguration = .ok ())
    (named : provider.fileUri path = .ok uri) : provider.pathFromUri uri = .ok path := by
  obtain ⟨⟨names, validated⟩, fits, uriBytes⟩ := fileUri_ok named
  have plain := fileUri_bytes valid named
  have size : ¬ uri.utf8ByteSize >
      saturatingAdd usizeMax provider.uriBase.utf8ByteSize maxEncodedRelativePathBytes := by
    have short := encodedBytes_length path
    have base := uriBase_size valid
    unfold maxEncodedRelativePathBytes maxRelativePathBytes maxUriPrefixBytes at *
    rw [utf8ByteSize_eq uri, uriBytes, List.length_append, ← utf8ByteSize_eq, saturatingAdd]
    unfold usizeMax
    omega
  have characters : (uri.toList.any fun character =>
      isControl character || character == '?' || character == '#') = false := by
    rw [← asciiText_bytes fun byte member => isUriByte_ascii byte (plain byte member),
      toList_asciiText, List.any_eq_false]
    intro character member
    obtain ⟨byte, byteMember, rfl⟩ := List.mem_map.mp member
    simp only [isUriByte_character byte (plain byte byteMember), Bool.false_eq_true,
      not_false_eq_true]
  have decoded : decodeResourcePath (encodedBytes path) = .ok path := by
    rw [utf8ByteSize_eq] at fits
    simp only [decodeResourcePath, decode_encodedBytes, if_neg (Nat.not_lt.mpr fits),
      fromUtf8_bytes]
  have encoded := encodeResourcePath_ok.mpr ⟨fits, rfl⟩
  have written : bytes (asciiText (encodedBytes path)) = encodedBytes path :=
    bytes_asciiText fun byte member => isUriByte_ascii byte (encodedBytes_all path byte member)
  rw [pathFromUri, characters, Bool.or_false, decide_eq_false size, uriBytes, stripPrefix_append]
  simp [decoded, validated, encoded, written, Except.bind]

end FilesystemProvider

end FastMcp.Filesystem
