import FastMcp.FilesystemProvider

/-! # Canonical paths and their URIs

A path is accepted when it is a list of ordinary names joined by single slashes.
Such paths and the URIs that the provider reads back correspond to each other
one to one, and none of them leads out of the root directory.
-/

namespace FastMcp.Filesystem

open ByteText PercentCoding MachineWords Outcomes

/-- Characters that may stand in a requested path. -/
def isPathCharacter (character : Char) : Bool :=
  !(isControl character || character == '?' || character == '#')

/-- The name of a directory entry that is neither the directory nor its parent. -/
structure OrdinaryName (name : List Char) : Prop where
  nonempty : name ≠ []
  noSlash : '/' ∉ name
  notCurrent : name ≠ ['.']
  notParent : name ≠ ['.', '.']

/-- One or more ordinary names, joined by single slashes. -/
structure JoinedNames (path : List Char) (names : List (List Char)) : Prop where
  nonempty : names ≠ []
  ordinary : ∀ name ∈ names, OrdinaryName name
  joined : path = List.intercalate ['/'] names

/-- The paths that the provider serves. -/
structure CanonicalPath (path : String) : Prop where
  short : path.utf8ByteSize ≤ maxRelativePathBytes
  characters : ∀ character ∈ path.toList, isPathCharacter character = true
  joined : ∃ names, JoinedNames path.toList names

/-! ## Components -/

theorem mem_splitOn_noSlash {path piece : List Char} (cut : piece ∈ path.splitOn '/') :
    '/' ∉ piece := by
  induction path generalizing piece with
  | nil =>
    rw [List.splitOn_nil, List.mem_singleton] at cut
    simp [cut]
  | cons character path ih =>
    rw [List.splitOn_cons_eq_if_modifyHead] at cut
    split at cut
    · rcases List.mem_cons.mp cut with rfl | later
      · exact List.not_mem_nil
      · exact ih later
    · rename_i other
      cases pieces : path.splitOn '/' with
      | nil => exact absurd pieces (List.splitOn_ne_nil '/' path)
      | cons first rest =>
        rw [pieces, List.modifyHead_cons] at cut
        rcases List.mem_cons.mp cut with rfl | later
        · have firstFree := ih (pieces ▸ List.mem_cons_self)
          have notSlash : '/' ≠ character := fun same => other (beq_iff_eq.mpr same.symm)
          simp only [List.mem_cons, not_or]
          exact ⟨notSlash, firstFree⟩
        · exact ih (pieces ▸ List.mem_cons_of_mem _ later)

theorem mapM_normalName {parts : List Component} {names : List (List Char)} :
    parts.mapM Component.normalName = .ok names ↔ parts = names.map Component.normal := by
  induction parts generalizing names with
  | nil =>
    cases names <;> simp [pure, Except.pure]
  | cons part parts ih =>
    simp only [List.mapM_cons, andThen_eq_ok]
    constructor
    · rintro ⟨name, isName, rest, restNames, returned⟩
      cases returned
      cases part with
      | normal given =>
        cases isName
        rw [ih.mp restNames]
        rfl
      | rootDir => cases isName
      | curDir => cases isName
      | parentDir => cases isName
    · intro listed
      cases names with
      | nil => cases listed
      | cons name names =>
        obtain ⟨rfl, rest⟩ := List.cons.inj listed
        exact ⟨name, rfl, names, ih.mpr rest, rfl⟩

theorem component?_eq_normal {piece name : List Char} (noSlash : '/' ∉ piece)
    (isNormal : component? piece = some (.normal name)) : name = piece ∧ OrdinaryName piece := by
  unfold component? at isNormal
  split at isNormal
  · contradiction
  · rename_i visible
    rw [not_or] at visible
    split at isNormal
    · cases isNormal
    · rename_i notParent
      cases isNormal
      exact ⟨rfl, visible.1, noSlash, visible.2, notParent⟩

theorem component?_ordinary {name : List Char} (ordinary : OrdinaryName name) :
    component? name = some (.normal name) := by
  unfold component?
  rw [if_neg, if_neg ordinary.notParent]
  rw [not_or]
  exact ⟨ordinary.nonempty, ordinary.notCurrent⟩

/-- The components of ordinary names that are joined by single slashes are these names. -/
theorem components_intercalate {path : List Char} {names : List (List Char)}
    (joined : JoinedNames path names) : components path = names.map Component.normal := by
  obtain ⟨nonempty, ordinary, rfl⟩ := joined
  obtain ⟨first, rest, rfl⟩ := List.exists_cons_of_ne_nil nonempty
  have firstOrdinary := ordinary first List.mem_cons_self
  have pieces : (List.intercalate ['/'] (first :: rest)).splitOn '/' = first :: rest :=
    List.splitOn_intercalate '/' (fun name listed => (ordinary name listed).noSlash) nonempty
  have relative : (List.intercalate ['/'] (first :: rest)).head? ≠ some '/' := by
    obtain ⟨character, tail, isFirst⟩ := List.exists_cons_of_ne_nil firstOrdinary.nonempty
    have noSlash := firstOrdinary.noSlash
    rw [isFirst] at noSlash ⊢
    have headOf :
        (List.intercalate ['/'] ((character :: tail) :: rest)).head? = some character := by
      cases rest with
      | nil => simp
      | cons second rest => simp [List.intercalate_cons_cons]
    rw [headOf]
    intro isSlash
    exact noSlash (by simp [Option.some.inj isSlash])
  have notDotted : (first :: rest).head? ≠ some ['.'] := by
    intro dotted
    exact firstOrdinary.notCurrent (Option.some.inj dotted)
  simp only [components, pieces]
  rw [if_neg relative, if_neg notDotted, List.nil_append]
  have each : ∀ name ∈ first :: rest, component? name = some (.normal name) :=
    fun name listed => component?_ordinary (ordinary name listed)
  rw [List.filterMap_congr each]
  simp

/-- All components are normal only if every piece between the separators is ordinary or
vanishes. -/
theorem ordinary_of_components {path : List Char} {names : List (List Char)}
    (parts : components path = names.map Component.normal) :
    ∀ name ∈ names, OrdinaryName name := by
  intro name listed
  have isPart : Component.normal name ∈ components path := by
    rw [parts]
    exact List.mem_map_of_mem listed
  simp only [components, List.mem_append, List.mem_filterMap] at isPart
  rcases isPart with atStart | ⟨piece, cut, isNormal⟩
  · split at atStart
    · simp at atStart
    · split at atStart <;> simp at atStart
  · obtain ⟨rfl, ordinary⟩ := component?_eq_normal (mem_splitOn_noSlash cut) isNormal
    exact ordinary

namespace FilesystemProvider

variable {provider : FilesystemProvider} {path uri : String} {names : List (List Char)}

/-- A path is accepted with the names it is joined from. -/
theorem validatePath_eq_ok_iff :
    validatePath path = .ok names ↔ path.utf8ByteSize ≤ maxRelativePathBytes ∧
      (∀ character ∈ path.toList, isPathCharacter character = true) ∧
        JoinedNames path.toList names := by
  unfold validatePath
  by_cases bounded : path.utf8ByteSize ≤ maxRelativePathBytes ∧
      ∀ character ∈ path.toList, isPathCharacter character = true
  · have admitted : (decide (path.utf8ByteSize > maxRelativePathBytes) ||
        path.toList.any fun character =>
          isControl character || character == '?' || character == '#') = false := by
      rw [Bool.or_eq_false_iff, decide_eq_false_iff_not, List.any_eq_false]
      refine ⟨not_lt.mpr bounded.1, fun character listed => ?_⟩
      simpa [isPathCharacter] using bounded.2 character listed
    rw [if_neg (by simp [admitted])]
    constructor
    · intro validated
      split at validated
      · contradiction
      obtain ⟨found, isFound, returned⟩ := bind_eq_ok.mp validated
      split at returned
      · contradiction
      split at returned
      · contradiction
      rename_i nonempty canonical
      cases returned
      rw [not_not] at canonical
      exact ⟨bounded.1, bounded.2, nonempty, ordinary_of_components (mapM_normalName.mp isFound),
        canonical.symm⟩
    · rintro ⟨-, -, joined⟩
      have parts := components_intercalate joined
      have relative : path.toList.head? ≠ some '/' := by
        intro absolute
        have rooted : Component.rootDir ∈ components path.toList := by
          simp [components, absolute]
        rw [parts] at rooted
        simp at rooted
      rw [if_neg relative, mapM_normalName.mpr parts]
      simp only [Except.bind, if_neg joined.nonempty]
      rw [if_neg (not_not.mpr joined.joined.symm)]
  · rw [if_pos]
    · constructor
      · intro impossible
        contradiction
      · rintro ⟨short, characters, -⟩
        exact absurd ⟨short, characters⟩ bounded
    · rw [Bool.or_eq_true, decide_eq_true_eq, List.any_eq_true]
      by_contra admitted
      rw [not_or, not_exists] at admitted
      apply bounded
      refine ⟨not_lt.mp admitted.1, fun character listed => ?_⟩
      simpa [isPathCharacter] using fun refused => admitted.2 character ⟨listed, refused⟩

theorem validatePath_isOk_iff :
    (∃ names, validatePath path = .ok names) ↔ CanonicalPath path := by
  constructor
  · rintro ⟨names, validated⟩
    obtain ⟨short, characters, joined⟩ := validatePath_eq_ok_iff.mp validated
    exact ⟨short, characters, names, joined⟩
  · rintro ⟨short, characters, names, joined⟩
    exact ⟨names, validatePath_eq_ok_iff.mpr ⟨short, characters, joined⟩⟩

/-! ## Paths and URIs -/

theorem fileUri_eq_ok (valid : provider.validateConfiguration = .ok ())
    (canonical : CanonicalPath path) :
    provider.fileUri path = .ok (provider.uriBase ++ asciiText (encodedBytes path)) := by
  obtain ⟨names, validated⟩ := validatePath_isOk_iff.mpr canonical
  have encoded := encodeResourcePath_ok.mpr ⟨canonical.short, rfl⟩
  have written : (asciiText (encodedBytes path)).utf8ByteSize ≤ 3 * maxRelativePathBytes := by
    rw [utf8ByteSize_eq, bytes_asciiText
      fun byte member => isUriByte_ascii byte (encodedBytes_all path byte member)]
    have length := encodedBytes_length path
    have short := canonical.short
    omega
  unfold fileUri
  rw [validated, Except.bind, encoded, Except.bind]
  simp only
  split
  · rename_i overflow
    have sum := checkedAdd_eq_none.mp overflow
    unfold maxRelativePathBytes at written
    unfold usizeMax at sum
    cases configured : provider.uriPrefix with
    | none =>
      simp only [configured] at sum
      omega
    | some lead =>
      have fits := (validateConfiguration_lead valid configured).1
      have scheme : "file:///".utf8ByteSize = 8 := by decide
      unfold maxUriPrefixBytes at fits
      simp only [configured, saturatingAdd, scheme] at sum
      omega
  · rfl

/-- A URI is read back as a path only in the spelling in which that path is named. -/
theorem fileUri_of_pathFromUri (valid : provider.validateConfiguration = .ok ())
    (read : provider.pathFromUri uri = .ok path) :
    CanonicalPath path ∧ provider.fileUri path = .ok uri := by
  unfold pathFromUri at read
  split at read
  · contradiction
  split at read
  · contradiction
  rename_i encodedPath stripped
  obtain ⟨decoded, isDecoded, checked⟩ := bind_eq_ok.mp read
  obtain ⟨names, validated, checked⟩ := bind_eq_ok.mp checked
  obtain ⟨canonical, isCanonical, returned⟩ := bind_eq_ok.mp checked
  split at returned
  · contradiction
  rename_i same
  cases returned
  rw [not_not] at same
  have isCanonicalPath := validatePath_isOk_iff.mp ⟨names, validated⟩
  use isCanonicalPath
  rw [fileUri_eq_ok valid isCanonicalPath, ← (encodeResourcePath_ok.mp isCanonical).2]
  apply congrArg Except.ok
  apply bytes_injective
  rw [bytes_append, same]
  exact (stripPrefix_eq_some.mp stripped).symm

/-! ## Inside the root -/

end FilesystemProvider

/-- A walk along the components that never goes above the directory where it starts. -/
def StaysInside (path : List Component) : Prop :=
  Component.rootDir ∉ path ∧
    ∀ lead, lead <+: path → lead.count .parentDir ≤ lead.countP fun part => part matches .normal _

theorem staysInside_normal (names : List (List Char)) :
    StaysInside (names.map Component.normal) := by
  constructor
  · simp
  · intro lead isLead
    have noParent : Component.parentDir ∉ lead := by
      intro listed
      have inPath := isLead.subset listed
      simp at inPath
    rw [List.count_eq_zero_of_not_mem noParent]
    exact Nat.zero_le _

namespace FilesystemProvider

/-- The URIs that are read and the canonical paths correspond one to one. -/
theorem pathFromUri_bijective {provider : FilesystemProvider}
    (valid : provider.validateConfiguration = .ok ()) :
    (∀ uri path, provider.pathFromUri uri = .ok path ↔
      (∃ names, validatePath path = .ok names) ∧ provider.fileUri path = .ok uri) ∧
    (∀ path, (∃ names, validatePath path = .ok names) ↔ CanonicalPath path) ∧
    (∀ first second path, provider.pathFromUri first = .ok path →
      provider.pathFromUri second = .ok path → first = second) ∧
    (∀ uri path, provider.pathFromUri uri = .ok path → StaysInside (components path.toList)) := by
  refine ⟨?_, fun path => validatePath_isOk_iff, ?_, ?_⟩
  · intro uri path
    constructor
    · intro read
      obtain ⟨canonical, named⟩ := fileUri_of_pathFromUri valid read
      exact ⟨validatePath_isOk_iff.mpr canonical, named⟩
    · rintro ⟨-, named⟩
      exact pathFromUri_fileUri valid named
  · intro first second path firstRead secondRead
    have firstNamed := (fileUri_of_pathFromUri valid firstRead).2
    have secondNamed := (fileUri_of_pathFromUri valid secondRead).2
    rw [firstNamed] at secondNamed
    exact Except.ok.inj secondNamed
  · intro uri path read
    obtain ⟨names, joined⟩ := (fileUri_of_pathFromUri valid read).1.joined
    rw [components_intercalate joined]
    exact staysInside_normal names

theorem pathFromUri_bijective_blank :
    FilesystemProvider.pathFromUri { uriPrefix := some "docs" } "file:///docs/a%20b/x.md" =
      .ok "a b/x.md" := by
  have valid : FilesystemProvider.validateConfiguration { uriPrefix := some "docs" } = .ok () := by
    decide
  have named : FilesystemProvider.fileUri { uriPrefix := some "docs" } "a b/x.md" =
      .ok "file:///docs/a%20b/x.md" := by
    decide
  have accepted : ∃ names, validatePath "a b/x.md" = .ok names :=
    ⟨[['a', ' ', 'b'], ['x', '.', 'm', 'd']], by decide⟩
  exact ((pathFromUri_bijective valid).1 _ _).mpr ⟨accepted, named⟩

end FilesystemProvider

end FastMcp.Filesystem
