import FastMcp.FilesystemListing

/-! # Listed files are the readable files

Both the walk and the read are compared with one relation: the names that lead
from a directory to a file that the provider exposes.
-/

namespace FastMcp.Filesystem

open ByteText MachineWords Outcomes

/-! ## Joined names -/

/-- The path that consists of the given names. -/
def joined (names : List (List Char)) : String :=
  String.ofList (List.intercalate ['/'] names)

theorem intercalate_append {first second : List (List Char)} (firstSome : first ≠ [])
    (secondSome : second ≠ []) :
    List.intercalate ['/'] (first ++ second) =
      List.intercalate ['/'] first ++ '/' :: List.intercalate ['/'] second := by
  induction first with
  | nil => contradiction
  | cons name first ih =>
    cases first with
    | nil =>
      obtain ⟨other, second, rfl⟩ := List.exists_cons_of_ne_nil secondSome
      simp [List.intercalate_cons_cons]
    | cons next first =>
      have rest := ih (by simp)
      simp only [List.cons_append] at rest ⊢
      rw [List.intercalate_cons_cons, rest, List.intercalate_cons_cons]
      simp

theorem intercalate_concat (lead : List (List Char)) (name : List Char) :
    List.intercalate ['/'] (lead ++ [name]) =
      if lead = [] then name else List.intercalate ['/'] lead ++ '/' :: name := by
  split
  · rename_i isRoot
    simp [isRoot]
  · rename_i nonempty
    rw [intercalate_append nonempty (by simp)]
    simp

theorem intercalate_eq_nil {names : List (List Char)}
    (nonempty : ∀ name ∈ names, name ≠ []) : List.intercalate ['/'] names = [] ↔ names = [] := by
  constructor
  · intro empty
    cases names with
    | nil => rfl
    | cons name names =>
      have first := nonempty name List.mem_cons_self
      cases names with
      | nil => simp [first] at empty
      | cons next names => simp [List.intercalate_cons_cons] at empty
  · rintro rfl
    rfl

theorem length_le_intercalate {names : List (List Char)} (nonempty : ∀ name ∈ names, name ≠ []) :
    names.length ≤ (List.intercalate ['/'] names).length := by
  induction names with
  | nil => exact Nat.zero_le _
  | cons name names ih =>
    have first := List.length_pos_iff.mpr (nonempty name List.mem_cons_self)
    have rest := ih fun other listed => nonempty other (List.mem_cons_of_mem _ listed)
    cases names with
    | nil => simpa [Nat.one_le_iff_ne_zero, Nat.pos_iff_ne_zero] using first
    | cons next names =>
      rw [List.intercalate_cons_cons]
      simp only [List.length_append, List.length_cons] at rest ⊢
      omega

theorem length_le_utf8ByteSize (characters : List Char) :
    characters.length ≤ (String.ofList characters).utf8ByteSize := by
  induction characters with
  | nil => exact Nat.zero_le _
  | cons character characters ih =>
    rw [utf8ByteSize_eq, bytes_ofList] at ih ⊢
    have positive : 0 < (String.utf8EncodeChar character).length :=
      List.length_pos_iff.mpr (by simp)
    simp only [List.flatMap_cons, List.length_append, List.length_cons]
    omega

/-- Every path above an accepted path is accepted as well. -/
theorem JoinedNames.lead {lead rest : List (List Char)} (nonempty : lead ≠ [])
    {path : List Char} (names : JoinedNames path (lead ++ rest)) :
    JoinedNames (List.intercalate ['/'] lead) lead ∧ List.intercalate ['/'] lead <+: path := by
  constructor
  · exact ⟨nonempty, fun name listed => names.ordinary name (List.mem_append_left rest listed), rfl⟩
  · rw [names.joined]
    cases rest with
    | nil => simp
    | cons next rest =>
      rw [intercalate_append nonempty (by simp)]
      exact List.prefix_append _ _

namespace FilesystemProvider

/-- The names are accepted in just this way. -/
def Accepts (names : List (List Char)) : Prop :=
  validatePath (joined names) = .ok names

theorem joined_of_validatePath {path : String} {names : List (List Char)}
    (validated : validatePath path = .ok names) : path = joined names := by
  have canonical := (validatePath_eq_ok_iff.mp validated).2.2.joined
  rw [joined, ← canonical, String.ofList_toList]

theorem accepts_iff {names : List (List Char)} :
    Accepts names ↔ (joined names).utf8ByteSize ≤ maxRelativePathBytes ∧
      (∀ character ∈ List.intercalate ['/'] names, isPathCharacter character = true) ∧
        names ≠ [] ∧ ∀ name ∈ names, OrdinaryName name := by
  unfold Accepts
  rw [validatePath_eq_ok_iff]
  simp only [joined, String.toList_ofList]
  apply and_congr_right'
  apply and_congr_right'
  constructor
  · intro names
    exact ⟨names.nonempty, names.ordinary⟩
  · rintro ⟨nonempty, ordinary⟩
    exact ⟨nonempty, ordinary, rfl⟩

theorem Accepts.ordinary {names : List (List Char)} (accepted : Accepts names) :
    ∀ name ∈ names, OrdinaryName name :=
  (accepts_iff.mp accepted).2.2.2

theorem Accepts.injective {first second : List (List Char)} (firstAccepted : Accepts first)
    (secondAccepted : Accepts second) (same : joined first = joined second) : first = second := by
  unfold Accepts at firstAccepted secondAccepted
  rw [same, secondAccepted] at firstAccepted
  exact (Except.ok.inj firstAccepted).symm

theorem Accepts.lead {lead rest : List (List Char)} (accepted : Accepts (lead ++ rest))
    (nonempty : lead ≠ []) : Accepts lead := by
  obtain ⟨short, characters, joinedNames⟩ := validatePath_eq_ok_iff.mp accepted
  obtain ⟨leadNames, isLead⟩ := joinedNames.lead nonempty
  rw [accepts_iff]
  refine ⟨?_, ?_, nonempty, leadNames.ordinary⟩
  · obtain ⟨tail, split⟩ := isLead
    have whole : joined (lead ++ rest) = joined lead ++ String.ofList tail := by
      rw [← String.ofList_toList (s := joined (lead ++ rest)), ← split, String.ofList_append]
      rfl
    rw [whole, String.utf8ByteSize_append] at short
    omega
  · intro character listed
    exact characters character (isLead.subset listed)

theorem Accepts.length_le {names : List (List Char)} (accepted : Accepts names) :
    names.length ≤ maxRelativePathBytes := by
  have nonempty : ∀ name ∈ names, name ≠ [] := fun name listed =>
    (accepted.ordinary name listed).nonempty
  calc
    names.length ≤ (List.intercalate ['/'] names).length := length_le_intercalate nonempty
    _ ≤ (joined names).utf8ByteSize := length_le_utf8ByteSize _
    _ ≤ maxRelativePathBytes := (accepts_iff.mp accepted).1

/-! ## The path of an entry -/

/-- Where the walk stands: in the root, or in a directory with an accepted path. -/
def Reached (lead : List (List Char)) : Prop :=
  lead = [] ∨ Accepts lead

theorem Reached.ordinary {lead : List (List Char)} (reached : Reached lead) :
    ∀ name ∈ lead, OrdinaryName name := by
  rcases reached with rfl | accepted
  · simp
  · exact accepted.ordinary

theorem Reached.childPath {lead : List (List Char)} (reached : Reached lead) (name : String) :
    (if (joined lead).isEmpty then name else joined lead ++ "/" ++ name) =
      joined (lead ++ [name.toList]) := by
  have isRoot : (joined lead).isEmpty = true ↔ lead = [] := by
    rw [String.isEmpty_iff, joined, String.ofList_eq_empty_iff]
    exact intercalate_eq_nil fun name listed => (reached.ordinary name listed).nonempty
  by_cases empty : lead = []
  · rw [if_pos (isRoot.mpr empty), joined, intercalate_concat, if_pos empty, String.ofList_toList]
  · rw [if_neg (mt isRoot.mp empty), joined, joined, intercalate_concat, if_neg empty,
      String.ofList_append, String.ofList_cons, String.ofList_toList]
    simp [String.append_assoc]

/-- An entry whose name contains a separator is never represented. -/
theorem accepts_of_component {lead names : List (List Char)} {name : List Char}
    (reached : Reached lead) (normal : isNormalComponent name = true)
    (validated : validatePath (joined (lead ++ [name])) = .ok names) : names = lead ++ [name] := by
  obtain ⟨-, -, joinedNames⟩ := validatePath_eq_ok_iff.mp validated
  have pieces : List.intercalate ['/'] (lead ++ [name]) =
      List.intercalate ['/'] (lead ++ name.splitOn '/') := by
    rw [intercalate_concat]
    by_cases empty : lead = []
    · rw [if_pos empty, empty, List.nil_append, List.intercalate_splitOn]
    · rw [if_neg empty, intercalate_append empty (List.splitOn_ne_nil _ _),
        List.intercalate_splitOn]
  have cut : names = lead ++ name.splitOn '/' := by
    have wholeFree : ∀ piece ∈ lead ++ name.splitOn '/', '/' ∉ piece := by
      intro piece listed
      rcases List.mem_append.mp listed with inLead | inName
      · exact (reached.ordinary piece inLead).noSlash
      · exact mem_splitOn_noSlash inName
    have ofNames := List.splitOn_intercalate '/'
      (fun piece listed => (joinedNames.ordinary piece listed).noSlash) joinedNames.nonempty
    have ofPieces := List.splitOn_intercalate '/' wholeFree (by simp [List.splitOn_ne_nil])
    rw [← joinedNames.joined, joined, String.toList_ofList, pieces, ofPieces] at ofNames
    exact ofNames.symm
  have nameJoined : JoinedNames name (name.splitOn '/') := by
    refine ⟨List.splitOn_ne_nil _ _, ?_, (List.intercalate_splitOn '/').symm⟩
    intro piece listed
    exact joinedNames.ordinary piece (cut ▸ List.mem_append_right lead listed)
  have parts := components_intercalate nameJoined
  have single : name.splitOn '/' = [name] := by
    unfold isNormalComponent at normal
    rw [parts] at normal
    match splitted : name.splitOn '/', normal with
    | [], impossible => simp at impossible
    | [only], _ =>
      have rejoined : List.intercalate ['/'] (name.splitOn '/') = name :=
        List.intercalate_splitOn '/'
      rw [splitted] at rejoined
      simpa using rejoined
    | first :: second :: rest, impossible => simp at impossible
  rw [cut, single]

theorem entryPath_eq_some {lead : List (List Char)} {entry : Bytes} {path : String}
    (reached : Reached lead) :
    entryPath (joined lead) entry = some path ↔
      ∃ name, entry = bytes (String.ofList name) ∧ path = joined (lead ++ [name]) ∧
        Accepts (lead ++ [name]) := by
  unfold entryPath
  constructor
  · intro represented
    split at represented
    · contradiction
    rename_i fileName decoded
    split at represented
    · contradiction
    split at represented
    · contradiction
    rename_i normal
    rw [Bool.not_eq_true, Bool.not_eq_false'] at normal
    rw [reached.childPath] at represented
    simp only at represented
    split at represented
    · contradiction
    rename_i names validated
    cases represented
    use fileName.toList
    rw [String.ofList_toList]
    refine ⟨(bytes_of_fromUtf8 decoded).symm, rfl, ?_⟩
    rw [Accepts, validated, accepts_of_component reached normal validated]
  · rintro ⟨name, rfl, rfl, accepted⟩
    obtain ⟨-, characters, -, ordinary⟩ := accepts_iff.mp accepted
    have printable : name.any isControl = false := by
      rw [List.any_eq_false]
      intro character listed isControlCharacter
      have inPath : character ∈ List.intercalate ['/'] (lead ++ [name]) := by
        rw [intercalate_concat]
        split <;> simp [listed]
      have admitted := characters character inPath
      simp [isPathCharacter, isControlCharacter] at admitted
    have normal : isNormalComponent name = true := by
      have alone : JoinedNames name [name] :=
        ⟨by simp, by simpa using ordinary name (by simp), by simp⟩
      simp [isNormalComponent, components_intercalate alone]
    simp only [fromUtf8_bytes, String.toList_ofList, printable, normal, Bool.not_true,
      Bool.false_eq_true, if_false, reached.childPath]
    have validated : validatePath (joined (lead ++ [name])) = .ok (lead ++ [name]) := accepted
    rw [validated]

/-! ## Exposed files -/

variable (provider : FilesystemProvider)

/-- The names are accepted and no pattern excludes their path. -/
def Admits (names : List (List Char)) : Prop :=
  Accepts names ∧ provider.isExcluded (joined names) = false

/-- The further names lead from a node at the given place to a file that may be seen. -/
def Exposes : Node → List (List Char) → List (List Char) → Prop
  | .leaf (.file links _), lead, [] => links = 1 ∧ provider.matchesPatterns (joined lead) = true
  | .directory children, lead, name :: names =>
    (lead = [] ∨ provider.recursive = true) ∧ provider.Admits (lead ++ [name]) ∧
      ∃ node, children.find? (bytes (String.ofList name)) = some node ∧
        Exposes node (lead ++ [name]) names
  | _, _, _ => False

variable {provider}

theorem exposes_cons {directory : Directory} {lead names : List (List Char)} {name : List Char} :
    provider.Exposes (.directory directory) lead (name :: names) ↔
      (lead = [] ∨ provider.recursive = true) ∧ provider.Admits (lead ++ [name]) ∧
        ∃ node, directory.find? (bytes (String.ofList name)) = some node ∧
          provider.Exposes node (lead ++ [name]) names :=
  Iff.rfl

theorem exposes_directory_nil {directory : Directory} {lead : List (List Char)} :
    ¬ provider.Exposes (.directory directory) lead [] := id

theorem exposes_leaf {leaf : Leaf} {lead names : List (List Char)} :
    provider.Exposes (.leaf leaf) lead names ↔
      names = [] ∧ (∃ content, leaf = .file 1 content) ∧
        provider.matchesPatterns (joined lead) = true := by
  cases names with
  | nil =>
    cases leaf with
    | file links content => simp [Exposes]
    | symlink => simp [Exposes]
    | other => simp [Exposes]
  | cons name names => simp [Exposes]

theorem Exposes.accepts {node : Node} {lead names : List (List Char)}
    (exposed : provider.Exposes node lead names) (reached : Accepts lead ∨ names ≠ []) :
    Accepts (lead ++ names) := by
  induction names generalizing node lead with
  | nil =>
    rw [List.append_nil]
    exact reached.resolve_right (by simp)
  | cons name names ih =>
    cases node with
    | leaf leaf => cases (exposes_leaf.mp exposed).1
    | directory directory =>
      obtain ⟨-, admitted, node, -, beneath⟩ := exposes_cons.mp exposed
      have deeper := ih beneath (.inl admitted.1)
      rwa [List.append_assoc] at deeper

/-! ## What the walk collects -/

variable (provider)

/-- The entries that a walk adds for a directory at the given place. -/
structure Collects (directory : Directory) (lead : List (List Char)) (found : List FileEntry) :
    Prop where
  listed : ∀ path, path ∈ found.map FileEntry.relativePath ↔
    ∃ names, provider.Exposes (.directory directory) lead names ∧ path = joined (lead ++ names)
  distinct : (found.map FileEntry.relativePath).Nodup
  shallow : ∀ names, provider.Exposes (.directory directory) lead names →
    lead.length + names.length ≤ provider.maxDepth + 1

variable {provider}

theorem Collects.nothing {directory : Directory} {lead : List (List Char)}
    (hidden : ∀ names, ¬ provider.Exposes (.directory directory) lead names) :
    provider.Collects directory lead [] := by
  constructor
  · simp [hidden]
  · exact List.nodup_nil
  · intro names exposed
    exact absurd exposed (hidden names)

/-- The entries of a directory are collected one after another. -/
theorem Collects.append {whole first rest : Directory} {lead : List (List Char)}
    {own found : List FileEntry}
    (split : ∀ name, whole.find? name = (first.find? name).or (rest.find? name))
    (apart : ∀ name, first.find? name = none ∨ rest.find? name = none)
    (ofFirst : provider.Collects first lead own) (ofRest : provider.Collects rest lead found) :
    provider.Collects whole lead (own ++ found) := by
  have either : ∀ names, provider.Exposes (.directory whole) lead names ↔
      provider.Exposes (.directory first) lead names ∨
        provider.Exposes (.directory rest) lead names := by
    intro names
    cases names with
    | nil => simp [exposes_directory_nil]
    | cons name names =>
      simp only [exposes_cons, split]
      rcases apart (bytes (String.ofList name)) with absent | absent <;> simp [absent]
  constructor
  · intro path
    rw [List.map_append, List.mem_append, ofFirst.listed, ofRest.listed]
    simp only [either, or_and_right, exists_or]
  · rw [List.map_append, List.nodup_append]
    refine ⟨ofFirst.distinct, ofRest.distinct, ?_⟩
    intro path inFirst other inRest same
    obtain ⟨names, exposed, isPath⟩ := (ofFirst.listed path).mp inFirst
    obtain ⟨others, exposedToo, isOther⟩ := (ofRest.listed other).mp inRest
    cases names with
    | nil => exact exposes_directory_nil exposed
    | cons name names =>
      cases others with
      | nil => exact exposes_directory_nil exposedToo
      | cons otherName others =>
        -- The path determines the names, and the first of them is found on one side only.
        have sameNames := (exposed.accepts (.inr (by simp))).injective
          (exposedToo.accepts (.inr (by simp))) (by rw [← isPath, ← isOther, same])
        obtain ⟨rfl, -⟩ := List.cons.inj (List.append_cancel_left sameNames)
        obtain ⟨-, -, node, found, -⟩ := exposes_cons.mp exposed
        obtain ⟨-, -, node, foundToo, -⟩ := exposes_cons.mp exposedToo
        rcases apart (bytes (String.ofList name)) with absent | absent
        · rw [absent] at found
          contradiction
        · rw [absent] at foundToo
          contradiction
  · intro names exposed
    rcases (either names).mp exposed with inFirst | inRest
    · exact ofFirst.shallow names inFirst
    · exact ofRest.shallow names inRest

theorem find?_eq_none {directory : Directory} {name : Bytes} (absent : name ∉ directory.names) :
    directory.find? name = none := by
  induction directory with
  | empty => rfl
  | leaf entry node rest ih =>
    rw [Directory.names, List.mem_cons, not_or] at absent
    rw [Directory.find?, if_neg (Ne.symm absent.1), ih absent.2]
  | directory entry children rest _ ih =>
    rw [Directory.names, List.mem_cons, not_or] at absent
    rw [Directory.find?, if_neg (Ne.symm absent.1), ih absent.2]

theorem Collects.cons {first rest whole : Directory} {entry : Bytes} {node : Node}
    {lead : List (List Char)} {own found : List FileEntry} (fresh : entry ∉ rest.names)
    (single : ∀ name, first.find? name = if entry = name then some node else none)
    (split : ∀ name, whole.find? name = if entry = name then some node else rest.find? name)
    (ofFirst : provider.Collects first lead own) (ofRest : provider.Collects rest lead found) :
    provider.Collects whole lead (own ++ found) := by
  apply Collects.append _ _ ofFirst ofRest
  · intro name
    rw [split, single]
    split <;> rfl
  · intro name
    rw [single]
    split
    next same => exact .inr (find?_eq_none (same ▸ fresh))
    next => exact .inl rfl

/-! ## One entry -/

variable {context : Nat → Bool} {walk final : Walk} {lead : List (List Char)}

theorem checkpoint_entries (passed : walk.checkpoint context = .ok final) :
    final.entries = walk.entries := by
  unfold Walk.checkpoint at passed
  split at passed
  · cases passed
    rfl
  · contradiction

theorem inspectEntry_entries (inspected : provider.inspectEntry context walk = .ok final) :
    final.entries = walk.entries := by
  obtain ⟨middle, passed, counted⟩ := bind_eq_ok.mp inspected
  simp only at counted
  split at counted
  · contradiction
  · rw [← checkpoint_entries passed]
    cases counted
    rfl

theorem pushEntry_entries {path : String} {size : Nat}
    (pushed : provider.pushEntry path size walk = .ok final) :
    ∃ entry : FileEntry, entry.relativePath = path ∧ final.entries = walk.entries ++ [entry] := by
  obtain ⟨uri, -, added⟩ := bind_eq_ok.mp pushed
  simp only at added
  split at added
  · contradiction
  · cases added
    exact ⟨_, rfl, rfl⟩

/-- What a directory with a single leaf exposes, in terms of the checks of the walk. -/
theorem exposes_single_leaf {entry : Bytes} {node : Leaf} {names : List (List Char)}
    (descended : lead = [] ∨ provider.recursive = true) :
    provider.Exposes (.directory (.leaf entry node .empty)) lead names ↔
      ∃ name, names = [name] ∧ entry = bytes (String.ofList name) ∧ Accepts (lead ++ [name]) ∧
        (∃ content, node = .file 1 content) ∧
          provider.matchesPatterns (joined (lead ++ [name])) = true := by
  cases names with
  | nil => simp [exposes_directory_nil]
  | cons name names =>
    simp only [exposes_cons, Directory.find?, Option.ite_none_right_eq_some, Option.some.injEq]
    constructor
    · rintro ⟨-, admitted, node, ⟨isEntry, rfl⟩, exposed⟩
      obtain ⟨rfl, isFile, matched⟩ := exposes_leaf.mp exposed
      exact ⟨name, rfl, isEntry, admitted.1, isFile, matched⟩
    · rintro ⟨only, isOnly, isEntry, accepted, isFile, matched⟩
      obtain ⟨rfl, rfl⟩ := List.cons.inj isOnly
      have notExcluded : provider.isExcluded (joined (lead ++ [name])) = false := by
        unfold matchesPatterns at matched
        split at matched
        · contradiction
        · rename_i notExcluded
          simpa using notExcluded
      exact ⟨descended, ⟨accepted, notExcluded⟩, _, ⟨isEntry, rfl⟩,
        exposes_leaf.mpr ⟨rfl, isFile, matched⟩⟩

theorem visitLeaf_collects {entry : Bytes} {node : Leaf} (reached : Reached lead)
    (descended : lead = [] ∨ provider.recursive = true) (bounded : lead.length ≤ provider.maxDepth)
    (visited : provider.visitLeaf (joined lead) entry node walk = .ok final) :
    ∃ own, final.entries = walk.entries ++ own ∧
      provider.Collects (.leaf entry node .empty) lead own := by
  have shallow : ∀ names, provider.Exposes (.directory (.leaf entry node .empty)) lead names →
      lead.length + names.length ≤ provider.maxDepth + 1 := by
    intro names exposed
    obtain ⟨name, rfl, -⟩ := (exposes_single_leaf descended).mp exposed
    simpa using bounded
  have skip (unseen : ∀ name, entry = bytes (String.ofList name) → Accepts (lead ++ [name]) →
      (∃ content, node = .file 1 content) →
        provider.matchesPatterns (joined (lead ++ [name])) = false) :
      ∃ own, walk.entries = walk.entries ++ own ∧
        provider.Collects (.leaf entry node .empty) lead own := by
    refine ⟨[], by simp, Collects.nothing fun names exposed => ?_⟩
    obtain ⟨name, -, isEntry, accepted, isFile, matched⟩ :=
      (exposes_single_leaf descended).mp exposed
    rw [unseen name isEntry accepted isFile] at matched
    contradiction
  unfold visitLeaf at visited
  split at visited
  · rename_i path links content represented
    obtain ⟨name, isEntry, rfl, accepted⟩ := (entryPath_eq_some reached).mp represented
    have sameName : ∀ other, entry = bytes (String.ofList other) → other = name := by
      intro other isOther
      exact String.ofList_injective (bytes_injective (isOther.symm.trans isEntry))
    split at visited
    · rename_i excluded
      cases visited
      apply skip
      intro other isOther _ _
      rw [sameName other isOther, matchesPatterns, if_pos excluded]
    · split at visited
      · rename_i matched
        split at visited
        · rename_i single
          obtain ⟨added, isPath, entries⟩ := pushEntry_entries visited
          refine ⟨[added], entries, ?_, by simp, shallow⟩
          intro path
          simp only [exposes_single_leaf descended, List.map_cons, List.map_nil,
            List.mem_singleton, isPath]
          constructor
          · rintro rfl
            exact ⟨[name], ⟨name, rfl, isEntry, accepted, ⟨content, by rw [single]⟩, matched⟩, rfl⟩
          · rintro ⟨names, ⟨other, rfl, isOther, -⟩, rfl⟩
            rw [sameName other isOther]
        · rename_i linked
          cases visited
          apply skip
          rintro other - - ⟨content, isFile⟩
          cases isFile
          exact absurd rfl linked
      · rename_i unmatched
        cases visited
        apply skip
        intro other isOther _ _
        rw [sameName other isOther]
        simpa using unmatched
  · rename_i unrepresented
    cases visited
    apply skip
    rintro name isEntry accepted ⟨content, isFile⟩
    have represented := (entryPath_eq_some reached).mpr ⟨name, isEntry, rfl, accepted⟩
    exact absurd isFile (unrepresented _ 1 content represented)

theorem exposes_single_directory {entry : Bytes} {children : Directory}
    {names : List (List Char)} (descended : lead = [] ∨ provider.recursive = true) :
    provider.Exposes (.directory (.directory entry children .empty)) lead names ↔
      ∃ name beneath, names = name :: beneath ∧ entry = bytes (String.ofList name) ∧
        provider.Admits (lead ++ [name]) ∧
          provider.Exposes (.directory children) (lead ++ [name]) beneath := by
  cases names with
  | nil => simp [exposes_directory_nil]
  | cons name names =>
    simp only [exposes_cons, Directory.find?, Option.ite_none_right_eq_some, Option.some.injEq]
    constructor
    · rintro ⟨-, admitted, node, ⟨isEntry, rfl⟩, exposed⟩
      exact ⟨name, names, rfl, isEntry, admitted, exposed⟩
    · rintro ⟨other, beneath, isOther, isEntry, admitted, exposed⟩
      obtain ⟨rfl, rfl⟩ := List.cons.inj isOther
      exact ⟨descended, admitted, _, ⟨isEntry, rfl⟩, exposed⟩

/-- A directory exposes what is collected in it after the descent. -/
theorem Collects.descend {entry : Bytes} {children : Directory} {name : List Char}
    {own : List FileEntry} (descended : lead = [] ∨ provider.recursive = true)
    (isEntry : entry = bytes (String.ofList name)) (admitted : provider.Admits (lead ++ [name]))
    (beneath : provider.Collects children (lead ++ [name]) own) :
    provider.Collects (.directory entry children .empty) lead own := by
  have exposes : ∀ names, provider.Exposes (.directory (.directory entry children .empty)) lead
      names ↔ ∃ others, names = name :: others ∧
        provider.Exposes (.directory children) (lead ++ [name]) others := by
    intro names
    rw [exposes_single_directory descended]
    constructor
    · rintro ⟨other, others, rfl, isOther, -, exposed⟩
      have same : other = name :=
        String.ofList_injective (bytes_injective (isOther.symm.trans isEntry))
      rw [same] at exposed ⊢
      exact ⟨others, rfl, exposed⟩
    · rintro ⟨others, rfl, exposed⟩
      exact ⟨name, others, rfl, isEntry, admitted, exposed⟩
  constructor
  · intro path
    rw [beneath.listed]
    constructor
    · rintro ⟨others, exposed, rfl⟩
      exact ⟨name :: others, (exposes _).mpr ⟨others, rfl, exposed⟩, by simp⟩
    · rintro ⟨names, exposed, rfl⟩
      obtain ⟨others, rfl, deeper⟩ := (exposes names).mp exposed
      exact ⟨others, deeper, by simp⟩
  · exact beneath.distinct
  · intro names exposed
    obtain ⟨others, rfl, deeper⟩ := (exposes names).mp exposed
    have depth := beneath.shallow others deeper
    simp only [List.length_append, List.length_cons, List.length_nil] at depth ⊢
    omega

theorem visitDirectory_collects {entry : Bytes} {children : Directory}
    {descend : String → Nat → Walk → Except FilesystemProviderError Walk}
    (reached : Reached lead) (descended : lead = [] ∨ provider.recursive = true)
    (beneath : ∀ name start, Accepts (lead ++ [name]) → provider.recursive = true →
      (lead ++ [name]).length ≤ provider.maxDepth →
      descend (joined (lead ++ [name])) (lead ++ [name]).length start = .ok final →
        ∃ own, final.entries = start.entries ++ own ∧
          provider.Collects children (lead ++ [name]) own)
    (visited : provider.visitDirectory context (joined lead) entry lead.length descend walk =
      .ok final) :
    ∃ own, final.entries = walk.entries ++ own ∧
      provider.Collects (.directory entry children .empty) lead own := by
  have skip (unseen : ∀ name names, entry = bytes (String.ofList name) →
      provider.Admits (lead ++ [name]) →
        ¬ provider.Exposes (.directory children) (lead ++ [name]) names) :
      ∃ own, walk.entries = walk.entries ++ own ∧
        provider.Collects (.directory entry children .empty) lead own := by
    refine ⟨[], by simp, Collects.nothing fun names exposed => ?_⟩
    obtain ⟨name, others, -, isEntry, admitted, exposed⟩ :=
      (exposes_single_directory descended).mp exposed
    exact unseen name others isEntry admitted exposed
  unfold visitDirectory at visited
  split at visited
  · rename_i unrepresented
    cases visited
    apply skip
    intro name names isEntry admitted
    rw [(entryPath_eq_some reached).mpr ⟨name, isEntry, rfl, admitted.1⟩] at unrepresented
    contradiction
  · rename_i path represented
    obtain ⟨name, isEntry, rfl, accepted⟩ := (entryPath_eq_some reached).mp represented
    split at visited
    · rename_i excluded
      cases visited
      apply skip
      intro other names isOther admitted
      have same : other = name :=
        String.ofList_injective (bytes_injective (isOther.symm.trans isEntry))
      have notExcluded := admitted.2
      rw [same, excluded] at notExcluded
      contradiction
    · rename_i notExcluded
      split at visited
      · rename_i recursive
        have counted : saturatingAdd usizeMax lead.length 1 = (lead ++ [name]).length := by
          have short := accepted.length_le
          simp only [List.length_append, List.length_cons, List.length_nil] at short ⊢
          unfold maxRelativePathBytes at short
          unfold saturatingAdd usizeMax
          omega
        simp only [counted] at visited
        split at visited
        · contradiction
        · rename_i bounded
          obtain ⟨start, passed, walked⟩ := bind_eq_ok.mp visited
          obtain ⟨own, entries, collected⟩ :=
            beneath name start accepted recursive (Nat.le_of_not_lt bounded) walked
          rw [checkpoint_entries passed] at entries
          have admitted : provider.Admits (lead ++ [name]) := ⟨accepted, by simpa using notExcluded⟩
          exact ⟨own, entries, collected.descend descended isEntry admitted⟩
      · rename_i flat
        cases visited
        apply skip
        intro other names isOther admitted exposed
        cases names with
        | nil => exact exposes_directory_nil exposed
        | cons next names =>
          rcases (exposes_cons.mp exposed).1 with isRoot | recursive
          · simp at isRoot
          · exact flat recursive

/-! ## The whole walk -/

theorem walkEntries_collects {directory : Directory} (distinct : directory.Distinct)
    (reached : Reached lead) (descended : lead = [] ∨ provider.recursive = true)
    (bounded : lead.length ≤ provider.maxDepth)
    (walked : provider.walkEntries context directory (joined lead) lead.length walk = .ok final) :
    ∃ found, final.entries = walk.entries ++ found ∧ provider.Collects directory lead found := by
  induction directory generalizing lead walk final with
  | empty =>
    cases walked
    refine ⟨[], by simp, Collects.nothing fun names exposed => ?_⟩
    cases names with
    | nil => exact exposes_directory_nil exposed
    | cons name names => simp [exposes_cons, Directory.find?] at exposed
  | leaf entry node rest ih =>
    obtain ⟨inspected, isInspected, walked⟩ := bind_eq_ok.mp walked
    obtain ⟨visited, isVisited, walked⟩ := bind_eq_ok.mp walked
    obtain ⟨own, ownEntries, ofFirst⟩ := visitLeaf_collects reached descended bounded isVisited
    obtain ⟨found, entries, ofRest⟩ := ih distinct.2 reached descended bounded walked
    refine ⟨own ++ found, ?_, .cons distinct.1 (fun _ => rfl) (fun _ => rfl) ofFirst ofRest⟩
    rw [entries, ownEntries, inspectEntry_entries isInspected, List.append_assoc]
  | directory entry children rest ihChildren ih =>
    obtain ⟨inspected, isInspected, walked⟩ := bind_eq_ok.mp walked
    obtain ⟨visited, isVisited, walked⟩ := bind_eq_ok.mp walked
    obtain ⟨own, ownEntries, ofFirst⟩ := visitDirectory_collects reached descended
      (fun name start accepted recursive bounded walked =>
        ihChildren distinct.2.1 (.inr accepted) (.inr recursive) bounded walked) isVisited
    obtain ⟨found, entries, ofRest⟩ := ih distinct.2.2 reached descended bounded walked
    refine ⟨own ++ found, ?_, .cons distinct.1 (fun _ => rfl) (fun _ => rfl) ofFirst ofRest⟩
    rw [entries, ownEntries, inspectEntry_entries isInspected, List.append_assoc]

end FilesystemProvider

end FastMcp.Filesystem
