import FastMcp.FilesystemExposure

/-! # Readable files are the listed files

A read decides about the complete path what the walk decides step by step. So a
listing consists of just the files that can be read, in the order of their
paths.
-/

namespace FastMcp.Filesystem

open ByteText MachineWords Outcomes

namespace FilesystemProvider

variable {provider : FilesystemProvider} {context : Nat → Bool} {lead : List (List Char)}

/-! ## The order of the listing -/

theorem pathPrecedes_trans {first second third : FileEntry}
    (left : pathPrecedes first second = true) (right : pathPrecedes second third = true) :
    pathPrecedes first third = true := by
  simp only [pathPrecedes, decide_eq_true_eq] at left right ⊢
  exact List.le_trans left right

theorem pathPrecedes_total (first second : FileEntry) :
    pathPrecedes first second = true ∨ pathPrecedes second first = true := by
  simp only [pathPrecedes, decide_eq_true_eq]
  exact List.le_total _ _

/-- Paths that differ are sorted strictly. -/
theorem insertionSort_strict {entries : List FileEntry}
    (distinct : (entries.map FileEntry.relativePath).Nodup) :
    ((entries.insertionSort (pathPrecedes · ·)).map FileEntry.relativePath).Pairwise
      fun left right => bytes left < bytes right := by
  have total : Std.Total fun left right : FileEntry => pathPrecedes left right = true :=
    ⟨pathPrecedes_total⟩
  have transitive : IsTrans FileEntry fun left right => pathPrecedes left right = true :=
    ⟨fun _ _ _ => pathPrecedes_trans⟩
  have sorted := List.pairwise_insertionSort (fun left right => pathPrecedes left right = true)
    entries
  have same := List.perm_insertionSort (fun left right => pathPrecedes left right = true) entries
  have stillDistinct := (same.map FileEntry.relativePath).nodup_iff.mpr distinct
  rw [List.Nodup, List.pairwise_map] at stillDistinct
  rw [List.pairwise_map]
  apply (sorted.and stillDistinct).imp
  rintro left right ⟨precedes, different⟩
  simp only [pathPrecedes, decide_eq_true_eq] at precedes
  rw [← List.not_le]
  intro after
  exact different (bytes_injective (List.le_antisymm precedes after))

/-- What a complete listing consists of. -/
theorem listFiles_collects {tree : Tree} {entries : List FileEntry}
    (listed : provider.listFiles context tree = .ok entries) :
    ∃ found, provider.Collects tree.root [] found ∧
      entries = found.insertionSort (pathPrecedes · ·) := by
  obtain ⟨start, started, listed⟩ := bind_eq_ok.mp listed
  obtain ⟨final, walked, rfl⟩ := map_eq_ok.mp listed
  obtain ⟨first, entered, walked⟩ := bind_eq_ok.mp walked
  obtain ⟨found, found_entries, collected⟩ :=
    walkEntries_collects tree.distinct (.inl rfl) (.inl rfl) (Nat.zero_le _) walked
  use found, collected
  rw [found_entries, checkpoint_entries entered, checkpoint_entries started, List.nil_append]

/-! ## Reading -/

theorem openComponents_final {requested : String} {directory : Directory} {name : List Char}
    {content : Bytes} :
    openComponents requested directory [name] = .ok (.leaf (.file 1 content)) ↔
      directory.find? (bytes (String.ofList name)) = some (.leaf (.file 1 content)) := by
  unfold openComponents
  split
  · simp_all
  · simp_all
  · simp_all

theorem openComponents_cons {requested : String} {directory : Directory}
    {name next : List Char} {names : List (List Char)} {node : Node} :
    openComponents requested directory (name :: next :: names) = .ok node ↔
      ∃ children, directory.find? (bytes (String.ofList name)) = some (.directory children) ∧
        openComponents requested children (next :: names) = .ok node := by
  conv_lhs => unfold openComponents
  split <;> simp_all

/-- The checks of a read along a path agree with those of the walk at each directory. -/
theorem exposes_iff_opened (requested : String) {directory : Directory}
    {names : List (List Char)} (nonempty : names ≠ []) (accepted : Accepts (lead ++ names)) :
    provider.Exposes (.directory directory) lead names ↔
      (provider.recursive = true ∨ lead = [] ∧ names.length = 1) ∧
        provider.excludesAlong (List.intercalate ['/'] lead) names = false ∧
          provider.matchesPatterns (joined (lead ++ names)) = true ∧
            ∃ content, openComponents requested directory names =
              .ok (.leaf (.file 1 content)) := by
  induction names generalizing directory lead with
  | nil => contradiction
  | cons name names ih =>
    have assembled : List.intercalate ['/'] (lead ++ [name]) =
        if List.intercalate ['/'] lead = [] then name
        else List.intercalate ['/'] lead ++ '/' :: name := by
      have ordinary := accepted.ordinary
      simp only [intercalate_concat, intercalate_eq_nil fun name listed =>
        (ordinary name (List.mem_append_left _ listed)).nonempty]
    have acceptedHere : Accepts (lead ++ [name]) := by
      rw [← List.singleton_append, ← List.append_assoc] at accepted
      exact accepted.lead (by simp)
    have excludes : provider.excludesAlong (List.intercalate ['/'] lead) (name :: names) = false ↔
        provider.isExcluded (joined (lead ++ [name])) = false ∧
          provider.excludesAlong (List.intercalate ['/'] (lead ++ [name])) names = false := by
      rw [excludesAlong, joined, assembled]
      simp only [Bool.or_eq_false_iff]
    rw [exposes_cons, excludes]
    cases names with
    | nil =>
      have noMore : provider.excludesAlong (List.intercalate ['/'] (lead ++ [name])) [] = false :=
        rfl
      simp only [openComponents_final, List.length_singleton, and_true, noMore]
      constructor
      · rintro ⟨descended, admitted, node, found, exposed⟩
        cases node with
        | directory children => exact absurd exposed exposes_directory_nil
        | leaf leaf =>
          obtain ⟨-, ⟨content, rfl⟩, matched⟩ := exposes_leaf.mp exposed
          exact ⟨descended.symm, admitted.2, matched, content, found⟩
      · rintro ⟨descended, notExcluded, matched, content, found⟩
        exact ⟨descended.symm, ⟨acceptedHere, notExcluded⟩, _, found,
          exposes_leaf.mpr ⟨rfl, ⟨content, rfl⟩, matched⟩⟩
    | cons next names =>
      have deeper : Accepts ((lead ++ [name]) ++ next :: names) := by simpa using accepted
      have beneath (children : Directory) :
          provider.Exposes (.directory children) (lead ++ [name]) (next :: names) ↔ _ :=
        ih (by simp) deeper
      have path : lead ++ [name] ++ next :: names = lead ++ name :: next :: names := by simp
      simp only [openComponents_cons, path] at beneath ⊢
      constructor
      · rintro ⟨-, admitted, node, found, exposed⟩
        cases node with
        | leaf leaf => cases (exposes_leaf.mp exposed).1
        | directory children =>
          obtain ⟨descended, excluded, matched, content, opened⟩ := (beneath children).mp exposed
          refine ⟨.inl ?_, ⟨admitted.2, excluded⟩, matched, content, children, found, opened⟩
          exact descended.resolve_right (by simp)
      · rintro ⟨descended, ⟨notExcluded, excluded⟩, matched, content, children, found, opened⟩
        have recursive := descended.resolve_right (by simp)
        refine ⟨.inr recursive, ⟨acceptedHere, notExcluded⟩, _, found, ?_⟩
        exact (beneath children).mpr ⟨.inl recursive, excluded, matched, content, opened⟩

/-- A read that is not refused has come to a regular file with a single link. -/
theorem readOpenFile_refuses {path : String} {node : Node} :
    (∀ failure, provider.readOpenFile path node = .error failure →
      failure.refusesAccess = false) ↔ ∃ content, node = .leaf (.file 1 content) := by
  cases node with
  | directory children => simp [readOpenFile, FilesystemProviderError.refusesAccess]
  | leaf leaf =>
    cases leaf with
    | symlink => simp [readOpenFile, FilesystemProviderError.refusesAccess]
    | other => simp [readOpenFile, FilesystemProviderError.refusesAccess]
    | file links content =>
      by_cases single : links = 1
      · subst single
        simp only [readOpenFile, ne_eq, not_true_eq_false, if_false, Node.leaf.injEq,
          Leaf.file.injEq, true_and, exists_eq', iff_true]
        intro failure failed
        split at failed
        · cases failed
          rfl
        · split at failed
          · contradiction
          · split at failed
            · cases failed
              rfl
            · contradiction
      · simp [readOpenFile, single, FilesystemProviderError.refusesAccess]

theorem validatePath_error {path : String} {failure : FilesystemProviderError}
    (failed : validatePath path = .error failure) : failure = pathTraversalError := by
  have onlyNames : ∀ parts : List Component, ∀ failure,
      parts.mapM Component.normalName = .error failure → failure = pathTraversalError := by
    intro parts
    induction parts with
    | nil => nofun
    | cons part parts ih =>
      intro failure failed
      rw [List.mapM_cons] at failed
      cases part with
      | normal name =>
        cases rest : parts.mapM Component.normalName with
        | error restFailure =>
          rw [rest] at failed
          cases failed
          exact ih _ rest
        | ok names =>
          rw [rest] at failed
          cases failed
      | rootDir => cases failed; rfl
      | curDir => cases failed; rfl
      | parentDir => cases failed; rfl
  unfold validatePath at failed
  split at failed
  · cases failed
    rfl
  split at failed
  · cases failed
    rfl
  cases parts : (components path.toList).mapM Component.normalName with
  | error partFailure =>
    rw [parts] at failed
    cases failed
    exact onlyNames _ _ parts
  | ok names =>
    rw [parts] at failed
    simp only [Except.bind] at failed
    split at failed
    · cases failed
      rfl
    · split at failed
      · cases failed
        rfl
      · contradiction

theorem openComponents_error {requested : String} {directory : Directory}
    {names : List (List Char)} {failure : FilesystemProviderError}
    (failed : openComponents requested directory names = .error failure) :
    failure.refusesAccess = true := by
  fun_induction openComponents requested directory names with
  | case1 => cases failed; rfl
  | case2 => cases failed; rfl
  | case3 => cases failed; rfl
  | case4 => cases failed
  | case5 => cases failed; rfl
  | case6 => cases failed; rfl
  | case7 => cases failed; rfl
  | case8 current name names next found notLast ih => exact ih failed

/-- When a read comes as far as a regular file. -/
theorem readFile_refuses {tree : Tree} {path : String} {names : List (List Char)}
    (validated : validatePath path = .ok names) :
    (∀ failure, provider.readFile tree path = .error failure → failure.refusesAccess = false) ↔
      (provider.recursive = true ∨ names.length = 1) ∧
        (provider.recursive = true → names.length ≤ provider.maxDepth + 1) ∧
          provider.hasExcludedAncestor path = false ∧ provider.matchesPatterns path = true ∧
            ∃ content, openComponents path tree.root names = .ok (.leaf (.file 1 content)) := by
  have positive : 1 ≤ names.length :=
    List.length_pos_iff.mpr (validatePath_eq_ok_iff.mp validated).2.2.nonempty
  unfold readFile openFileNofollow
  simp only [validated, Except.bind]
  split
  · rename_i flat
    simp only [Bool.and_eq_true, Bool.not_eq_true', decide_eq_true_eq] at flat
    have deep : ¬ names.length = 1 := by omega
    simp [FilesystemProviderError.refusesAccess, flat.1, deep]
  · rename_i descends
    split
    · rename_i tooDeep
      simp only [Bool.and_eq_true, decide_eq_true_eq] at tooDeep
      have deep : ¬ names.length ≤ provider.maxDepth + 1 := by omega
      simp [FilesystemProviderError.refusesAccess, tooDeep.1, deep]
    · rename_i shallow
      have descended : provider.recursive = true ∨ names.length = 1 := by
        simp only [Bool.and_eq_true, Bool.not_eq_true', decide_eq_true_eq, not_and] at descends
        cases isRecursive : provider.recursive with
        | false =>
          have single := descends isRecursive
          exact .inr (by omega)
        | true => exact .inl rfl
      have bounded : provider.recursive = true → names.length ≤ provider.maxDepth + 1 := by
        intro recursive
        simp only [recursive, Bool.true_and, decide_eq_true_eq] at shallow
        omega
      split
      · rename_i hidden
        rw [Bool.or_eq_true, Bool.not_eq_true'] at hidden
        rcases hidden with excluded | unmatched
        · simp [FilesystemProviderError.refusesAccess, excluded]
        · simp [FilesystemProviderError.refusesAccess, unmatched]
      · rename_i seen
        rw [Bool.or_eq_true, Bool.not_eq_true', not_or, Bool.not_eq_true, Bool.not_eq_false] at seen
        simp only [descended, and_iff_right bounded, seen, true_and]
        cases opened : openComponents path tree.root names with
        | error failure => simp [openComponents_error opened]
        | ok node =>
          simp only [readOpenFile_refuses, Except.ok.injEq]

/-- The names of an exposed file are those that its path is accepted with. -/
theorem Exposes.validatePath {directory : Directory} {names : List (List Char)}
    (exposed : provider.Exposes (.directory directory) [] names) :
    FilesystemProvider.validatePath (joined names) = .ok names := by
  apply exposed.accepts
  right
  rintro rfl
  exact exposes_directory_nil exposed

/-- Listing and reading expose the same files. -/
theorem listFiles_exposes {tree : Tree} {entries : List FileEntry}
    (listed : provider.listFiles context tree = .ok entries) :
    (∀ path, path ∈ entries.map FileEntry.relativePath ↔
      ∀ failure, provider.readFile tree path = .error failure → failure.refusesAccess = false) ∧
      (entries.map FileEntry.relativePath).Pairwise fun left right => bytes left < bytes right := by
  obtain ⟨found, collected, rfl⟩ := listFiles_collects listed
  use fun path => ?_, insertionSort_strict collected.distinct
  have same := List.perm_insertionSort (fun left right => pathPrecedes left right = true) found
  rw [(same.map FileEntry.relativePath).mem_iff, collected.listed]
  simp only [List.nil_append]
  cases validated : validatePath path with
  | error failure =>
    have refused : provider.readFile tree path = .error pathTraversalError := by
      unfold readFile
      rw [validated, validatePath_error validated]
      rfl
    simp only [refused, Except.error.injEq, forall_eq']
    constructor
    · rintro ⟨names, exposed, rfl⟩
      rw [exposed.validatePath] at validated
      contradiction
    · intro impossible
      contradiction
  | ok names =>
    obtain ⟨-, -, nonempty, ordinary, joinedNames⟩ := validatePath_eq_ok_iff.mp validated
    have isPath := joined_of_validatePath validated
    have accepted : Accepts names := by rwa [isPath] at validated
    have pieces : path.toList.splitOn '/' = names := by
      rw [joinedNames]
      exact List.splitOn_intercalate '/' (fun name member => (ordinary name member).noSlash)
        nonempty
    have exposes : provider.Exposes (.directory tree.root) [] names ↔ _ :=
      exposes_iff_opened path nonempty accepted
    rw [readFile_refuses validated]
    unfold hasExcludedAncestor
    rw [pieces]
    constructor
    · rintro ⟨others, exposed, isOther⟩
      have sameNames : others = names := by
        rw [isOther, exposed.validatePath] at validated
        exact Except.ok.inj validated
      rw [sameNames] at exposed
      have shallow := collected.shallow names exposed
      obtain ⟨descended, excluded, matched, opened⟩ := exposes.mp exposed
      rw [List.nil_append, ← isPath] at matched
      refine ⟨descended.imp_right And.right, ?_, excluded, matched, opened⟩
      intro _
      simpa using shallow
    · rintro ⟨descended, -, excluded, matched, opened⟩
      refine ⟨names, exposes.mpr ⟨?_, excluded, ?_, opened⟩, isPath⟩
      · exact descended.imp_right fun single => ⟨rfl, single⟩
      · rwa [List.nil_append, ← isPath]

/-- A tree with a hidden file, a link, a file with two links and a file in a directory. -/
def mixedTree : Tree where
  root := .leaf (bytes ".env") (.file 1 []) (.leaf (bytes "link.md") .symlink
    (.directory (bytes "docs") (.leaf (bytes "a.md") (.file 1 (bytes "text"))
      (.leaf (bytes "b.md") (.file 2 []) .empty)) (.leaf (bytes "z.md") (.file 1 []) .empty)))
  distinct := by
    simp only [Directory.Distinct, Directory.names]
    decide

theorem listFiles_exposes_mixedTree :
    ∃ entries, listFiles { recursive := true } (fun _ => true) mixedTree = .ok entries ∧
      entries.map FileEntry.relativePath = ["docs/a.md", "z.md"] ∧
      (∀ path, path ∈ ["docs/a.md", "z.md"] ↔
        ∀ failure, readFile { recursive := true } mixedTree path = .error failure →
          failure.refusesAccess = false) := by
  have listed : listFiles { recursive := true } (fun _ => true) mixedTree = .ok [
      ⟨"docs/a.md", "file:///docs/a.md", some 4, "text/markdown"⟩,
      ⟨"z.md", "file:///z.md", some 0, "text/markdown"⟩] := by
    decide
  exact ⟨_, listed, rfl, (listFiles_exposes listed).1⟩

end FilesystemProvider

end FastMcp.Filesystem
