import FastMcp.FilesystemProviderPaths
import FastMcp.GlobPatterns
import Mathlib.Data.List.Sort

/-! # Listing and reading files

A provider enumerates the files beneath its root directory, and it reads a file
when it is given its relative path. The walk decides from directory to
directory what may be seen; a read decides about the complete path.

The tree does not change meanwhile, and every node can be opened. -/

namespace FastMcp.Filesystem

open ByteText MachineWords Outcomes

/-! ## Trees -/

/-- Nodes without entries of their own. -/
inductive Leaf where
  | file (links : Nat) (content : Bytes)
  | symlink
  | other
deriving DecidableEq, Repr

/-- The entries of a directory, in the order in which they are enumerated. -/
inductive Directory where
  | empty
  | leaf (name : Bytes) (node : Leaf) (rest : Directory)
  | directory (name : Bytes) (children rest : Directory)
deriving DecidableEq, Repr

inductive Node where
  | leaf (node : Leaf)
  | directory (children : Directory)
deriving DecidableEq, Repr

namespace Directory

/-- The node of the given name. -/
def find? : Directory → Bytes → Option Node
  | .empty, _ => none
  | .leaf entry node rest, name => if entry = name then some (.leaf node) else rest.find? name
  | .directory entry children rest, name =>
    if entry = name then some (.directory children) else rest.find? name

def names : Directory → List Bytes
  | .empty => []
  | .leaf name _ rest => name :: rest.names
  | .directory name _ rest => name :: rest.names

/-- No directory of the tree has two entries of the same name. -/
def Distinct : Directory → Prop
  | .empty => True
  | .leaf name _ rest => name ∉ rest.names ∧ rest.Distinct
  | .directory name children rest => name ∉ rest.names ∧ children.Distinct ∧ rest.Distinct

end Directory

/-- What lies beneath the root directory of a provider. -/
structure Tree where
  root : Directory
  distinct : root.Distinct

/-! ## Content types -/

/-- The part of a file name after its last dot, unless this dot is its first character. -/
def extension? (fileName : List Char) : Option (List Char) :=
  if fileName = ['.', '.'] ∨ '.' ∉ fileName.tail then none
  else (fileName.splitOn '.').getLast?

/-- The kelvin sign is the only character outside ASCII whose lower case lies in ASCII. -/
def lowercaseCharacter (character : Char) : Char :=
  if character = Char.ofNat 0x212a then 'k' else character.toLower

def detectMimeType (path : String) : String :=
  let fileName := (path.toList.splitOn '/').getLast?.getD []
  match (extension? fileName).map fun extension =>
    String.ofList (extension.map lowercaseCharacter) with
  | some "txt" => "text/plain"
  | some "md" | some "markdown" => "text/markdown"
  | some "html" | some "htm" => "text/html"
  | some "css" => "text/css"
  | some "csv" => "text/csv"
  | some "xml" => "application/xml"
  | some "rs" => "text/x-rust"
  | some "py" => "text/x-python"
  | some "js" | some "mjs" => "text/javascript"
  | some "ts" | some "mts" => "text/typescript"
  | some "json" => "application/json"
  | some "yaml" | some "yml" => "application/yaml"
  | some "toml" => "application/toml"
  | some "sh" | some "bash" => "text/x-shellscript"
  | some "c" => "text/x-c"
  | some "cpp" | some "cc" | some "cxx" => "text/x-c++"
  | some "h" | some "hpp" => "text/x-c-header"
  | some "java" => "text/x-java"
  | some "go" => "text/x-go"
  | some "rb" => "text/x-ruby"
  | some "php" => "text/x-php"
  | some "swift" => "text/x-swift"
  | some "kt" | some "kts" => "text/x-kotlin"
  | some "sql" => "text/x-sql"
  | some "png" => "image/png"
  | some "jpg" | some "jpeg" => "image/jpeg"
  | some "gif" => "image/gif"
  | some "svg" => "image/svg+xml"
  | some "webp" => "image/webp"
  | some "ico" => "image/x-icon"
  | some "bmp" => "image/bmp"
  | some "pdf" => "application/pdf"
  | some "zip" => "application/zip"
  | some "gz" | some "gzip" => "application/gzip"
  | some "tar" => "application/x-tar"
  | some "wasm" => "application/wasm"
  | _ => "application/octet-stream"

def isBinaryMimeType (mimeType : String) : Bool :=
  ["image/", "audio/", "video/"].any (fun start => (bytes start).isPrefixOf (bytes mimeType)) ||
    ["application/octet-stream", "application/pdf", "application/zip", "application/gzip",
      "application/x-tar", "application/wasm"].contains mimeType

/-! ## Which paths may be seen -/

/-- Exactly one ordinary component. -/
def isNormalComponent (path : List Char) : Bool :=
  match components path with
  | [.normal _] => true
  | _ => false

namespace FilesystemProvider

variable (provider : FilesystemProvider)

def isExcluded (relativePath : String) : Bool :=
  provider.excludePatterns.any (globMatch · relativePath)

def matchesPatterns (relativePath : String) : Bool :=
  if provider.isExcluded relativePath then false
  else provider.includePatterns.isEmpty || provider.includePatterns.any (globMatch · relativePath)

/-- Whether a pattern excludes one of the paths that come from adding the pieces one by one. -/
def excludesAlong : List Char → List (List Char) → Bool
  | _, [] => false
  | lead, piece :: pieces =>
    let next := if lead = [] then piece else lead ++ '/' :: piece
    provider.isExcluded (String.ofList next) || excludesAlong next pieces

def hasExcludedAncestor (relativePath : String) : Bool :=
  provider.excludesAlong [] (relativePath.toList.splitOn '/')

/-! ## The walk -/

/-- A file that a walk has found. -/
structure FileEntry where
  relativePath : String
  uri : String
  size : Option Nat
  mimeType : String
deriving DecidableEq, Repr

/-- The counters and results of a walk, with the number of checkpoints passed so far. -/
structure Walk where
  checkpoints : Nat := 0
  inspectedEntries : Nat := 0
  -- Every listing is an array, with two brackets even if it is empty.
  listingBytes : Nat := 2
  entries : List FileEntry := []
deriving DecidableEq, Repr

/-- The context decides at every checkpoint whether the request goes on. -/
def Walk.checkpoint (context : Nat → Bool) (walk : Walk) : Except FilesystemProviderError Walk :=
  if context walk.checkpoints then .ok { walk with checkpoints := walk.checkpoints + 1 }
  else .error .cancelled

/-- Counts one more entry. -/
def inspectEntry (context : Nat → Bool) (walk : Walk) : Except FilesystemProviderError Walk :=
  (walk.checkpoint context).bind fun walk =>
    let inspectedEntries := saturatingAdd usizeMax walk.inspectedEntries 1
    if inspectedEntries > provider.maxEntries then
      .error (.tooManyEntries inspectedEntries provider.maxEntries)
    else .ok { walk with inspectedEntries }

/-- The relative path of an entry, unless the provider cannot represent it. -/
def entryPath (relativeParent : String) (name : Bytes) : Option String :=
  match fromUtf8 name with
  | none => none
  | some fileName =>
    if fileName.toList.any isControl then none
    else if !isNormalComponent fileName.toList then none
    else
      let relativePath :=
        if relativeParent.isEmpty then fileName else relativeParent ++ "/" ++ fileName
      match validatePath relativePath with
      | .error _ => none
      | .ok _ => some relativePath

def listingEntryPrefix : String := "\x7b\"uri\":\""
def listingEntryMime : String := "\",\"mimeType\":\""
def listingEntrySuffix : String := "\"\x7d"

/-- The bytes that a file adds to a listing, with the comma between two files. -/
def listingLineBytes (entries : List FileEntry) (uri mimeType : String) : Nat :=
  let separatorBytes := if entries.isEmpty then 0 else 1
  [listingEntryPrefix.utf8ByteSize, listingEntryMime.utf8ByteSize, mimeType.utf8ByteSize,
    listingEntrySuffix.utf8ByteSize, separatorBytes].foldl (saturatingAdd usizeMax)
      uri.utf8ByteSize

/-- Adds a file to the listing, if the listing stays short enough. -/
def pushEntry (relativePath : String) (size : Nat) (walk : Walk) :
    Except FilesystemProviderError Walk :=
  let mimeType := detectMimeType relativePath
  (provider.fileUri relativePath).bind fun uri =>
    let projectedListingBytes :=
      saturatingAdd usizeMax walk.listingBytes (listingLineBytes walk.entries uri mimeType)
    if projectedListingBytes > provider.maxListingBytes then
      .error (.listingTooLarge projectedListingBytes provider.maxListingBytes)
    else
      .ok { walk with
        listingBytes := projectedListingBytes
        entries := walk.entries ++ [{ relativePath, uri, size := some size, mimeType }] }

/-- Only regular files with a single link are listed. -/
def visitLeaf (relativeParent : String) (name : Bytes) (node : Leaf) (walk : Walk) :
    Except FilesystemProviderError Walk :=
  match entryPath relativeParent name, node with
  | some relativePath, .file links content =>
    if provider.isExcluded relativePath then .ok walk
    else if provider.matchesPatterns relativePath then
      if links = 1 then provider.pushEntry relativePath content.length walk else .ok walk
    else .ok walk
  | _, _ => .ok walk

/-- Descends into a directory, if the provider is recursive and the directory not too deep. -/
def visitDirectory (context : Nat → Bool) (relativeParent : String) (name : Bytes) (depth : Nat)
    (descend : String → Nat → Walk → Except FilesystemProviderError Walk) (walk : Walk) :
    Except FilesystemProviderError Walk :=
  match entryPath relativeParent name with
  | none => .ok walk
  | some relativePath =>
    if provider.isExcluded relativePath then .ok walk
    else if provider.recursive then
      let childDepth := saturatingAdd usizeMax depth 1
      if childDepth > provider.maxDepth then
        .error (.tooDeep relativePath childDepth provider.maxDepth)
      else (walk.checkpoint context).bind (descend relativePath childDepth)
    else .ok walk

/-- Goes through the entries of a directory, after the checkpoint at its beginning. -/
def walkEntries (context : Nat → Bool) :
    Directory → String → Nat → Walk → Except FilesystemProviderError Walk
  | .empty, _, _, walk => .ok walk
  | .leaf name node rest, relativeParent, depth, walk =>
    (provider.inspectEntry context walk).bind fun walk =>
      (provider.visitLeaf relativeParent name node walk).bind fun walk =>
        walkEntries context rest relativeParent depth walk
  | .directory name children rest, relativeParent, depth, walk =>
    (provider.inspectEntry context walk).bind fun walk =>
      (provider.visitDirectory context relativeParent name depth
        (walkEntries context children) walk).bind fun walk =>
          walkEntries context rest relativeParent depth walk

def walkDirectory (context : Nat → Bool) (current : Directory) (relativeParent : String)
    (depth : Nat) (walk : Walk) : Except FilesystemProviderError Walk :=
  (walk.checkpoint context).bind (provider.walkEntries context current relativeParent depth)

/-- Entries are ordered by the bytes of their paths. -/
def pathPrecedes (left right : FileEntry) : Bool :=
  decide (bytes left.relativePath ≤ bytes right.relativePath)

def listFiles (context : Nat → Bool) (tree : Tree) :
    Except FilesystemProviderError (List FileEntry) :=
  (Walk.checkpoint context {}).bind fun walk =>
    (provider.walkDirectory context tree.root "" 0 walk).map fun walk =>
      walk.entries.insertionSort (pathPrecedes · ·)

/-! ## Reading -/

inductive FileContent where
  | text (content : String)
  | binary (content : Bytes)
deriving DecidableEq, Repr

/-- Opens a node beneath the root and refuses links at every hop. -/
def openComponents (requested : String) :
    Directory → List (List Char) → Except FilesystemProviderError Node
  | _, [] => .error pathTraversalError
  | current, [final] =>
    match current.find? (bytes (String.ofList final)) with
    | none => .error (.notFound requested)
    | some (.leaf .symlink) => .error (.symlinkDenied requested)
    | some node => .ok node
  | current, component :: components =>
    match current.find? (bytes (String.ofList component)) with
    | none => .error (.notFound requested)
    | some (.leaf .symlink) => .error (.symlinkDenied requested)
    | some (.leaf _) => .error (.io (.cannotOpen requested))
    | some (.directory next) => openComponents requested next components

def openFileNofollow (tree : Tree) (requested : String) : Except FilesystemProviderError Node :=
  (validatePath requested).bind (openComponents requested tree.root)

/-- Reads an opened node. A file within the size limit is read to its end. -/
def readOpenFile (relativePath : String) : Node → Except FilesystemProviderError FileContent
  | .leaf (.file links content) =>
    if links ≠ 1 then .error (.hardLinkDenied relativePath links)
    else if content.length > provider.maxFileSize then
      .error (.tooLarge relativePath content.length provider.maxFileSize)
    else if isBinaryMimeType (detectMimeType relativePath) then .ok (.binary content)
    else
      match fromUtf8 content with
      | none => .error (.io (.notUtf8 relativePath))
      | some text => .ok (.text text)
  | _ => .error (.io (.notRegular relativePath))

/-- Reads a file in a request that is not cancelled. -/
def readFile (tree : Tree) (relativePath : String) : Except FilesystemProviderError FileContent :=
  (validatePath relativePath).bind fun requestedComponents =>
    let parentDepth := requestedComponents.length - 1
    if !provider.recursive && decide (parentDepth > 0) then .error (.notFound relativePath)
    else if provider.recursive && decide (parentDepth > provider.maxDepth) then
      .error (.tooDeep relativePath parentDepth provider.maxDepth)
    else if provider.hasExcludedAncestor relativePath ||
        !provider.matchesPatterns relativePath then
      .error (.notFound relativePath)
    else (openFileNofollow tree relativePath).bind (provider.readOpenFile relativePath)

end FilesystemProvider

/-- Errors of a read that never comes to the content of a regular file. -/
def FilesystemProviderError.refusesAccess : FilesystemProviderError → Bool
  | .pathTraversal _ | .notFound _ | .tooDeep .. | .symlinkDenied _ | .hardLinkDenied ..
  | .io (.cannotOpen _) | .io (.notRegular _) => true
  | _ => false

end FastMcp.Filesystem
