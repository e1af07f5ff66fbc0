import Surface.FileSystem.Basic
import Surface.Json.Reader
import Surface.Tree.Listing

/-! Snapshots of a project in JSON: its files, and the syntax trees of its sources. -/

namespace Surface

/-- The bytes of pairs of hexadecimal digits. -/
def bytesOfHex? : List Char → Option Bytes
  | [] => some []
  | [_] => none
  | high :: low :: rest => do
    let high ← Quoted.hexValue? high
    let low ← Quoted.hexValue? low
    let more ← bytesOfHex? rest
    return UInt8.ofNat (high * 16 + low) :: more

/-- The bytes of a text that is repeated some number of times. -/
def bytesOfRun? : Json → Option Bytes
  | .array [text, count] => do
    let text ← text.string?
    let count ← count.nat?
    return (List.replicate count (bytesOf text)).flatten
  | _ => none

/-- The bytes that a value describes: a text, pairs of hexadecimal digits, or repeated texts. -/
def bytesOfJson? (value : Json) : Option Bytes :=
  match value with
  | .object _ => do
    let members ← value.members?
    match ← Json.field? members "hex", ← Json.field? members "repeat" with
    | some digits, none => bytesOfHex? (← digits.string?).toList
    | none, some runs => return (← (← runs.array?).mapM bytesOfRun?).flatten
    | _, _ => none
  | _ => value.string?.map bytesOf

/-- The path that a value describes. -/
def Path.ofJson? (value : Json) : Option Path :=
  (bytesOfJson? value).map Path.mk

/-- The grammar that a value describes. -/
def Grammar.ofJson? (value : Json) : Option Grammar := do
  match ← value.record? ["name", "version"] with
  | [some name, some version] => return ⟨← name.string?, ← version.nat?⟩
  | _ => none

/-- The grammar library that a value describes, null for one without an entry point. -/
def LibraryImage.ofJson? : Json → Option LibraryImage
  | .null => some .noEntryPoint
  | value => (Grammar.ofJson? value).map .grammar

/-- The file system with one more entry: a file, a directory, a link or a grammar library. -/
def FileSystem.putJson? (fs : FileSystem) (value : Json) : Option FileSystem := do
  match ← value.record? ["path", "content", "dir", "symlink", "library"] with
  | [some path, some content, none, none, none] =>
    return fs.write (← Path.ofJson? path) ⟨← bytesOfJson? content, .notShared⟩
  | [some path, none, some (.bool true), none, none] =>
    return fs.makeDirectory (← Path.ofJson? path)
  | [some path, none, none, some target, none] =>
    return fs.put (← Path.ofJson? path) (.link (← Path.ofJson? target))
  | [some path, none, none, none, some library] =>
    return fs.put (← Path.ofJson? path) (.file ⟨[], ← LibraryImage.ofJson? library⟩)
  | _ => none

/-- A node of a listing, as an array of what is known of it. -/
def ListedNode.ofJson? : Json → Option ListedNode
  | .array [depth, kind, field, start, stop, row] => do
    return {
      depth := ← depth.nat?
      kind := ← kind.string?
      field := ← Json.optional? Json.string? (some field)
      start := ← start.nat?
      stop := ← stop.nat?
      row := ← row.nat? }
  | _ => none

/-- A tree that is known: of which source, by which grammar. -/
structure KnownTree where
  grammar : String
  source : Bytes
  tree : Tree
  deriving Repr

/-- The known tree that a value describes. -/
def KnownTree.ofJson? (value : Json) : Option KnownTree := do
  match ← value.record? ["grammar", "source", "has_error", "nodes"] with
  | [some grammar, some source, some (.bool hasError), some nodes] =>
    let listing ← (← nodes.array?).mapM ListedNode.ofJson?
    let root ← Node.ofListing? listing
    return ⟨← grammar.string?, ← bytesOfJson? source, ⟨root, hasError⟩⟩
  | _ => none

/-- A tree without any node but its root. -/
def Tree.bare : Tree :=
  ⟨⟨"", none, 0, 0, 0, []⟩, false⟩

/-- Parsing by looking trees up; a source that is not among them has a bare tree. -/
def Parsing.ofKnown (trees : List KnownTree) : Parsing := fun grammar source =>
  match trees.find? fun known => known.grammar == grammar.name && known.source == source with
  | some known => known.tree
  | none => .bare

/-- A project: its files, and what parsing its sources yields. -/
structure Snapshot where
  fs : FileSystem
  parsing : Parsing

/-- An empty working directory of a given name. -/
def FileSystem.emptyAt (name : Name) : FileSystem :=
  .plain [(name, .directory [])] [name]

/-- The snapshot that a value describes. -/
def Snapshot.ofJson? (value : Json) : Option Snapshot := do
  match ← value.record? ["files", "trees"] with
  | [some files, some trees] =>
    let fs ← (← files.array?).foldlM FileSystem.putJson? (.emptyAt (bytesOf "project"))
    let trees ← (← trees.array?).mapM KnownTree.ofJson?
    return ⟨fs, .ofKnown trees⟩
  | _ => none

end Surface
