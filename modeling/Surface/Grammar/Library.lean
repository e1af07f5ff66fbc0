import Surface.FileSystem.Basic
import Surface.Grammar.Config
import Surface.Grammar.Error

/-! Grammar libraries: how they are found, loaded and remembered. -/

namespace Surface

/-- The file names that the library of a grammar can have, in the order they are tried. -/
def libraryNames (name : String) : List String :=
  ["libtree-sitter-" ++ name ++ ".so", name ++ ".so"]

/-- Every path at which the library of a grammar can be, in the order they are tried. -/
def Config.libraryPaths (config : Config) (name : String) : List Path :=
  config.directories.flatMap fun directory =>
    (libraryNames name).map fun file => directory.join (.ofString file)

/-- The library of a grammar: the first of its paths that leads to a file. -/
def Config.library? (config : Config) (fs : FileSystem) (name : String) : Option Path :=
  (config.libraryPaths name).find? fs.isFile

/--
The grammars of the libraries loaded so far.

A library is known by the components of its path, so two spellings of a path share an entry.
-/
structure Loaded where
  entries : List (List Component × Grammar)
  deriving DecidableEq, Repr

namespace Loaded

/-- No library has been loaded. -/
def empty : Loaded :=
  ⟨[]⟩

/-- The grammar of a library that has been loaded. -/
def get? (loaded : Loaded) (path : Path) : Option Grammar :=
  loaded.entries.lookup path.components

/-- The table with one more library. -/
def insert (loaded : Loaded) (path : Path) (grammar : Grammar) : Loaded :=
  ⟨(path.components, grammar) :: loaded.entries⟩

/--
The grammar of the library at a path, and the table after asking for it.

A library is loaded once: from then on its path stands for the grammar it had.
A library that fails to load leaves no trace.
-/
def load (loaded : Loaded) (fs : FileSystem) (name : String) (path : Path) :
    Except GrammarFault Grammar × Loaded :=
  match loaded.get? path with
  | some grammar => (.ok grammar, loaded)
  | none =>
    match fs.file? path with
    | some ⟨_, .grammar grammar⟩ => (.ok grammar, loaded.insert path grammar)
    | some ⟨_, .noEntryPoint⟩ => (.error (.noEntryPoint ("tree_sitter_" ++ name)), loaded)
    | _ => (.error (.notShared path), loaded)

/-- The grammar of a language, and the table of loaded libraries after asking for it. -/
def resolve (loaded : Loaded) (fs : FileSystem) (config : Config) (language : Language) :
    Except ParseError Grammar × Loaded :=
  match language.grammarSource with
  | .bundled grammar => (.ok grammar, loaded)
  | .runtime name =>
    match config.library? fs name with
    | none => (.error (.unsupported language name config.directories.length), loaded)
    | some path =>
      match loaded.load fs name path with
      | (.ok grammar, loaded) => (.ok grammar, loaded)
      | (.error fault, loaded) => (.error (.unusable language fault), loaded)

end Loaded

/-- Whether a language has a grammar at hand, found without loading it. -/
def Config.isAvailable (config : Config) (fs : FileSystem) (language : Language) : Bool :=
  match language.grammarSource with
  | .bundled _ => true
  | .runtime name => (config.library? fs name).isSome

end Surface
