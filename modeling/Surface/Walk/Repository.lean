import Surface.Walk.Ignore

/-! Repositories: which directories are the top of one, and the ignore rules it keeps for itself. -/

namespace Surface

/-- The first line of the file at a path, if it can be read and is well-formed text. -/
def FileSystem.firstLine? (fs : FileSystem) (path : Path) : Option (List Char) := do
  (Text.readLines (← fs.read? path)).head?.join

/--
The directory that several work trees have in common, for a work tree with a file at a path in place
of its repository.

The file names the directory of the work tree, and a file there names the common directory: relative
to the former if it starts with a dot, and else to the working directory.
-/
def FileSystem.commonDirectory? (fs : FileSystem) (repository : Path) : Option Path := do
  let line ← fs.firstLine? repository
  let opening := "gitdir: ".toList
  if !opening.isPrefixOf line then none
  else
    let own : Path := ⟨Utf8.encode (line.drop opening.length)⟩
    let common ← fs.firstLine? (own.join (.ofString "commondir"))
    let path : Path := ⟨Utf8.encode common⟩
    return if common.head? == some '.' then own.join path else path

/-- The rules that the repository in a directory keeps for itself. -/
def FileSystem.excludeRules (fs : FileSystem) (directory : Path) : List IgnoreRule :=
  let repository := directory.join (.ofString ".git")
  let exclude (home : Path) := fs.rulesAt (home.join (.ofString "info/exclude"))
  if fs.isFile repository then
    match fs.commonDirectory? repository with
    | some common => exclude common
    | none => []
  else exclude repository

/-- The names of entries that make a directory the top of a repository. -/
def repositoryNames : List String :=
  [".git", ".jj"]

/-- Whether a directory is the top of a repository. -/
def FileSystem.hasRepository (fs : FileSystem) (directory : Path) : Bool :=
  repositoryNames.any fun name => fs.pathExists (directory.join (.ofString name))

end Surface
