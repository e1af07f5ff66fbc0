import Surface.Walk.Filter
import Surface.Walk.Scope

/-! Walking a directory: the regular files below it that are neither ignored nor left out. -/

namespace Surface

/-- A regular file below the root of a walk, with the names that lead to it. -/
structure Found where
  names : List Name
  file : File
  deriving DecidableEq, Repr

/-- A file found one directory further down. -/
def Found.below (name : Name) (found : Found) : Found :=
  { found with names := name :: found.names }

/-- What was found under each name of a directory, in the order of the bytes of the names. -/
def sortByName (found : List (Name × List Found)) : List (Name × List Found) :=
  found.mergeSort fun a b => decide (a.1 ≤ b.1)

/-- Whether a walk passes by a directory because of its name. -/
def skipsDirectory (includeTests : Bool) (name : Name) : Bool :=
  isExcludedDirectory (Utf8.decode name) || (!includeTests && isTestDirectory (Utf8.decode name))

/-- Whether a walk passes by a file because of its name. -/
def skipsFile (includeTests : Bool) (name : Name) : Bool :=
  !includeTests && isTestFile (Utf8.decode name)

mutual

/--
The files that a walk finds at an entry of the directory at a path.

Links are not followed, and a directory that cannot be listed is passed by.
-/
def walkEntry (fs : FileSystem) (includeTests : Bool) (scope : IgnoreScope) (path : Path)
    (name : Name) : Entry → List Found
  | .file file =>
    if scope.skips name false || skipsFile includeTests name then [] else [⟨[name], file⟩]
  | .link _ => []
  | .directory entries =>
    let inner := path.join ⟨name⟩
    if scope.skips name true || skipsDirectory includeTests name || !fs.lists inner then []
    else
      let found := walkEntries fs includeTests (scope.enter fs inner name) inner entries
      ((sortByName found).flatMap (·.2)).map (Found.below name)

/-- The files that a walk finds at each entry of the directory at a path. -/
def walkEntries (fs : FileSystem) (includeTests : Bool) (scope : IgnoreScope)
    (path : Path) : List (Name × Entry) → List (Name × List Found)
  | [] => []
  | (name, entry) :: rest =>
    (name, walkEntry fs includeTests scope path name entry)
      :: walkEntries fs includeTests scope path rest

end

/-- The files that a walk finds below the directory that a path leads to, if it can be listed. -/
def FileSystem.walk (fs : FileSystem) (includeTests : Bool) (root : Path) : List Found :=
  match fs.resolve? root with
  | none => []
  | some location =>
    if fs.lists root then
      let entries := Entry.entriesOf (fs.at? location)
      let found := walkEntries fs includeTests (.ofRoot fs root location) root entries
      (sortByName found).flatMap (·.2)
    else []

end Surface
