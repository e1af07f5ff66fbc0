import Surface.Walk.Repository

/-! The ignore rules that a walk minds: which entries of a directory they tell it to leave out. -/

namespace Surface

/-- The ignore files of one directory, and the way from it to the directory being walked. -/
structure IgnoreLevel where
  /-- The rules of the file `.ignore`. -/
  plain : List IgnoreRule
  /-- The rules of the file `.gitignore`. -/
  git : List IgnoreRule
  /-- The rules that the repository in this directory keeps for itself. -/
  exclude : List IgnoreRule
  /-- What the rules of the user say of an entry of this directory. -/
  user? : Name → Bool → Option Verdict
  /-- Whether the directory is the top of a repository. -/
  hasRepository : Bool
  /-- The names that lead to the directory being walked. -/
  trail : List Name

/-- The ignore files of the directory at a path. -/
def IgnoreLevel.read (fs : FileSystem) (directory : Path) (trail : List Name) : IgnoreLevel where
  plain := fs.rulesAt (directory.join (.ofString ".ignore"))
  git := fs.rulesAt (directory.join (.ofString ".gitignore"))
  exclude := fs.excludeRules directory
  user? name := fs.userVerdict? (directory.join ⟨name⟩)
  hasRepository := fs.hasRepository directory
  trail := trail

/-- The ignore files that a walk minds in a directory: its own, then those of the ones above it. -/
abbrev IgnoreScope := List IgnoreLevel

namespace IgnoreScope

/-- The ignore files of the directories above a location, the nearest first. -/
def above (fs : FileSystem) (location : Location) : IgnoreScope :=
  (List.range location.length).map fun up =>
    let depth := location.length - up - 1
    .read fs (.ofLocation (location.take depth)) (location.drop depth)

/--
The ignore files that a walk minds at its root, which a path leads to.

Those above the root are minded as long as the path of its location is not too long.
-/
def ofRoot (fs : FileSystem) (root : Path) (location : Location) : IgnoreScope :=
  .read fs root [] :: if (Path.ofLocation location).fits then above fs location else []

/-- The ignore files that a walk minds one directory further. -/
def enter (scope : IgnoreScope) (fs : FileSystem) (directory : Path) (name : Name) :
    IgnoreScope :=
  .read fs directory [] :: scope.map fun level => { level with trail := level.trail ++ [name] }

/-- The levels inside the nearest repository, none when there is no repository. -/
def repository (scope : IgnoreScope) : IgnoreScope :=
  match scope.find? (·.hasRepository) with
  | some top => scope.takeWhile (!·.hasRepository) ++ [top]
  | none => []

/-- What one kind of ignore file says of an entry: the nearest one that speaks of it decides. -/
def judge (levels : IgnoreScope) (rules : IgnoreLevel → List IgnoreRule) (name : Name)
    (isDirectory : Bool) : Option Verdict :=
  levels.findSome? fun level =>
    IgnoreRule.judge (rules level) (level.trail ++ [name]) isDirectory

/--
What all rules together say of an entry.

The files `.ignore` come before those of the repository, and the rules of the user come last and
only in a repository.
-/
def verdict? (scope : IgnoreScope) (name : Name) (isDirectory : Bool) : Option Verdict :=
  (judge scope (·.plain) name isDirectory).or
    ((judge scope.repository (·.git) name isDirectory).or
      ((judge scope.repository (·.exclude) name isDirectory).or
        (scope.repository.head?.bind fun nearest => nearest.user? name isDirectory)))

/-- Whether a walk leaves an entry out: it is ignored, or it is hidden and nothing allows it. -/
def skips (scope : IgnoreScope) (name : Name) (isDirectory : Bool) : Bool :=
  match verdict? scope name isDirectory with
  | some .ignored => true
  | some .allowed => false
  | none => name.head? == some dot

end IgnoreScope

end Surface
