import Surface.Grammar.Basic

/-!
A file system as a value: directories, regular files and symbolic links, and what of them can be
reached and read.
-/

namespace Surface

/-- The name of an entry in a directory. -/
abbrev Name := Bytes

/-- What loading a file as a grammar library comes to. -/
inductive LibraryImage where
  /-- The file is no library, or it cannot be read. -/
  | notShared
  /-- The library does not have the entry point of a grammar. -/
  | noEntryPoint
  /-- The library holds a grammar. -/
  | grammar (grammar : Grammar)
  deriving DecidableEq, Repr

/-- A regular file. -/
structure File where
  bytes : Bytes
  /-- What the file is to someone who loads it as a grammar library. -/
  image : LibraryImage
  deriving DecidableEq, Repr

/-- Something that has a name in a directory. -/
inductive Entry where
  | file (file : File)
  | link (target : Path)
  | directory (entries : List (Name × Entry))
  deriving Repr

/-- The names that lead to an entry from the root, through no link. -/
abbrev Location := List Name

/-- The path of a location. -/
def Path.ofLocation (location : Location) : Path :=
  ⟨slash :: joinSegments location⟩

/-- The most bytes of a path that can be looked up. -/
def maxPathLength : Nat := 4095

/-- Whether a path is short enough to be looked up. -/
def Path.fits (path : Path) : Bool :=
  decide (path.bytes.length ≤ maxPathLength)

/-- The entry at a location below a directory. -/
def Entry.at? (entries : List (Name × Entry)) : Location → Option Entry
  | [] => some (.directory entries)
  | name :: rest =>
    match entries.lookup name with
    | some (.directory inner) => at? inner rest
    | some entry => if rest.isEmpty then some entry else none
    | none => none

/-- A directory with an entry under a name, in place of what had that name before. -/
def Entry.assign (entries : List (Name × Entry)) (name : Name) (entry : Entry) :
    List (Name × Entry) :=
  match entries with
  | [] => [(name, entry)]
  | (other, old) :: rest =>
    if other = name then (name, entry) :: rest else (other, old) :: assign rest name entry

/-- The entries of an entry that is a directory. -/
def Entry.entriesOf (entry : Option Entry) : List (Name × Entry) :=
  match entry with
  | some (.directory entries) => entries
  | _ => []

/-- A directory with an entry at a location, with the directories on the way to it. -/
def Entry.insertAt (entries : List (Name × Entry)) (entry : Entry) :
    Location → List (Name × Entry)
  | [] => entries
  | [name] => assign entries name entry
  | name :: rest =>
    assign entries name (.directory (insertAt (entriesOf (entries.lookup name)) entry rest))

/-- A directory without the entry at a location, if there is one. -/
def Entry.eraseAt? (entries : List (Name × Entry)) : Location → Option (List (Name × Entry))
  | [] => none
  | [name] =>
    if (entries.lookup name).isSome then some (entries.filter (·.1 != name)) else none
  | name :: rest =>
    match entries.lookup name with
    | some (.directory inner) =>
      (eraseAt? inner rest).map fun inner => assign entries name (.directory inner)
    | _ => none

/-- What ignore rules say of an entry. -/
inductive Verdict where
  | ignored
  | allowed
  deriving DecidableEq, Repr

/-- A file system as a program sees it: what it holds, and what of it the program has access to. -/
structure FileSystem where
  root : List (Name × Entry)
  /-- The directory that relative paths start from. -/
  workingDirectory : Location
  /-- What the system says where it cannot tell the path of the working directory. -/
  workingFault? : Option String
  /-- The files that cannot be read and the directories that cannot be listed. -/
  unreadable : List Location
  /-- The directories that no path leads through. -/
  closed : List Location
  /-- What the rules of the user, which hold in every repository, say of the entry at a path. -/
  userVerdict? : Path → Bool → Option Verdict

namespace FileSystem

/-- A file system in which nothing is out of reach, of a user without rules of their own. -/
def plain (root : List (Name × Entry)) (workingDirectory : Location) : FileSystem where
  root := root
  workingDirectory := workingDirectory
  workingFault? := none
  unreadable := []
  closed := []
  userVerdict? _ _ := none

/-- The entry at a location. -/
def at? (fs : FileSystem) (location : Location) : Option Entry :=
  Entry.at? fs.root location

/-- Whether a directory is at a location. -/
def isDirectoryAt (fs : FileSystem) (location : Location) : Bool :=
  match fs.at? location with
  | some (.directory _) => true
  | _ => false

/-- Whether a path leads on from a location: a directory is there, and it is not closed. -/
def leadsOn (fs : FileSystem) (location : Location) : Bool :=
  fs.isDirectoryAt location && !fs.closed.contains location

/-- The path of the working directory. -/
def workingPath (fs : FileSystem) : Path :=
  .ofLocation fs.workingDirectory

/--
The location that segments lead to from a directory, up to the first link.

At a link the target takes the place of the segment, and `onLink` goes on from there.
A segment leads nowhere from what is no directory or is closed, not even an empty one.
-/
def followWith (fs : FileSystem) (onLink : Location → List Bytes → Option Location)
    (location : Location) : List Bytes → Option Location
  | [] => some location
  | segment :: rest =>
    if fs.leadsOn location then
      match Component.ofSegment? segment with
      | some (.name name) =>
        match fs.at? (location ++ [name]) with
        | none => none
        | some (.link target) =>
          onLink (if target.isAbsolute then [] else location) (segmentsOf target.bytes ++ rest)
        | some _ => followWith fs onLink (location ++ [name]) rest
      | some .above => followWith fs onLink location.dropLast rest
      | _ => followWith fs onLink location rest
    else none

/-- The location that segments lead to through at most a number of links. -/
def follow (fs : FileSystem) : Nat → Location → List Bytes → Option Location
  | 0 => fs.followWith fun _ _ => none
  | links + 1 => fs.followWith (fs.follow links)

/-- The most links that are followed on one path. -/
def maxLinks : Nat := 40

/-- The location of what a path leads to; an empty path and one that is too long lead nowhere. -/
def resolve? (fs : FileSystem) (path : Path) : Option Location :=
  if path.bytes.isEmpty || !path.fits then none
  else
    let start := if path.isAbsolute then [] else fs.workingDirectory
    fs.follow maxLinks start (segmentsOf path.bytes)

/-- What a path leads to. -/
def find? (fs : FileSystem) (path : Path) : Option Entry :=
  (fs.resolve? path).bind fs.at?

/-- Whether a path leads to something. -/
def pathExists (fs : FileSystem) (path : Path) : Bool :=
  (fs.find? path).isSome

/-- The regular file that a path leads to. -/
def file? (fs : FileSystem) (path : Path) : Option File :=
  match fs.find? path with
  | some (.file file) => some file
  | _ => none

/-- Whether a path leads to a regular file. -/
def isFile (fs : FileSystem) (path : Path) : Bool :=
  (fs.file? path).isSome

/-- The bytes of the regular file that a path leads to, if it can be read. -/
def read? (fs : FileSystem) (path : Path) : Option Bytes := do
  let location ← fs.resolve? path
  match fs.at? location with
  | some (.file file) => if fs.unreadable.contains location then none else some file.bytes
  | _ => none

/-- The size of the regular file that a path leads to, none when it leads to no file. -/
def fileSize (fs : FileSystem) (path : Path) : Nat :=
  match fs.file? path with
  | some file => file.bytes.length
  | none => 0

/-- Whether a path leads to a directory that can be listed. -/
def lists (fs : FileSystem) (path : Path) : Bool :=
  match fs.resolve? path with
  | some location => fs.isDirectoryAt location && !fs.unreadable.contains location
  | none => false

/-- The location one component further, through a link if there is one. -/
def enter (fs : FileSystem) (location : Location) : Component → Location
  | .name name => (fs.follow maxLinks location [name]).getD (location ++ [name])
  | .above => location.dropLast
  | _ => location

/-- The location of the entry that a path names: only links on the way to it are followed. -/
def locate (fs : FileSystem) (path : Path) : Location :=
  let start := if path.isAbsolute then [] else fs.workingDirectory
  let parent := path.components.dropLast.foldl fs.enter start
  match path.components.getLast? with
  | some (.name name) => parent ++ [name]
  | some component => fs.enter parent component
  | none => parent

/-- The file system with an entry at a path, in place of what was there. -/
def put (fs : FileSystem) (path : Path) (entry : Entry) : FileSystem :=
  { fs with root := Entry.insertAt fs.root entry (fs.locate path) }

/-- The file system with a file at a path, or where a link at the path leads to. -/
def write (fs : FileSystem) (path : Path) (file : File) : FileSystem :=
  let location := (fs.resolve? path).getD (fs.locate path)
  { fs with root := Entry.insertAt fs.root (.file file) location }

/-- The file system with a directory at a path, which keeps what it holds if it is there already. -/
def makeDirectory (fs : FileSystem) (path : Path) : FileSystem :=
  if fs.isDirectoryAt (fs.locate path) then fs else fs.put path (.directory [])

/-- The file system without the entry at a path, if there is one. -/
def remove? (fs : FileSystem) (path : Path) : Option FileSystem :=
  if path.fits then
    (Entry.eraseAt? fs.root (fs.locate path)).map fun root => { fs with root }
  else none

end FileSystem

end Surface
