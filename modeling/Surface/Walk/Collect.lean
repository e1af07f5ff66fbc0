import Surface.Extraction
import Surface.Walk.Basic

/-! The surfaces of all files at a path: the file there, or those below the directory there. -/

namespace Surface

/-- Why a command fails. -/
inductive CommandError where
  /-- A path leads to nothing. -/
  | notFound (path : Path)
  /-- The system cannot tell the working directory that a relative path starts from. -/
  | noWorkingDirectory (fault : String)
  deriving DecidableEq, Repr

/-- What is said of a command that fails. -/
def CommandError.message : CommandError → String
  | .notFound path => "Path not found: " ++ path.display
  | .noWorkingDirectory fault => fault

/-- The path of the working directory, or what the system says where it cannot tell. -/
def FileSystem.currentDirectory (fs : FileSystem) : Except CommandError Path :=
  match fs.workingFault? with
  | some fault => .error (.noWorkingDirectory fault)
  | none => .ok fs.workingPath

/-- A path made absolute, as long as it leads to something. -/
def FileSystem.absolute (fs : FileSystem) (path : Path) : Except CommandError Path := do
  let absolute ← if path.isAbsolute then pure path else (·.join path) <$> fs.currentDirectory
  if fs.pathExists absolute then .ok absolute else .error (.notFound path)

/-- The most bytes that a file may have to be looked into. -/
def maxFileSize : Nat := 1048576

namespace Setting

/--
The surface of one file under the name it is shown by, and the loaded libraries afterwards.

There is none for a file that has no known language, is too large, cannot be read or parsed, or
makes nothing public.
-/
def fileSurface? (setting : Setting) (loaded : Loaded) (path : Path) (shown : String) :
    Option FileSurface × Loaded :=
  match Language.ofPath? path with
  | none => (none, loaded)
  | some language =>
    if maxFileSize < setting.fs.fileSize path then (none, loaded)
    else
      match setting.fs.read? path with
      | none => (none, loaded)
      | some source =>
        match setting.extract loaded source language with
        | (.error _, loaded) => (none, loaded)
        | (.ok surface, loaded) =>
          (if surface.isEmpty then none else some { surface with path := some shown }, loaded)

/-- The surfaces of files found below a root, in order. -/
def surfacesBelow (setting : Setting) (root : Path) (loaded : Loaded) :
    List Found → List FileSurface × Loaded
  | [] => ([], loaded)
  | found :: rest =>
    let path := root.join ⟨joinSegments found.names⟩
    match setting.fileSurface? loaded path (path.displayBelow root) with
    | (surface, loaded) =>
      match setting.surfacesBelow root loaded rest with
      | (surfaces, loaded) => (surface.toList ++ surfaces, loaded)

/--
The surfaces of all files at a path, and the loaded libraries afterwards.

A file that is named itself is looked into whatever it is called.
-/
def collect (setting : Setting) (loaded : Loaded) (includeTests : Bool) (path : Path) :
    Except CommandError (List FileSurface) × Loaded :=
  match setting.fs.absolute path with
  | .error error => (.error error, loaded)
  | .ok root =>
    if setting.fs.isFile root then
      match setting.fileSurface? loaded root path.display with
      | (surface, loaded) => (.ok surface.toList, loaded)
    else
      match setting.surfacesBelow root loaded (setting.fs.walk includeTests root) with
      | (surfaces, loaded) => (.ok surfaces, loaded)

/-- The surfaces of all files at several paths, all or nothing. -/
def collectAll (setting : Setting) (loaded : Loaded) (includeTests : Bool) :
    List Path → Except CommandError (List FileSurface) × Loaded
  | [] => (.ok [], loaded)
  | path :: rest =>
    match setting.collect loaded includeTests path with
    | (.error error, loaded) => (.error error, loaded)
    | (.ok surfaces, loaded) =>
      match setting.collectAll loaded includeTests rest with
      | (.error error, loaded) => (.error error, loaded)
      | (.ok more, loaded) => (.ok (surfaces ++ more), loaded)

end Setting

end Surface
