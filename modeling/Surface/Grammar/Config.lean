import Surface.Path

/-! Where grammar libraries are looked for. -/

namespace Surface

/-- The directories in which grammar libraries are looked for, in order. -/
structure Config where
  directories : List Path
  deriving DecidableEq, Repr

namespace Config

/-- The byte between the directories of a search path. -/
def colon : UInt8 := 0x3A

/-- The directories that a search path lists, without empty ones; no search path lists none. -/
def ofSearchPath (value : Option Bytes) : Config :=
  match value with
  | none => ⟨[]⟩
  | some bytes => ⟨((Text.split colon bytes).filter (!·.isEmpty)).map Path.mk⟩

/-- The directories that the value of a search path variable lists. -/
def ofVariable (value : Option String) : Config :=
  ofSearchPath (value.map bytesOf)

/-- A configuration with one more directory to look in after the others. -/
def withDirectory (config : Config) (directory : Path) : Config :=
  ⟨config.directories ++ [directory]⟩

/-- The name of the search path variable. -/
def variableName : String := "APIDEX_GRAMMAR_PATH"

/-- The directories of the search path variable, then those given by hand. -/
def ofEnvironment (value : Option String) (directories : List Path) : Config :=
  directories.foldl withDirectory (ofVariable value)

end Config

end Surface
