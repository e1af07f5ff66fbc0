import Surface.Grammar.Basic

/-! Why a source cannot be parsed, and what is said of it. -/

namespace Surface

/-- Why a grammar cannot be used. -/
inductive GrammarFault where
  /-- The file is no library. -/
  | notShared (path : Path)
  /-- The library has no entry point of that name. -/
  | noEntryPoint (symbol : String)
  /-- The grammar was built for another version of the interface. -/
  | version (found : Nat)
  deriving DecidableEq, Repr

/-- What is said of a grammar that cannot be used. -/
def GrammarFault.message : GrammarFault → String
  | .notShared path => path.display ++ ": not a shared library"
  | .noEntryPoint symbol => "missing " ++ symbol
  | .version found =>
    "Incompatible language version " ++ toString found ++ ". Expected minimum "
      ++ toString Grammar.oldestVersion ++ ", maximum " ++ toString Grammar.newestVersion

/-- Why a source cannot be parsed. -/
inductive ParseError where
  /-- No library of the language's grammar is in any of the directories. -/
  | unsupported (language : Language) (grammar : String) (directories : Nat)
  /-- No language has files of such names. -/
  | undetected (path : Path)
  /-- The language's grammar cannot be used. -/
  | unusable (language : Language) (fault : GrammarFault)
  /-- The parser has no grammar to parse with. -/
  | noTree (language : Language)
  deriving DecidableEq, Repr

/-- What is said of a source that cannot be parsed. -/
def ParseError.message : ParseError → String
  | .unsupported language grammar directories =>
    "unsupported language: " ++ language.name ++ " (no " ++ grammar ++ " grammar library in "
      ++ toString directories ++ " configured " ++ plural directories ++ ")"
  | .undetected path => "could not detect language for " ++ path.display
  | .unusable language fault =>
    "failed to initialize " ++ language.name ++ " grammar: " ++ fault.message
  | .noTree language => "tree-sitter produced no tree for " ++ language.name ++ " source"
where
  /-- The noun after a number of directories. -/
  plural (directories : Nat) : String :=
    if directories = 1 then "directory" else "directories"

end Surface
