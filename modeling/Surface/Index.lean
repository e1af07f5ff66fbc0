import Surface.Symbol.Basic
import Surface.Text.Line

/-! The index of file surfaces as text: a section for each file, a line or two for each symbol. -/

namespace Surface.Index

/-- The most characters of documentation that are shown. -/
def docWidth : Nat := 120

/-- The line that opens the section of a file. -/
def header (file : FileSurface) : List Char :=
  match file.path with
  | some path => "--- ".toList ++ path.toList ++ " (".toList ++ file.language.name.toList
      ++ ") ---\n".toList
  | none => "--- ".toList ++ file.language.name.toList ++ " ---\n".toList

/-- The documentation of a symbol as it is shown. -/
def shownDoc (doc : String) : List Char :=
  Text.oneLine docWidth doc.toList

/-- The lines of a symbol: its documentation, if it has any, then its kind and signature. -/
def entry (symbol : Symbol) : List Char :=
  let doc := match symbol.doc with
    | some doc => "  // ".toList ++ shownDoc doc ++ ['\n']
    | none => []
  doc ++ "  [".toList ++ symbol.kind.name.toList ++ "] ".toList ++ symbol.signature.toList ++ ['\n']

/-- The section of a file; a file that makes nothing public has none. -/
def fileSection (file : FileSurface) : List Char :=
  -- An empty line closes the section, also the last one.
  if file.isEmpty then [] else header file ++ file.symbols.flatMap entry ++ ['\n']

/-- The index of several files, in their order. -/
def render (files : List FileSurface) : String :=
  String.ofList (files.flatMap fileSection)

end Surface.Index
