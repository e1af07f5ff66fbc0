import Surface.Json.Reader
import Surface.Json.Writer
import Surface.Symbol.Basic

/-! Symbols and file surfaces as JSON. -/

namespace Surface

/-- A language by its name. -/
def Language.toJson (language : Language) : Json :=
  .ofString language.name

/-- The language that a name in JSON stands for. -/
def Language.ofJson? (value : Json) : Option Language :=
  value.variant?.bind Language.ofName?

/-- A kind of symbol by its word. -/
def Kind.toJson (kind : Kind) : Json :=
  .ofString kind.name

/-- The kind of symbol that a word in JSON stands for. -/
def Kind.ofJson? (value : Json) : Option Kind :=
  value.variant?.bind Kind.ofName?

/-- A field that is left out when there is nothing to say. -/
def optionalField (name : String) (text : Option String) : List (String × Json) :=
  match text with
  | some text => [(name, .ofString text)]
  | none => []

/-- A symbol as an object; a symbol without documentation has no such field. -/
def Symbol.toJson (symbol : Symbol) : Json :=
  .ofFields ([("kind", symbol.kind.toJson), ("name", .ofString symbol.name),
      ("signature", .ofString symbol.signature)] ++ optionalField "doc" symbol.doc
    ++ [("line", .ofNat symbol.line)])

/-- The symbol that a record describes. -/
def Symbol.ofJson? (value : Json) : Option Symbol := do
  match ← value.record? ["kind", "name", "signature", "doc", "line"] with
  | [some kind, some name, some signature, doc, some line] =>
    return {
      kind := ← Kind.ofJson? kind
      name := ← name.string?
      signature := ← signature.string?
      doc := ← Json.optional? Json.string? doc
      line := ← line.nat? }
  | _ => none

/-- A file surface as an object; one without a path has no such field. -/
def FileSurface.toJson (file : FileSurface) : Json :=
  .ofFields (optionalField "path" file.path
    ++ [("language", file.language.toJson), ("symbols", .array (file.symbols.map Symbol.toJson))])

/-- The file surface that a record describes. -/
def FileSurface.ofJson? (value : Json) : Option FileSurface := do
  match ← value.record? ["path", "language", "symbols"] with
  | [path, some language, some symbols] =>
    return {
      path := ← Json.optional? Json.string? path
      language := ← Language.ofJson? language
      symbols := ← (← symbols.array?).mapM Symbol.ofJson? }
  | _ => none

end Surface
