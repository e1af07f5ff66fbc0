import Surface.Proofs.Json.Record
import Surface.Proofs.Names
import Surface.Symbol.Json

/-!
Symbols and file surfaces are read back from the JSON they are written as, and whatever JSON they
are read from is settled once it has been written again.
-/

namespace Surface

namespace Json

/--
A way of writing values of some kind as JSON, and of reading them, that agree with each other.

Values that fit are read back, and only values that fit are ever read.
-/
structure Agree {α : Type} (write : α → Json) (read : Json → Option α) (Fits : α → Prop) :
    Prop where
  spelled : ∀ x, (write x).Spelled
  read_write : ∀ x, Fits x → read (write x) = some x
  fits_of_read : ∀ {value x}, read value = some x → Fits x

section Agree

variable {α : Type} {write : α → Json} {read : Json → Option α} {Fits : α → Prop}
  (agree : Agree write read Fits)

include agree

/-- What fits is read back from its text. -/
theorem Agree.read_compact {x : α} (fits : Fits x) :
    (parse? (write x).compact).bind read = some x := by
  rw [parse?_compact (agree.spelled x), Option.bind_some, agree.read_write x fits]

/-- What was read from any text is read back from the text it is written as. -/
theorem Agree.read_again {text : String} {x : α} (found : (parse? text).bind read = some x) :
    (parse? (write x).compact).bind read = some x := by
  obtain ⟨value, _, taken⟩ := Option.bind_eq_some_iff.mp found
  exact agree.read_compact (agree.fits_of_read taken)

end Agree

/-- Items that are read back one by one are read back together. -/
theorem mapM_map_eq_some {α : Type} {write : α → Json} {read : Json → Option α} {items : List α}
    (each : ∀ item ∈ items, read (write item) = some item) :
    (items.map write).mapM read = some items := by
  -- By induction over the items: one that could not be read would take all others with it.
  induction items with
  | nil => rfl
  | cons item items ih =>
    rw [List.map_cons, List.mapM_cons, each item (by simp),
      ih fun other member => each other (by simp [member])]
    rfl

/-- What is read from a list of values is read from one of them. -/
theorem exists_of_mem_mapM {α : Type} {read : Json → Option α} {values : List Json}
    {items : List α} (found : values.mapM read = some items) {item : α} (member : item ∈ items) :
    ∃ value ∈ values, read value = some item := by
  -- The items come from the values one by one, and in their order.
  induction values generalizing items with
  | nil =>
    cases found
    cases member
  | cons value values ih =>
    rw [List.mapM_cons] at found
    obtain ⟨first, head, found⟩ := Option.bind_eq_some_iff.mp found
    obtain ⟨others, rest, same⟩ := Option.bind_eq_some_iff.mp found
    cases same
    rcases List.mem_cons.mp member with same | later
    · exact ⟨value, by simp, by rw [same, head]⟩
    · obtain ⟨other, among, taken⟩ := ih rest later
      exact ⟨other, by simp [among], taken⟩

end Json

/-- A field that may be left out is well spelled. -/
theorem spelled_of_mem_optionalField {name : String} {text : Option String}
    {field : String × Json} (member : field ∈ optionalField name text) : field.2.Spelled := by
  -- There is one field if there is a text, and else there is none.
  cases text with
  | none => cases member
  | some text =>
    rw [List.mem_singleton.mp member]
    exact Json.spelled_ofString text

/-- A kind is read back from its name. -/
theorem Kind.ofJson?_toJson (kind : Kind) : Kind.ofJson? kind.toJson = some kind := by
  rw [Kind.ofJson?, Kind.toJson, Json.variant?_ofString, Option.bind_some, Kind.ofName?_name]

/-- A language is read back from its name. -/
theorem Language.ofJson?_toJson (language : Language) :
    Language.ofJson? language.toJson = some language := by
  rw [Language.ofJson?, Language.toJson, Json.variant?_ofString, Option.bind_some,
    Language.ofName?_name]

namespace Symbol

/-- A symbol whose line can be written as a number of sixty-four bits. -/
def Fits (symbol : Symbol) : Prop :=
  symbol.line < Json.wordBound

/-- A symbol is written as a well-spelled value. -/
theorem spelled_toJson (symbol : Symbol) : symbol.toJson.Spelled := by
  refine Json.spelled_ofFields fun field member => ?_
  simp only [List.mem_append, List.mem_cons, List.not_mem_nil, or_false] at member
  -- Every field is a text but for the line, which is a number.
  rcases member with ((same | same | same) | optional) | same
  · rw [same]; exact Json.spelled_ofString _
  · rw [same]; exact Json.spelled_ofString _
  · rw [same]; exact Json.spelled_ofString _
  · exact spelled_of_mem_optionalField optional
  · rw [same]; exact Json.spelled_ofNat _

/-- The fields of a written symbol are found by their names. -/
theorem record?_toJson (symbol : Symbol) :
    symbol.toJson.record? ["kind", "name", "signature", "doc", "line"]
      = some [some symbol.kind.toJson, some (.ofString symbol.name),
        some (.ofString symbol.signature), symbol.doc.map .ofString,
        some (.ofNat symbol.line)] := by
  rw [toJson, Json.record?_ofFields]
  -- With or without documentation, every name stands for one field at most.
  cases symbol.doc <;> rfl

/-- A symbol that fits is read back from the value it is written as. -/
theorem ofJson?_toJson (symbol : Symbol) (fits : symbol.Fits) :
    ofJson? symbol.toJson = some symbol := by
  simp [ofJson?, record?_toJson, Kind.ofJson?_toJson, Json.string?_ofString,
    Json.optional?_ofString, Json.nat?_ofNat fits]

/-- However a symbol is described, its line is read as a number that fits. -/
theorem fits_of_ofJson? {value : Json} {symbol : Symbol} (found : ofJson? value = some symbol) :
    symbol.Fits := by
  obtain ⟨fields, _, found⟩ := Option.bind_eq_some_iff.mp found
  -- All five fields have to be there, and the line is the last of them.
  split at found
  · obtain ⟨kind, _, found⟩ := Option.bind_eq_some_iff.mp found
    obtain ⟨name, _, found⟩ := Option.bind_eq_some_iff.mp found
    obtain ⟨signature, _, found⟩ := Option.bind_eq_some_iff.mp found
    obtain ⟨doc, _, found⟩ := Option.bind_eq_some_iff.mp found
    obtain ⟨line, number, found⟩ := Option.bind_eq_some_iff.mp found
    cases found
    exact Json.nat?_lt_wordBound number
  · cases found

/-- Symbols are written and read in agreement. -/
theorem agree : Json.Agree toJson ofJson? Fits where
  spelled := spelled_toJson
  read_write := ofJson?_toJson
  fits_of_read := fits_of_ofJson?

/-- The symbol that a JSON text describes. -/
def read? (text : String) : Option Symbol :=
  (Json.parse? text).bind ofJson?

/-- A symbol as a JSON text. -/
def written (symbol : Symbol) : String :=
  symbol.toJson.compact

end Symbol

namespace FileSurface

/-- A file surface all of whose symbols fit. -/
def Fits (file : FileSurface) : Prop :=
  ∀ symbol ∈ file.symbols, symbol.Fits

/-- A file surface is written as a well-spelled value. -/
theorem spelled_toJson (file : FileSurface) : file.toJson.Spelled := by
  refine Json.spelled_ofFields fun field member => ?_
  simp only [List.mem_append, List.mem_cons, List.not_mem_nil, or_false] at member
  -- The symbols are an array of what is well spelled already.
  rcases member with optional | same | same
  · exact spelled_of_mem_optionalField optional
  · rw [same]; exact Json.spelled_ofString _
  · rw [same]
    refine .array fun item among => ?_
    obtain ⟨symbol, _, made⟩ := List.mem_map.mp among
    rw [← made]
    exact symbol.spelled_toJson

/-- The fields of a written file surface are found by their names. -/
theorem record?_toJson (file : FileSurface) :
    file.toJson.record? ["path", "language", "symbols"]
      = some [file.path.map .ofString, some file.language.toJson,
        some (.array (file.symbols.map Symbol.toJson))] := by
  rw [toJson, Json.record?_ofFields]
  -- With or without a path, every name stands for one field at most.
  cases file.path <;> rfl

/-- A file surface that fits is read back from the value it is written as. -/
theorem ofJson?_toJson (file : FileSurface) (fits : file.Fits) :
    ofJson? file.toJson = some file := by
  -- The symbols are read back one by one.
  have symbols : (file.symbols.map Symbol.toJson).mapM Symbol.ofJson? = some file.symbols :=
    Json.mapM_map_eq_some fun symbol member => symbol.ofJson?_toJson (fits symbol member)
  simp [ofJson?, record?_toJson, Json.optional?_ofString, Language.ofJson?_toJson, Json.array?,
    symbols]

/-- However a file surface is described, the lines of its symbols fit. -/
theorem fits_of_ofJson? {value : Json} {file : FileSurface} (found : ofJson? value = some file) :
    file.Fits := by
  obtain ⟨fields, _, found⟩ := Option.bind_eq_some_iff.mp found
  split at found
  · obtain ⟨path, _, found⟩ := Option.bind_eq_some_iff.mp found
    obtain ⟨language, _, found⟩ := Option.bind_eq_some_iff.mp found
    obtain ⟨values, _, found⟩ := Option.bind_eq_some_iff.mp found
    obtain ⟨symbols, taken, found⟩ := Option.bind_eq_some_iff.mp found
    cases found
    -- Each symbol was read from a value of its own.
    intro symbol member
    obtain ⟨value, _, read⟩ := Json.exists_of_mem_mapM taken member
    exact Symbol.fits_of_ofJson? read
  · cases found

/-- File surfaces are written and read in agreement. -/
theorem agree : Json.Agree toJson ofJson? Fits where
  spelled := spelled_toJson
  read_write := ofJson?_toJson
  fits_of_read := fits_of_ofJson?

/-- The file surface that a JSON text describes. -/
def read? (text : String) : Option FileSurface :=
  (Json.parse? text).bind ofJson?

/-- A file surface as a JSON text. -/
def written (file : FileSurface) : String :=
  file.toJson.compact

/--
Symbols and file surfaces are read back from the texts they are written as.

A text of any shape that describes one is written again as a text that describes the same one, and
that text does not change any more.
-/
theorem read?_written :
    (∀ symbol : Symbol, symbol.Fits → Symbol.read? symbol.written = some symbol)
    ∧ (∀ file : FileSurface, file.Fits → read? file.written = some file)
    ∧ (∀ text symbol, Symbol.read? text = some symbol →
        Symbol.read? symbol.written = some symbol
          ∧ (Symbol.read? symbol.written).map Symbol.written = some symbol.written)
    ∧ ∀ text file, read? text = some file →
        read? file.written = some file ∧ (read? file.written).map written = some file.written := by
  -- What was read from a text fits, so it is read back from its own text.
  refine ⟨fun symbol fits => Symbol.agree.read_compact fits,
    fun file fits => agree.read_compact fits, ?_, ?_⟩
  · intro text symbol found
    have again : Symbol.read? symbol.written = some symbol := Symbol.agree.read_again found
    exact ⟨again, by rw [again, Option.map_some]⟩
  · intro text file found
    have again : read? file.written = some file := agree.read_again found
    exact ⟨again, by rw [again, Option.map_some]⟩

end FileSurface

/-- A module on the last line there is, with a backslash and a control character to document it. -/
def lastSymbol : Symbol :=
  ⟨.module, "", "\"", some "\\\x1f", 18446744073709551615⟩

/-- A file with no path and one variable. -/
def looseFile : FileSurface :=
  ⟨none, .go, [⟨.variable, "\"", "😀", none, 7⟩]⟩

/-- A text that describes the file, with little in it as the writer would have it. -/
def looseText : String :=
  " \x7b\"x\":[-1e5,\x7b\x7d],\"symbols\":[[\x7b\"var\":null\x7d,\"\\u0022\",\"\\ud83d\\uDE00\","
    ++ "null,7]],\n\"path\":null,\"language\":\"go\"\x7d\t"

/-- The symbol is read back, and the file from either text. -/
theorem FileSurface.read?_written_loose :
    lastSymbol.Fits ∧ Symbol.read? lastSymbol.written = some lastSymbol
      ∧ looseFile.Fits ∧ read? looseText = some looseFile
      ∧ read? looseFile.written = some looseFile
      ∧ (read? looseFile.written).map written = some looseFile.written := by
  obtain ⟨symbols, files, _, texts⟩ := read?_written
  -- The largest line there is just fits.
  have last : lastSymbol.Fits := by
    unfold Symbol.Fits
    decide
  have fits : looseFile.Fits := by
    unfold FileSurface.Fits Symbol.Fits
    decide
  have found : read? looseText = some looseFile := by decide +kernel
  obtain ⟨_, settled⟩ := texts looseText looseFile found
  exact ⟨last, symbols lastSymbol last, fits, found, files looseFile fits, settled⟩

end Surface
