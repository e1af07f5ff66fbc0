import Surface.Index
import Surface.Proofs.Names
import Surface.Proofs.Text.Line

/-! Reading an index back: each line tells by its shape what it is, whatever the texts in it say. -/

namespace Surface.Index

/-- A symbol as far as the index shows it. -/
structure ShownSymbol where
  doc : Option String
  kind : Kind
  signature : String
  deriving DecidableEq, Repr

/-- The section of a file, as far as the index shows the file. -/
structure Section where
  path : Option String
  language : Language
  symbols : List ShownSymbol
  deriving DecidableEq, Repr

/-- What the index shows of a symbol. -/
def ShownSymbol.ofSymbol (symbol : Symbol) : ShownSymbol where
  doc := symbol.doc.map fun doc => String.ofList (shownDoc doc)
  kind := symbol.kind
  signature := symbol.signature

/-- What the index shows of a file. -/
def Section.ofFile (file : FileSurface) : Section where
  path := file.path
  language := file.language
  symbols := file.symbols.map .ofSymbol

/-- What the index shows of several files: nothing of those that make nothing public. -/
def sections (files : List FileSurface) : List Section :=
  (files.filter (!·.isEmpty)).map .ofFile

/-- A line of an index, by what it says. -/
inductive Line where
  | header (path : Option String) (language : Language)
  | doc (text : String)
  | entry (kind : Kind) (signature : String)
  | blank
  deriving DecidableEq, Repr

/--
The header that follows its opening dashes.

It is read from its end: the name of the language has no brackets in it, but a path may.
-/
def Line.headerOf? (text : List Char) : Option Line :=
  match text.reverse with
  | '-' :: '-' :: '-' :: ' ' :: ')' :: back =>
    -- Only a path brings brackets with it, so the last opening one ends the path.
    match back.dropWhile (· != '(') with
    | '(' :: ' ' :: path =>
      (Language.ofName? (String.ofList (back.takeWhile (· != '(')).reverse)).map
        (.header (some (String.ofList path.reverse)))
    | _ => none
  | '-' :: '-' :: '-' :: ' ' :: back =>
    (Language.ofName? (String.ofList back.reverse)).map (.header none)
  | _ => none

/-- The entry that follows its opening bracket: the word for a kind has no bracket in it. -/
def Line.entryOf? (text : List Char) : Option Line :=
  match text.dropWhile (· != ']') with
  | ']' :: ' ' :: signature =>
    (Kind.ofName? (String.ofList (text.takeWhile (· != ']')))).map
      (.entry · (String.ofList signature))
  | _ => none

/-- What a line of an index says; its first characters tell which shape it has. -/
def Line.ofText? : List Char → Option Line
  | [] => some .blank
  | '-' :: '-' :: '-' :: ' ' :: text => headerOf? text
  | ' ' :: ' ' :: '/' :: '/' :: ' ' :: text => some (.doc (String.ofList text))
  | ' ' :: ' ' :: '[' :: text => entryOf? text
  | _ => none

/--
What the end of an index holds.

There are whole sections in it, and symbols of a section whose header is still to come.
-/
structure Reading where
  sections : List Section
  waiting : List ShownSymbol
  deriving DecidableEq, Repr

/-- The reading with one more line in front of it. -/
def Reading.add? (reading : Reading) (line : Line) : Option Reading :=
  -- Between sections nothing waits, and documentation belongs to the symbol just below it.
  match line, reading.waiting with
  | .blank, [] => some reading
  | .entry kind signature, waiting =>
    some { reading with waiting := ⟨none, kind, signature⟩ :: waiting }
  | .doc text, ⟨none, kind, signature⟩ :: waiting =>
    some { reading with waiting := ⟨some text, kind, signature⟩ :: waiting }
  | .header path language, waiting =>
    some ⟨⟨path, language, waiting⟩ :: reading.sections, []⟩
  | _, _ => none

/-- The reading of several lines, the last of them first. -/
def Reading.ofLines? : List (List Char) → Option Reading
  | [] => some ⟨[], []⟩
  | text :: rest => do
    let reading ← ofLines? rest
    let line ← Line.ofText? text
    reading.add? line

/-- The reading of a text. -/
def Reading.ofText? (text : List Char) : Option Reading :=
  ofLines? (Text.split '\n' text)

/-- The sections that an index holds. -/
def read? (index : String) : Option (List Section) :=
  match Reading.ofText? index.toList with
  | some ⟨sections, []⟩ => some sections
  | _ => none

/--
A file that the index can show line by line: no line end stands in its path or in a signature.

Documentation is free, since the index puts it on one line.
-/
def Printable (file : FileSurface) : Prop :=
  (∀ path ∈ file.path, '\n' ∉ path.toList) ∧ ∀ symbol ∈ file.symbols, '\n' ∉ symbol.signature.toList

instance : DecidablePred Printable :=
  fun file => inferInstanceAs (Decidable ((∀ path ∈ file.path, '\n' ∉ path.toList)
    ∧ ∀ symbol ∈ file.symbols, '\n' ∉ symbol.signature.toList))

namespace Line

/-- A header with a path is read back, whatever the path holds. -/
theorem ofText?_header_path (path : List Char) (language : Language) :
    ofText? ("--- ".toList ++ path ++ " (".toList ++ language.name.toList ++ ") ---".toList)
      = some (.header (some (String.ofList path)) language) := by
  -- From the end, the name of the language reaches to the last opening bracket.
  have absent : '(' ∉ language.name.toList.reverse := by
    intro member
    have letter := Language.isAlpha_of_mem_name (List.mem_reverse.mp member)
    exact absurd letter (by decide)
  have taken := Text.takeWhile_ne_append_cons absent (' ' :: path.reverse)
  have left := Text.dropWhile_ne_append_cons absent (' ' :: path.reverse)
  simp [ofText?, headerOf?, taken, left, Language.ofName?_name]

/-- A header without a path is read back. -/
theorem ofText?_header_none (language : Language) :
    ofText? ("--- ".toList ++ language.name.toList ++ " ---".toList)
      = some (.header none language) := by
  cases language <;> rfl

/-- A line of documentation is read back, whatever the documentation says. -/
theorem ofText?_doc (text : List Char) :
    ofText? ("  // ".toList ++ text) = some (.doc (String.ofList text)) := by
  simp [ofText?]

/-- The line of a symbol is read back, whatever the signature says. -/
theorem ofText?_entry (kind : Kind) (signature : List Char) :
    ofText? ("  [".toList ++ kind.name.toList ++ "] ".toList ++ signature)
      = some (.entry kind (String.ofList signature)) := by
  -- From the front, the word for the kind reaches to the first closing bracket.
  have absent : ']' ∉ kind.name.toList := by
    intro member
    exact absurd (Kind.isAlpha_of_mem_name member) (by decide)
  have taken := Text.takeWhile_ne_append_cons absent (' ' :: signature)
  have left := Text.dropWhile_ne_append_cons absent (' ' :: signature)
  simp [ofText?, entryOf?, taken, left, Kind.ofName?_name]

end Line

namespace Reading

/-- A line that is closed by a line end is read on its own, after what follows it. -/
theorem ofText?_line {line : List Char} (whole : '\n' ∉ line) {said : Line}
    (reads : Line.ofText? line = some said) {rest : List Char} {reading : Reading}
    (later : ofText? rest = some reading) :
    ofText? (line ++ '\n' :: rest) = reading.add? said := by
  unfold ofText? at later ⊢
  rw [Text.split_append_cons whole, ofLines?, later, reads]
  rfl

/-- A header takes the symbols that wait for it into a new section. -/
theorem ofText?_header {file : FileSurface} (clean : Printable file) {rest : List Char}
    {reading : Reading} (later : ofText? rest = some reading) :
    ofText? (header file ++ rest)
      = some ⟨⟨file.path, file.language, reading.waiting⟩ :: reading.sections, []⟩ := by
  -- Nothing in a header ends the line, so it is one line of the text.
  have noEnd : '\n' ∉ file.language.name.toList := fun member =>
    absurd (Language.isAlpha_of_mem_name member) (by decide)
  unfold header
  cases named : file.path with
  | none =>
    have whole : '\n' ∉ "--- ".toList ++ file.language.name.toList ++ " ---".toList := by
      simp [noEnd]
    have read := ofText?_line whole (Line.ofText?_header_none file.language) later
    simpa [add?] using read
  | some path =>
    have noEndThere : '\n' ∉ path.toList := clean.1 path (by simp [named])
    have whole : '\n' ∉ "--- ".toList ++ path.toList ++ " (".toList ++ file.language.name.toList
        ++ ") ---".toList := by
      simp [noEnd, noEndThere]
    have read := ofText?_line whole (Line.ofText?_header_path path.toList file.language) later
    simpa [add?] using read

/-- The lines of a symbol put that symbol in front of those that wait. -/
theorem ofText?_entry {symbol : Symbol} (clean : '\n' ∉ symbol.signature.toList)
    {rest : List Char} {reading : Reading} (later : ofText? rest = some reading) :
    ofText? (entry symbol ++ rest)
      = some ⟨reading.sections, .ofSymbol symbol :: reading.waiting⟩ := by
  have noEnd : '\n' ∉ symbol.kind.name.toList := fun member =>
    absurd (Kind.isAlpha_of_mem_name member) (by decide)
  have whole : '\n' ∉ "  [".toList ++ symbol.kind.name.toList ++ "] ".toList
      ++ symbol.signature.toList := by
    simp [noEnd, clean]
  -- The line of the symbol comes last, so it is read before its documentation.
  have read := ofText?_line whole (Line.ofText?_entry symbol.kind symbol.signature.toList) later
  unfold entry
  cases documented : symbol.doc with
  | none => simpa [add?, ShownSymbol.ofSymbol, documented] using read
  | some doc =>
    -- The documentation stands on a line of its own, just above the symbol that was read.
    have wholeDoc : '\n' ∉ "  // ".toList ++ shownDoc doc := by
      simpa [shownDoc] using Text.not_mem_oneLine docWidth doc.toList
    have readDoc := ofText?_line wholeDoc (Line.ofText?_doc (shownDoc doc)) read
    simpa [add?, ShownSymbol.ofSymbol, documented] using readDoc

/-- The lines of several symbols put them in front of those that wait, in order. -/
theorem ofText?_entries {symbols : List Symbol}
    (clean : ∀ symbol ∈ symbols, '\n' ∉ symbol.signature.toList) {rest : List Char}
    {reading : Reading} (later : ofText? rest = some reading) :
    ofText? (symbols.flatMap entry ++ rest)
      = some ⟨reading.sections, symbols.map .ofSymbol ++ reading.waiting⟩ := by
  -- From the last symbol to the first, each one is put in front.
  induction symbols with
  | nil => simpa using later
  | cons symbol symbols ih =>
    have tail := ih fun other member => clean other (by simp [member])
    have head := ofText?_entry (clean symbol (by simp)) tail
    simpa using head

/-- A section in front of whole sections is read as one more of them. -/
theorem ofText?_fileSection {file : FileSurface} (clean : Printable file)
    (shown : file.isEmpty = false) {rest : List Char} {later : List Section}
    (read : ofText? rest = some ⟨later, []⟩) :
    ofText? (fileSection file ++ rest) = some ⟨.ofFile file :: later, []⟩ := by
  -- The empty line at the end of a section leaves the sections after it as they are.
  have closed : ofText? ([] ++ '\n' :: rest) = some ⟨later, []⟩ :=
    ofText?_line List.not_mem_nil rfl read
  have entries := ofText?_entries clean.2 closed
  have whole := ofText?_header clean entries
  simpa [fileSection, shown, Section.ofFile] using whole

/-- An index is read as the sections it shows. -/
theorem ofText?_fileSections {files : List FileSurface} (clean : ∀ file ∈ files, Printable file) :
    ofText? (files.flatMap fileSection) = some ⟨Index.sections files, []⟩ := by
  induction files with
  | nil => rfl
  | cons file files ih =>
    have tail := ih fun other member => clean other (by simp [member])
    rw [List.flatMap_cons]
    -- A file that makes nothing public has no section and leaves no line.
    cases shown : file.isEmpty with
    | true => simpa [fileSection, Index.sections, shown] using tail
    | false =>
      have whole := ofText?_fileSection (clean file (by simp)) shown tail
      simpa [Index.sections, shown] using whole

end Reading

/--
An index reads back as what it shows of its files.

So two lists of files with the same index are shown alike, whatever their paths, documentation and
signatures imitate.
-/
theorem read?_render {files : List FileSurface} (clean : ∀ file ∈ files, Printable file) :
    read? (render files) = some (sections files)
      ∧ ∀ others : List FileSurface, (∀ file ∈ others, Printable file) →
        render files = render others → sections files = sections others := by
  have reads : ∀ shown : List FileSurface, (∀ file ∈ shown, Printable file) →
      read? (render shown) = some (sections shown) := by
    intro shown printable
    simp [read?, render, Reading.ofText?_fileSections printable]
  refine ⟨reads files clean, ?_⟩
  intro others printable same
  -- One index cannot be read in two ways.
  have again := reads others printable
  rw [← same, reads files clean] at again
  exact Option.some.inj again

/-- Files whose paths, documentation and signatures look like lines of an index. -/
def imitations : List FileSurface :=
  [⟨some "a (go) ---", .rust,
      [⟨.function, "f", "--- x (go) ---", some "  [const] x\n--- go ---\r\n", 3⟩]⟩,
    ⟨none, .json, []⟩,
    ⟨some "", .go, [⟨.constant, "C", "", none, 1⟩, ⟨.variable, "V", "  // ]", some "", 2⟩]⟩]

/-- Files that imitate an index read back as they are. -/
theorem read?_render_imitations :
    (∀ file ∈ imitations, Printable file)
      ∧ read? (render imitations) = some
        [⟨some "a (go) ---", .rust,
            [⟨some "  [const] x --- go --- ", .function, "--- x (go) ---"⟩]⟩,
          ⟨some "", .go, [⟨none, .constant, ""⟩, ⟨some "", .variable, "  // ]"⟩]⟩]
      ∧ sections imitations = sections (imitations.filter (!·.isEmpty)) := by
  have clean : ∀ file ∈ imitations, Printable file := by decide
  have others : ∀ file ∈ imitations.filter (!·.isEmpty), Printable file := by decide
  -- Leaving out the file that makes nothing public does not change the index.
  have same : render imitations = render (imitations.filter (!·.isEmpty)) := rfl
  refine ⟨clean, ?_, (read?_render clean).2 _ others same⟩
  rw [(read?_render clean).1]
  decide

end Surface.Index
