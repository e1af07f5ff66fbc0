import Surface.Extraction

/-!
Laws of grammar libraries: what loading one does to the table, what asking for a grammar answers,
and what extraction makes of the answer.
-/

namespace Surface

/-- The grammar that a file holds, if it can be loaded at all. -/
def File.grammar? (file : File) : Option Grammar :=
  match file.image with
  | .grammar grammar => some grammar
  | _ => none

/-- What loading a library adds for a path: nothing unless the library is at that very path. -/
def FileSystem.grammarFor? (fs : FileSystem) (library path : Path) : Option Grammar :=
  -- Two spellings of a path are one path to the table, so components are compared.
  if path.components = library.components then (fs.file? library).bind File.grammar? else none

/-- Why a file cannot be loaded as the library of a grammar. -/
def FileSystem.loadFault (fs : FileSystem) (name : String) (library : Path) : GrammarFault :=
  match fs.file? library with
  | some ⟨_, .noEntryPoint⟩ => .noEntryPoint ("tree_sitter_" ++ name)
  | _ => .notShared library

/-- The library that a language's grammar would be loaded from. -/
def Language.library? (language : Language) (config : Config) (fs : FileSystem) : Option Path :=
  match language.grammarSource with
  | .bundled _ => none
  | .runtime name => config.library? fs name

namespace Loaded

/-- A library is found in the table under every spelling of its path. -/
theorem get?_insert (loaded : Loaded) (library path : Path) (grammar : Grammar) :
    (loaded.insert library grammar).get? path
      = if path.components = library.components then some grammar else loaded.get? path := by
  -- The table tells paths apart by their components.
  simp only [get?, insert, List.lookup_cons]
  by_cases same : path.components = library.components
  · simp [same]
  · simp [same, beq_false_of_ne same]

variable {loaded : Loaded} {fs : FileSystem} {library : Path} {grammar : Grammar}

/-- A library that is in the table is not loaded again. -/
theorem load_of_known (known : loaded.get? library = some grammar) (name : String) :
    loaded.load fs name library = (.ok grammar, loaded) := by
  simp [load, known]

/-- A library that is not in the table stands for what its file holds. -/
theorem load_of_unknown (unknown : loaded.get? library = none) (name : String) :
    loaded.load fs name library
      = match (fs.file? library).bind File.grammar? with
        | some grammar => (.ok grammar, loaded.insert library grammar)
        | none => (.error (fs.loadFault name library), loaded) := by
  unfold load FileSystem.loadFault
  rw [unknown]
  -- The table is out of the way, so the file is there or not, and if it is, its image decides.
  rcases fs.file? library with _ | ⟨bytes, image⟩
  · rfl
  · cases image <;> rfl

/-- Loading a library fills the gap at its path, and touches nothing that is there already. -/
theorem get?_load (loaded : Loaded) (fs : FileSystem) (name : String) (library path : Path) :
    (loaded.load fs name library).2.get? path
      = (loaded.get? path).or (fs.grammarFor? library path) := by
  unfold FileSystem.grammarFor?
  cases known : loaded.get? library with
  | some grammar =>
    -- The table stays as it is, and where something could be added it has an entry already.
    rw [load_of_known known]
    by_cases same : path.components = library.components
    · have entry : loaded.get? path = some grammar := by rw [get?, same, ← get?, known]
      simp [entry]
    · simp [same]
  | none =>
    rw [load_of_unknown known]
    by_cases same : path.components = library.components
    · have gap : loaded.get? path = none := by rw [get?, same, ← get?, known]
      cases (fs.file? library).bind File.grammar? <;> simp [get?_insert, same, gap]
    · cases (fs.file? library).bind File.grammar? <;> simp [get?_insert, same]

/-- A load that fails leaves the table as it was. -/
theorem load_error {name : String} {fault : GrammarFault}
    (failed : (loaded.load fs name library).1 = .error fault) :
    (loaded.load fs name library).2 = loaded := by
  cases known : loaded.get? library with
  | some grammar => rw [load_of_known known]
  | none =>
    rw [load_of_unknown known] at failed ⊢
    -- A whole library would have been loaded without a fault.
    cases held : (fs.file? library).bind File.grammar? with
    | some grammar => simp [held] at failed
    | none => rfl

variable {config : Config} {language : Language} {name : String}

/-- A library that is found is loaded, and a fault of it is told of the language. -/
theorem resolve_of_found (source : language.grammarSource = .runtime name)
    (found : config.library? fs name = some library) :
    loaded.resolve fs config language
      = ((loaded.load fs name library).1.mapError (.unusable language),
          (loaded.load fs name library).2) := by
  simp only [resolve, source, found]
  rcases loaded.load fs name library with ⟨_ | _, _⟩ <;> rfl

/-- Without a library the language is not supported. -/
theorem resolve_of_absent (source : language.grammarSource = .runtime name)
    (absent : config.library? fs name = none) :
    loaded.resolve fs config language
      = (.error (.unsupported language name config.directories.length), loaded) := by
  simp [resolve, source, absent]

/-- The answer for a library that is found: its entry if it has one, or else what its file holds. -/
theorem resolve_answer (loaded : Loaded) (source : language.grammarSource = .runtime name)
    (found : config.library? fs name = some library) :
    ∃ file, fs.file? library = some file ∧
      (loaded.resolve fs config language).1
        = match loaded.get? library with
          | some grammar => .ok grammar
          | none =>
            match file.image with
            | .grammar grammar => .ok grammar
            | .noEntryPoint => .error (.unusable language (.noEntryPoint ("tree_sitter_" ++ name)))
            | .notShared => .error (.unusable language (.notShared library)) := by
  -- The search only stops at a path that leads to a file.
  have isFile : fs.isFile library = true := List.find?_some found
  obtain ⟨⟨bytes, image⟩, held⟩ := Option.isSome_iff_exists.mp isFile
  refine ⟨⟨bytes, image⟩, held, ?_⟩
  rw [resolve_of_found source found]
  cases known : loaded.get? library with
  | some grammar => rw [load_of_known known]; rfl
  | none =>
    rw [load_of_unknown known]
    simp only [FileSystem.loadFault, held, Option.bind_some]
    cases image <;> rfl

/-- Asking for a grammar loads the library that is found for it, and no other. -/
theorem get?_resolve (loaded : Loaded) (fs : FileSystem) (config : Config) (language : Language)
    (path : Path) :
    (loaded.resolve fs config language).2.get? path
      = (loaded.get? path).or
          ((language.library? config fs).bind fun library => fs.grammarFor? library path) := by
  -- A bundled grammar is never loaded, and a library only if one is found.
  unfold Language.library?
  cases source : language.grammarSource with
  | bundled grammar => simp [resolve, source]
  | runtime name =>
    cases found : config.library? fs name with
    | none => simp [resolve_of_absent source found, found]
    | some library => simp [resolve_of_found source found, get?_load, found]

/-- A grammar that is not to be had leaves the table as it was. -/
theorem resolve_error {error : ParseError}
    (failed : (loaded.resolve fs config language).1 = .error error) :
    (loaded.resolve fs config language).2 = loaded := by
  cases source : language.grammarSource with
  | bundled grammar => simp [resolve, source]
  | runtime name =>
    cases found : config.library? fs name with
    | none => rw [resolve_of_absent source found]
    | some library =>
      rw [resolve_of_found source found] at failed ⊢
      -- The error is the library's, so it was the load that failed.
      cases answer : (loaded.load fs name library).1 with
      | ok grammar =>
        rw [answer] at failed
        contradiction
      | error fault => exact load_error answer

end Loaded

namespace Setting

variable {setting : Setting} {loaded after : Loaded} {source : Bytes} {language : Language}

/-- Without a grammar there is nothing to extract. -/
theorem extract_of_error {error : ParseError}
    (failed : loaded.resolve setting.fs setting.config language = (.error error, after)) :
    setting.extract loaded source language = (.error error, after) := by
  simp [extract, Parser.parse, failed]

/-- With a grammar only its version can stand in the way. -/
theorem extract_of_ok {grammar : Grammar}
    (resolved : loaded.resolve setting.fs setting.config language = (.ok grammar, after)) :
    setting.extract loaded source language
      = (if grammar.isCompatible then
          .ok ⟨none, language,
            language.symbols setting.parsing source (setting.parsing grammar source).root⟩
        else .error (.unusable language (.version grammar.version)), after) := by
  by_cases compatible : grammar.isCompatible = true
  · simp [extract, Parser.parse, Parser.setGrammar, Parser.run?, resolved, compatible]
  · simp [extract, Parser.parse, Parser.setGrammar, resolved, compatible]

/-- Extraction loads what asking for the grammar loads. -/
theorem extract_loaded (setting : Setting) (loaded : Loaded) (source : Bytes)
    (language : Language) :
    (setting.extract loaded source language).2
      = (loaded.resolve setting.fs setting.config language).2 := by
  rcases resolved : loaded.resolve setting.fs setting.config language with ⟨error | grammar, after⟩
  · rw [extract_of_error resolved]
  · rw [extract_of_ok resolved]

/-- An extraction that fails before the version is looked at leaves the table as it was. -/
theorem extract_error {error : ParseError}
    (failed : (setting.extract loaded source language).1 = .error error)
    (early : ∀ found, error ≠ .unusable language (.version found)) :
    (setting.extract loaded source language).2 = loaded := by
  rw [extract_loaded]
  rcases resolved : loaded.resolve setting.fs setting.config language with ⟨fault | grammar, after⟩
  · rw [← resolved]
    exact Loaded.resolve_error (congrArg Prod.fst resolved)
  · -- The grammar was there, so the error is about its version after all.
    rw [extract_of_ok resolved] at failed
    by_cases compatible : grammar.isCompatible = true
    · simp [compatible] at failed
    · simp only [compatible] at failed
      exact absurd (Except.error.inj failed).symm (early grammar.version)

end Setting

end Surface
