import Surface.Proofs.Grammar.Session

/-!
One parser for many sources.
A parser keeps a grammar from one call to the next, but no call ever parses with the grammar of
another one: each is answered as a new parser would answer it at that moment.
-/

namespace Surface

namespace Parser

variable (parser : Parser) (setting : Setting) {loaded after : Loaded} (source : Bytes)
  {language : Language}

/-- Without a grammar nothing is parsed, and the parser keeps the grammar that it has. -/
theorem parse_of_error {error : ParseError}
    (failed : loaded.resolve setting.fs setting.config language = (.error error, after)) :
    parser.parse setting loaded source language = (.error error, parser, after) := by
  simp [parse, failed]

/-- A grammar of another version is refused, and any other one takes the place of the last one. -/
theorem parse_of_ok {grammar : Grammar}
    (resolved : loaded.resolve setting.fs setting.config language = (.ok grammar, after)) :
    parser.parse setting loaded source language
      = if grammar.isCompatible then (.ok (setting.parsing grammar source), ⟨some grammar⟩, after)
        else (.error (.unusable language (.version grammar.version)), parser, after) := by
  by_cases compatible : grammar.isCompatible = true
  · simp [parse, setGrammar, run?, resolved, compatible]
  · simp [parse, setGrammar, resolved, compatible]

variable {parser setting source} {tree : Tree}

/-- A source that has a tree has the one that the grammar of its language gives it. -/
theorem grammar_of_parse (answer : (parser.parse setting loaded source language).1 = .ok tree) :
    ∃ grammar, (loaded.resolve setting.fs setting.config language).1 = .ok grammar
      ∧ grammar.isCompatible = true ∧ tree = setting.parsing grammar source := by
  rcases resolved : loaded.resolve setting.fs setting.config language with ⟨error | grammar, after⟩
  · rw [parser.parse_of_error setting source resolved] at answer
    cases answer
  · rw [parser.parse_of_ok setting source resolved] at answer
    -- A refused grammar gives no tree, so this one was taken over.
    split at answer
    · rename_i compatible
      exact ⟨grammar, rfl, compatible, (Except.ok.inj answer).symm⟩
    · cases answer

/-- A tree that is asked for by a path comes with the language of that path. -/
theorem parse_of_parseFile {path : Path}
    (answer : (parser.parseFile setting loaded source path).1 = .ok (tree, language)) :
    Language.ofPath? path = some language
      ∧ (parser.parse setting loaded source language).1 = .ok tree := by
  unfold parseFile at answer
  cases detected : Language.ofPath? path with
  | none => simp [detected] at answer
  | some found =>
    simp only [detected] at answer
    cases parsed : (parser.parse setting loaded source found).1 with
    | error error => simp [parsed, Except.map] at answer
    | ok given =>
      -- The answer pairs the tree with the language that was detected.
      simp only [parsed, Except.map, Except.ok.injEq, Prod.mk.injEq] at answer
      obtain ⟨rfl, rfl⟩ := answer
      exact ⟨rfl, parsed⟩

end Parser

namespace Session

/-- The grammar that a parser takes over for a language: it is to be had, and of a known version. -/
def accepts? (session : Session) (config : Config) (language : Language) : Option Grammar :=
  (session.resolve config language).1.toOption.filter Grammar.isCompatible

/-- The tree of a source at this moment. No parser takes part in this. -/
def parsed (session : Session) (parsing : Parsing) (config : Config) (source : Bytes)
    (language : Language) : Except ParseError Tree :=
  match (session.resolve config language).1 with
  | .error error => .error error
  | .ok grammar =>
    if grammar.isCompatible then .ok (parsing grammar source)
    else .error (.unusable language (.version grammar.version))

/-- The tree of a source whose language is known by its path, at this moment. -/
def parsedFile (session : Session) (parsing : Parsing) (config : Config) (source : Bytes)
    (path : Path) : Except ParseError (Tree × Language) :=
  match Language.ofPath? path with
  | none => .error (.undetected path)
  | some language =>
    (session.parsed parsing config source language).map fun tree => (tree, language)

end Session

/-- Something that happens while a parser is in use. -/
inductive Use where
  | parse (source : Bytes) (language : Language)
  | parseFile (source : Bytes) (path : Path)
  /-- Files change, or someone else asks for a grammar. -/
  | meanwhile (event : Event)

/-- The language that a use asks a parser for. -/
def Use.language? : Use → Option Language
  | .parse _ language => some language
  | .parseFile _ path => Language.ofPath? path
  | .meanwhile _ => none

/-- What a use is to a session: a parser asks for the grammar of a language, where there is one. -/
def Use.events (config : Config) : Use → List Event
  | .meanwhile event => [event]
  | use => use.language?.toList.map fun language => .call (.resolve config language)

/-- A session with a parser that serves all sources. -/
structure Workbench where
  session : Session
  parser : Parser

namespace Workbench

/-- A new parser in a session that may have gone on for a while. -/
def start (session : Session) : Workbench :=
  ⟨session, .fresh⟩

/-- The same moment with a new parser. -/
def renewed (bench : Workbench) : Workbench :=
  { bench with parser := .fresh }

variable (parsing : Parsing) (config : Config)

/-- What a call comes to at this moment, with the parser and the loaded libraries afterwards. -/
def parse (bench : Workbench) (source : Bytes) (language : Language) :
    Except ParseError Tree × Parser × Loaded :=
  bench.parser.parse ⟨bench.session.fs, parsing, config⟩ bench.session.loaded source language

/-- What a call with a path comes to at this moment. -/
def parseFile (bench : Workbench) (source : Bytes) (path : Path) :
    Except ParseError (Tree × Language) × Parser × Loaded :=
  bench.parser.parseFile ⟨bench.session.fs, parsing, config⟩ bench.session.loaded source path

/-- The workbench after a call that leaves a parser and a table behind. -/
def leave (bench : Workbench) (parser : Parser) (loaded : Loaded) : Workbench :=
  ⟨{ bench.session with loaded }, parser⟩

/-- The workbench after one use of it. -/
def step (bench : Workbench) : Use → Workbench
  | .parse source language =>
    let (_, parser, loaded) := bench.parse parsing config source language
    bench.leave parser loaded
  | .parseFile source path =>
    let (_, parser, loaded) := bench.parseFile parsing config source path
    bench.leave parser loaded
  | .meanwhile event => { bench with session := bench.session.step event }

/-- The workbench after some uses of it. -/
def run (bench : Workbench) (uses : List Use) : Workbench :=
  uses.foldl (step parsing config) bench

/-- The grammars that a parser takes over in the course of some uses, in order. -/
def accepted (session : Session) : List Use → List Grammar
  | [] => []
  | use :: uses =>
    (use.language?.bind (session.accepts? config)).toList
      ++ accepted (session.run (use.events config)) uses

variable {parsing config}

/-- What a call does: it answers by the moment, takes over a grammar, and loads a library. -/
theorem parse_eq (bench : Workbench) (source : Bytes) (language : Language) :
    bench.parse parsing config source language
      = (bench.session.parsed parsing config source language,
          ⟨(bench.session.accepts? config language).or bench.parser.current⟩,
          (bench.session.resolve config language).2) := by
  unfold parse Session.parsed Session.accepts? Session.resolve
  rcases resolved : bench.session.loaded.resolve bench.session.fs config language with
    ⟨error | grammar, after⟩
  · -- The grammar is not to be had, so the parser is not even asked to take it.
    rw [bench.parser.parse_of_error ⟨bench.session.fs, parsing, config⟩ source resolved]
    rfl
  · rw [bench.parser.parse_of_ok ⟨bench.session.fs, parsing, config⟩ source resolved]
    -- A refused grammar leaves the last one in its place.
    by_cases compatible : grammar.isCompatible = true
    · simp [compatible, Except.toOption, Option.filter]
    · simp [compatible, Except.toOption, Option.filter]

/-- A call with a path is a call with the language of that path, if there is one. -/
theorem parseFile_eq (bench : Workbench) (source : Bytes) (path : Path) :
    bench.parseFile parsing config source path
      = (bench.session.parsedFile parsing config source path,
          ⟨((Language.ofPath? path).bind (bench.session.accepts? config)).or bench.parser.current⟩,
          (bench.session.run ((Use.parseFile source path).events config)).loaded) := by
  unfold parseFile Parser.parseFile Session.parsedFile
  cases detected : Language.ofPath? path with
  | none =>
    -- An unknown name is refused before anything is asked for.
    simp [Use.events, Use.language?, detected, Session.run]
  | some language =>
    have called : bench.parse parsing config source language = _ := bench.parse_eq source language
    unfold parse at called
    simp [called, Use.events, Use.language?, detected, Session.run, Session.step]

/-- To the session a use is what a request for a grammar is. -/
theorem session_step (bench : Workbench) (use : Use) :
    (bench.step parsing config use).session = bench.session.run (use.events config) := by
  cases use with
  | parse source language => simp only [step, parse_eq]; rfl
  | parseFile source path =>
    simp only [step, parseFile_eq, leave]
    -- A request changes no file, with or without a language to ask for.
    cases detected : Language.ofPath? path with
    | none => simp [Use.events, Use.language?, detected, Session.run]
    | some language => simp [Use.events, Use.language?, detected, Session.run, Session.step]
  | meanwhile event => rfl

/-- After a use the parser holds the grammar that it took over, or else the one it had. -/
theorem current_step (bench : Workbench) (use : Use) :
    (bench.step parsing config use).parser.current
      = (use.language?.bind (bench.session.accepts? config)).or bench.parser.current := by
  -- Only the two ways of parsing take a grammar over.
  cases use with
  | parse source language => simp only [step, parse_eq]; rfl
  | parseFile source path => simp only [step, parseFile_eq]; rfl
  | meanwhile event => rfl

/-- After a run the parser holds the grammar that it took over last. -/
theorem current_run (bench : Workbench) (uses : List Use) :
    (bench.run parsing config uses).parser.current
      = (accepted config bench.session uses).getLast?.or bench.parser.current := by
  induction uses generalizing bench with
  | nil => rfl
  | cons use uses ih =>
    show ((bench.step parsing config use).run parsing config uses).parser.current = _
    rw [ih, session_step, current_step, accepted, List.getLast?_append, Option.or_assoc]
    -- A single use takes over one grammar at most, which is then the last one.
    cases use.language?.bind (bench.session.accepts? config) <;> rfl

/--
A parser that has been in use answers every call like a new one.

Calls may have failed before any grammar was found, when it was loaded, or when the parser refused
it, and in between files may have changed and libraries been loaded by others.
-/
theorem answers_as_renewed {session : Session} {uses : List Use} {now : Workbench}
    (reached : (start session).run parsing config uses = now) :
    -- Each call has the answer of a new parser and loads the same libraries.
    (∀ source language,
      (now.parse parsing config source language).1
          = (now.renewed.parse parsing config source language).1
        ∧ (now.parse parsing config source language).2.2
          = (now.renewed.parse parsing config source language).2.2) ∧
    (∀ source path,
      (now.parseFile parsing config source path).1
          = (now.renewed.parseFile parsing config source path).1
        ∧ (now.parseFile parsing config source path).2.2
          = (now.renewed.parseFile parsing config source path).2.2) ∧
    -- This is so although the parser still holds the grammar that it took over last.
    now.parser.current = (accepted config session uses).getLast? ∧
    -- A source is only ever parsed with the grammar that its own language has at this moment.
    (∀ source language tree, (now.parse parsing config source language).1 = .ok tree →
      ∃ grammar, (now.session.resolve config language).1 = .ok grammar
        ∧ grammar.isCompatible = true ∧ tree = parsing grammar source) ∧
    (∀ source path tree language,
      (now.parseFile parsing config source path).1 = .ok (tree, language) →
      Language.ofPath? path = some language ∧
        ∃ grammar, (now.session.resolve config language).1 = .ok grammar
          ∧ grammar.isCompatible = true ∧ tree = parsing grammar source) := by
  refine ⟨?calls, ?files, ?current, ?grammar, ?fileGrammar⟩
  case calls =>
    intro source language
    -- What is left of a call without its parser does not mention the parser it had.
    rw [parse_eq, parse_eq]
    exact ⟨rfl, rfl⟩
  case files =>
    intro source path
    rw [parseFile_eq, parseFile_eq]
    exact ⟨rfl, rfl⟩
  case current =>
    rw [← reached, current_run]
    exact Option.or_none
  case grammar =>
    intro source language tree answer
    obtain ⟨grammar, resolved, compatible, same⟩ := Parser.grammar_of_parse answer
    exact ⟨grammar, resolved, compatible, same⟩
  case fileGrammar =>
    intro source path tree language answer
    obtain ⟨detected, parsed⟩ := Parser.parse_of_parseFile answer
    obtain ⟨grammar, resolved, compatible, same⟩ := Parser.grammar_of_parse parsed
    exact ⟨detected, grammar, resolved, compatible, same⟩

/-- Trees that tell by which grammar a source was parsed. -/
def tellingTrees : Parsing := fun grammar source =>
  ⟨⟨grammar.name, none, 0, source.length, 0, []⟩, false⟩

/-- A source is parsed, and then calls fail in every way they can. -/
def failures : List Use :=
  [.parse [] .go,
    .parse [] .mojo,
    .meanwhile (.change (.write Session.libraryPath ⟨[], .notShared⟩)),
    .parse [] .mojo,
    .meanwhile (.change (.write Session.libraryPath ⟨[], .grammar ⟨"mojo", 99⟩⟩)),
    .parse [] .mojo,
    .parseFile [] (.ofString "notes.txt")]

/-- The parser after those calls. -/
def worn : Workbench :=
  (start (.start (.plain [] []))).run tellingTrees Session.libraryConfig failures

/-- The parser holds the grammar of the first call, and parses the next source by its own one. -/
theorem answers_as_renewed_worn :
    worn.parser.current = some (.bundled "go")
      ∧ (worn.parseFile tellingTrees Session.libraryConfig [] (.ofString "tool.py")).1.map
          (fun (tree, language) => (tree.root.kind, language)) = .ok ("python", .python)
      ∧ (worn.parse tellingTrees Session.libraryConfig [] .mojo).1.map (fun tree => tree.root.kind)
          = .error (.unusable .mojo (.version 99)) := by
  obtain ⟨calls, files, current, _, _⟩ := answers_as_renewed (rfl : _ = worn)
  -- A parser that was used answers as a new one would.
  refine ⟨?_, ?_, ?_⟩
  · rw [current]
    decide +kernel
  · refine (congrArg (Except.map _) (files [] (.ofString "tool.py")).1).trans ?_
    rfl
  · refine (congrArg (Except.map _) (calls [] .mojo).1).trans ?_
    rfl

end Workbench

end Surface
