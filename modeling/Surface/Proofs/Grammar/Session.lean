import Surface.Proofs.Grammar.Library

/-!
Sessions: files change and grammars are asked for in any order, and the table of loaded libraries
is what the calls so far have made of it.
-/

namespace Surface

/-- A change of the files. -/
inductive Change where
  | put (path : Path) (entry : Entry)
  | write (path : Path) (file : File)
  | makeDirectory (path : Path)
  | remove (path : Path)

/-- The files after a change; removing what is not there changes nothing. -/
def Change.apply (fs : FileSystem) : Change → FileSystem
  | .put path entry => fs.put path entry
  | .write path file => fs.write path file
  | .makeDirectory path => fs.makeDirectory path
  | .remove path => (fs.remove? path).getD fs

/-- A request that needs a grammar, or asks whether there is one. -/
inductive Call where
  | available (config : Config) (language : Language)
  | resolve (config : Config) (language : Language)
  | extract (parsing : Parsing) (config : Config) (source : Bytes) (language : Language)

/-- Something that happens in a session. -/
inductive Event where
  | change (change : Change)
  | call (call : Call)

/-- The files as they are, and the libraries loaded so far. -/
structure Session where
  fs : FileSystem
  loaded : Loaded

namespace Session

/-- A session in which nothing has been loaded. -/
def start (fs : FileSystem) : Session :=
  ⟨fs, .empty⟩

/-- Whether a grammar is there for a language, by the files as they are. -/
def isAvailable (session : Session) (config : Config) (language : Language) : Bool :=
  config.isAvailable session.fs language

/-- The grammar of a language at this moment, and the libraries loaded afterwards. -/
def resolve (session : Session) (config : Config) (language : Language) :
    Except ParseError Grammar × Loaded :=
  session.loaded.resolve session.fs config language

/-- The surface of a source at this moment, and the libraries loaded afterwards. -/
def extract (session : Session) (parsing : Parsing) (config : Config) (source : Bytes)
    (language : Language) : Except ParseError FileSurface × Loaded :=
  Setting.extract ⟨session.fs, parsing, config⟩ session.loaded source language

/-- The session after an event. -/
def step (session : Session) : Event → Session
  | .change change => { session with fs := change.apply session.fs }
  | .call (.available _ _) => session
  | .call (.resolve config language) =>
    { session with loaded := (session.resolve config language).2 }
  | .call (.extract parsing config source language) =>
    { session with loaded := (session.extract parsing config source language).2 }

/-- The session after some events. -/
def run (session : Session) (events : List Event) : Session :=
  events.foldl step session

end Session

/-- The calls among events, each with the files as they were when it was made. -/
def callsFrom (fs : FileSystem) : List Event → List (FileSystem × Call)
  | [] => []
  | .change change :: events => callsFrom (change.apply fs) events
  | .call call :: events => (fs, call) :: callsFrom fs events

/-- The grammar that a call would load for a path if nothing had been loaded before. -/
def Call.loads? (call : Call) (fs : FileSystem) (path : Path) : Option Grammar :=
  match call with
  | .available _ _ => none
  | .resolve config language | .extract _ config _ language =>
    (language.library? config fs).bind fun library => fs.grammarFor? library path

/-- The grammar of the first load of a path that succeeds. No table takes part in this. -/
def firstLoad? (calls : List (FileSystem × Call)) (path : Path) : Option Grammar :=
  calls.findSome? fun (fs, call) => call.loads? fs path

namespace Session

/-- A call fills the gap it finds in the table, and changes no entry. -/
theorem get?_step_call (session : Session) (call : Call) (path : Path) :
    (session.step (.call call)).loaded.get? path
      = (session.loaded.get? path).or (call.loads? session.fs path) := by
  -- Extracting loads what resolving does, and asking whether a grammar is there loads nothing.
  cases call with
  | available config language => simp [step, Call.loads?]
  | resolve config language =>
    exact Loaded.get?_resolve session.loaded session.fs config language path
  | extract parsing config source language =>
    simp only [step, extract, Setting.extract_loaded]
    exact Loaded.get?_resolve session.loaded session.fs config language path

/-- A call changes no file. -/
theorem fs_step_call (session : Session) (call : Call) :
    (session.step (.call call)).fs = session.fs := by
  cases call <;> rfl

/-- What a run makes of the table: an entry stays, a gap is filled by the first load. -/
theorem get?_run (session : Session) (events : List Event) (path : Path) :
    (session.run events).loaded.get? path
      = (session.loaded.get? path).or (firstLoad? (callsFrom session.fs events) path) := by
  induction events generalizing session with
  | nil => simp [run, callsFrom, firstLoad?]
  | cons event events ih =>
    change ((session.step event).run events).loaded.get? path = _
    rw [ih]
    cases event with
    | change change => rfl
    | call call =>
      rw [get?_step_call, fs_step_call, Option.or_assoc]
      -- The first call of the rest comes second, after the call made now.
      simp only [callsFrom, firstLoad?, List.findSome?_cons]
      cases call.loads? session.fs path <;> simp

/--
A library stands for the grammar it had when it was first loaded, for as long as its path leads
to a file at all.
-/
theorem loads_once {fs : FileSystem} {events : List Event} {now : Session}
    (reached : (start fs).run events = now) :
    -- Once a path has an entry, the entry stays whatever happens.
    (∀ later path grammar, now.loaded.get? path = some grammar →
      (now.run later).loaded.get? path = some grammar) ∧
    -- A call that fails to load a library leaves the table alone.
    (∀ config error, (now.resolve config .mojo).1 = .error error →
      (now.resolve config .mojo).2 = now.loaded) ∧
    (∀ parsing config source fault,
      (now.extract parsing config source .mojo).1 = .error (.unusable .mojo fault) →
      (∀ found, fault ≠ .version found) →
      (now.extract parsing config source .mojo).2 = now.loaded) ∧
    -- The library that is found stands for its first load, and for its file before that.
    (∀ config library, config.library? now.fs "mojo" = some library →
      ∃ file, now.fs.file? library = some file ∧
        (now.resolve config .mojo).1
          = match firstLoad? (callsFrom fs events) library with
            | some grammar => .ok grammar
            | none =>
              match file.image with
              | .grammar grammar => .ok grammar
              | .noEntryPoint => .error (.unusable .mojo (.noEntryPoint "tree_sitter_mojo"))
              | .notShared => .error (.unusable .mojo (.notShared library))) ∧
    -- Where no path leads to a file there is no grammar, whatever the table holds.
    (∀ config, (∀ path ∈ config.libraryPaths "mojo", now.fs.isFile path = false) →
      now.isAvailable config .mojo = false ∧
      now.resolve config .mojo
        = (.error (.unsupported .mojo "mojo" config.directories.length), now.loaded) ∧
      ∀ parsing source, now.extract parsing config source .mojo
        = (.error (.unsupported .mojo "mojo" config.directories.length), now.loaded)) := by
  have source : Language.mojo.grammarSource = .runtime "mojo" := rfl
  refine ⟨?stays, fun _ _ => Loaded.resolve_error, ?fails, ?found, ?absent⟩
  case stays =>
    intro later path grammar known
    rw [get?_run, known, Option.some_or]
  case fails =>
    intro parsing config bytes fault failed early
    refine Setting.extract_error failed fun found same => ?_
    exact early found (ParseError.unusable.inj same).2
  case found =>
    intro config library found
    -- The run started with an empty table, so an entry is exactly a first load.
    have entry : now.loaded.get? library = firstLoad? (callsFrom fs events) library := by
      rw [← reached, get?_run]
      rfl
    rw [← entry]
    exact now.loaded.resolve_answer source found
  case absent =>
    intro config silent
    have absent : config.library? now.fs "mojo" = none := by
      rw [Config.library?, List.find?_eq_none]
      intro path member
      simp [silent path member]
    have resolved : now.resolve config .mojo = _ := Loaded.resolve_of_absent source absent
    refine ⟨?_, resolved, fun parsing bytes => Setting.extract_of_error resolved⟩
    simp [isAvailable, Config.isAvailable, source, absent]

/-- The one path at which the library is put in the runs below. -/
def libraryPath : Path :=
  .ofString "/g/mojo.so"

/-- The search in the directory of that path. -/
def libraryConfig : Config :=
  ⟨[.ofString "/g"]⟩

/-- A library is loaded, and then a file that is none takes its place. -/
def replacement : List Event :=
  [.change (.write libraryPath ⟨[], .grammar ⟨"mojo", 14⟩⟩),
    .call (.resolve libraryConfig .mojo),
    .change (.write libraryPath ⟨[], .notShared⟩)]

/-- The session after that. -/
def replaced : Session :=
  (start (.plain [] [])).run replacement

/-- The session after the file is removed as well. -/
def removed : Session :=
  (start (.plain [] [])).run (replacement ++ [.change (.remove libraryPath)])

/-- A session with a library that lacks its entry point. -/
def incomplete : Session :=
  (start (.plain [] [])).run [.change (.write libraryPath ⟨[], .noEntryPoint⟩)]

/-- The grammar outlives its file in the table, but without any file it is not found there. -/
theorem loads_once_replaced :
    replaced.fs.file? libraryPath = some ⟨[], .notShared⟩
      ∧ (replaced.resolve libraryConfig .mojo).1 = .ok ⟨"mojo", 14⟩
      ∧ removed.loaded.get? libraryPath = some ⟨"mojo", 14⟩
      ∧ (removed.resolve libraryConfig .mojo).1 = .error (.unsupported .mojo "mojo" 1)
      ∧ (incomplete.resolve libraryConfig .mojo).1
          = .error (.unusable .mojo (.noEntryPoint "tree_sitter_mojo"))
      ∧ (incomplete.resolve libraryConfig .mojo).2 = .empty := by
  obtain ⟨stays, _, _, replacedAnswers, _⟩ := loads_once (rfl : _ = replaced)
  obtain ⟨_, _, _, _, silences⟩ := loads_once (rfl : _ = removed)
  obtain ⟨_, faults, _, incompleteAnswers, _⟩ := loads_once (rfl : _ = incomplete)
  obtain ⟨_, _, answer⟩ := replacedAnswers libraryConfig libraryPath (by decide +kernel)
  -- The only call comes while the library is whole.
  have first : firstLoad? (callsFrom (.plain [] []) replacement) libraryPath
      = some ⟨"mojo", 14⟩ := by decide +kernel
  have entry : replaced.loaded.get? libraryPath = some ⟨"mojo", 14⟩ := by decide +kernel
  have silent : ∀ path ∈ libraryConfig.libraryPaths "mojo", removed.fs.isFile path = false := by
    decide +kernel
  obtain ⟨_, unsupported, _⟩ := silences libraryConfig silent
  obtain ⟨file, held, fails⟩ := incompleteAnswers libraryConfig libraryPath (by decide +kernel)
  have lacking : incomplete.fs.file? libraryPath = some ⟨[], .noEntryPoint⟩ := by decide +kernel
  obtain rfl : file = ⟨[], .noEntryPoint⟩ := Option.some.inj (held.symm.trans lacking)
  refine ⟨by decide +kernel, ?_, stays [.change (.remove libraryPath)] _ _ entry, ?_, fails,
    faults _ _ fails⟩
  · rw [answer, first]
  · rw [unsupported]
    rfl

end Session

end Surface
