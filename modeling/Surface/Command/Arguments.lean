import Surface.Path

/-! The arguments of the command line. -/

namespace Surface

/-- What the command line asks for. -/
inductive Command where
  /-- The surfaces of all files at some paths. -/
  | index (paths : List Path) (json : Bool) (includeTests : Bool)
  /-- The languages and where their grammars come from. -/
  | languages
  deriving DecidableEq, Repr

/-- What arguments come to. -/
inductive Request where
  /-- A command to run, with further directories to look for grammar libraries in. -/
  | run (command : Command) (directories : List Path)
  /-- The version of the program. -/
  | version
  /-- How the program is used. -/
  | help
  /-- The arguments make no sense. -/
  | rejected
  deriving DecidableEq, Repr

/-- Where in the arguments an option stands: in front of the command, or after its name. -/
inductive Side where
  | top
  | index
  | languages
  deriving DecidableEq, Repr

/-- An option that takes no value. -/
inductive Flag where
  | verbose
  | json
  | includeTests
  | version
  | help
  deriving DecidableEq, Repr

namespace Flag

/-- The flag of a long name, as far as it may stand on that side. -/
def ofLong? (side : Side) (name : List Char) : Option Flag :=
  if name = "verbose".toList then some .verbose
  else if name = "help".toList then some .help
  else if name = "version".toList ∧ side = .top then some .version
  else if name = "json".toList ∧ side = .index then some .json
  else if name = "include-tests".toList ∧ side = .index then some .includeTests
  else none

/-- The flag of a letter, as far as it may stand on that side. -/
def ofLetter? (side : Side) (letter : Char) : Option Flag :=
  if letter = 'v' then some .verbose
  else if letter = 'h' then some .help
  else if letter = 'V' ∧ side = .top then some .version
  else none

end Flag

/-- What has been read on one side of the arguments. -/
structure Options where
  flags : List Flag
  directories : List Path
  paths : List Path
  deriving DecidableEq, Repr

namespace Options

/-- Nothing has been read. -/
def empty : Options :=
  ⟨[], [], []⟩

/-- One more flag: two of them answer at once, and the others may come once. -/
def raise (options : Options) (flag : Flag) : Except Request Options :=
  match flag with
  | .version => .error .version
  | .help => .error .help
  | _ =>
    if options.flags.contains flag then .error .rejected
    else .ok { options with flags := flag :: options.flags }

/-- The flags of some letters, in order. -/
def raiseLetters (options : Options) (side : Side) (letters : List Char) :
    Except Request Options :=
  letters.foldlM
    (fun options letter =>
      match Flag.ofLetter? side letter with
      | some flag => options.raise flag
      | none => .error .rejected)
    options

/-- One more directory to look for grammar libraries in; the empty path is none. -/
def addDirectory (options : Options) (directory : String) : Except Request Options :=
  if directory.isEmpty then .error .rejected
  else .ok { options with directories := options.directories ++ [.ofString directory] }

/-- One more path; only one command takes any, and the empty path is none. -/
def addPath (options : Options) (side : Side) (path : String) : Except Request Options :=
  if side = .index ∧ ¬ path.isEmpty then
    .ok { options with paths := options.paths ++ [.ofString path] }
  else .error .rejected

end Options

/-- How an argument is spelled. -/
inductive Argument where
  /-- What follows are no options. -/
  | escape
  /-- A long option, and the value attached to it. -/
  | long (name : List Char) (value : Option (List Char))
  /-- Options of one letter each. -/
  | letters (letters : List Char)
  /-- No option. -/
  | plain
  deriving DecidableEq, Repr

/-- How an argument is spelled: a single dash is no option. -/
def Argument.ofString (argument : String) : Argument :=
  match argument.toList with
  | ['-', '-'] => .escape
  | '-' :: '-' :: rest =>
    let name := rest.takeWhile (· != '=')
    match rest.dropWhile (· != '=') with
    | _ :: value => .long name (some value)
    | [] => .long name none
  | '-' :: letter :: more => .letters (letter :: more)
  | _ => .plain

namespace Request

/-- What the arguments come to once they are over. -/
def finish (before : Options) (options : Options) : Side → Request
  | .top => .rejected
  | .index =>
    let paths := if options.paths.isEmpty then [.ofString "."] else options.paths
    .run (.index paths (options.flags.contains .json) (options.flags.contains .includeTests))
      (directories before options)
  | .languages => .run .languages (directories before options)
where
  /-- Directories after the name of the command take the place of those in front of it. -/
  directories (before options : Options) : List Path :=
    if options.directories.isEmpty then before.directories else options.directories

/-- What arguments that are no options come to. -/
def ofPaths (side : Side) (before options : Options) (arguments : List String) : Request :=
  match arguments.foldlM (fun options path => Options.addPath options side path) options with
  | .ok options => finish before options side
  | .error request => request

/-- What the names of commands after `help` come to. -/
def ofHelp (arguments : List String) : Request :=
  if arguments = [] ∨ arguments = ["index"] ∨ arguments = ["languages"] ∨ arguments = ["help"] then
    .help
  else .rejected

/-- What the arguments from some place on come to, given what was read before it. -/
def read (side : Side) (before options : Options) : List String → Request
  | [] => finish before options side
  | argument :: rest =>
    match Argument.ofString argument with
    | .escape => ofPaths side before options rest
    | .long name value =>
      if name = "grammar-dir".toList then
        match value, rest with
        | some value, rest =>
          match options.addDirectory (String.ofList value) with
          | .ok options => read side before options rest
          | .error request => request
        | none, value :: more =>
          if Argument.ofString value = .plain then
            match options.addDirectory value with
            | .ok options => read side before options more
            | .error request => request
          else .rejected
        | none, [] => .rejected
      else
        match value, Flag.ofLong? side name with
        | none, some flag =>
          match options.raise flag with
          | .ok options => read side before options rest
          | .error request => request
        | _, _ => .rejected
    | .letters letters =>
      match options.raiseLetters side letters with
      | .ok options => read side before options rest
      | .error request => request
    | .plain =>
      match side with
      | .top =>
        if argument = "index" then read .index options .empty rest
        else if argument = "languages" then read .languages options .empty rest
        else if argument = "help" then ofHelp rest
        else .rejected
      | side =>
        match options.addPath side argument with
        | .ok options => read side before options rest
        | .error request => request

/-- What the arguments of the program come to. -/
def ofArguments (arguments : List String) : Request :=
  read .top .empty .empty arguments

end Request

end Surface
