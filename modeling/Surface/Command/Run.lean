import Surface.Command.Arguments
import Surface.Index
import Surface.Symbol.Json
import Surface.Text.Line
import Surface.Walk.Collect

/-! The commands, and what the program prints for its arguments. -/

namespace Surface

/-- What a run of the program comes to. -/
structure Report where
  exitCode : Nat
  output : String
  /-- What is said on the side of a command that failed. -/
  message : Option String
  deriving DecidableEq, Repr

/-- The first line of what is said on the side, to someone who reads it line by line. -/
def Report.messageLine? (report : Report) : Option String :=
  report.message.map fun text => String.ofList (Text.dropReturn (Text.firstLine text.toList))

/-- A text filled up with spaces to a number of characters. -/
def padTo (width : Nat) (text : String) : String :=
  text ++ String.ofList (List.replicate (width - text.length) ' ')

/-- Where the grammar of a language comes from, in words. -/
def Language.describeSource (language : Language) (fs : FileSystem) (config : Config) : String :=
  match language.grammarSource with
  | .bundled _ => "bundled"
  | .runtime name =>
    if config.isAvailable fs language then "runtime (" ++ name ++ " found)"
    else "runtime (" ++ name ++ " not found)"

/-- The line of a language in the list of languages. -/
def Language.describe (language : Language) (fs : FileSystem) (config : Config) : String :=
  let extensions := " ".intercalate (language.extensions.map fun extension => "." ++ extension)
  padTo 12 language.name ++ " " ++ padTo 20 extensions ++ " " ++ language.describeSource fs config

/-- The list of languages. -/
def languagesText (fs : FileSystem) (config : Config) : String :=
  String.join (Language.all.map fun language => language.describe fs config ++ "\n")

/-- Surfaces as they are printed: as JSON, or as the text index. -/
def surfacesText (json : Bool) (surfaces : List FileSurface) : String :=
  if json then (Json.array (surfaces.map FileSurface.toJson)).pretty ++ "\n"
  else Index.render surfaces

/-- What the index of some paths prints, and the loaded libraries afterwards. -/
def Setting.index (setting : Setting) (loaded : Loaded) (paths : List Path) (json : Bool)
    (includeTests : Bool) : Except CommandError String × Loaded :=
  match setting.collectAll loaded includeTests paths with
  | (answer, loaded) => (answer.map (surfacesText json), loaded)

/-- What a command prints. -/
def Setting.runCommand (setting : Setting) : Command → Except CommandError String
  | .index paths json includeTests => (setting.index .empty paths json includeTests).1
  | .languages => .ok (languagesText setting.fs setting.config)

/-- The name and version of the program. -/
def versionText : String := "apidex 0.1.0\n"

/-- How the program is used. -/
def usageText : String :=
  "Usage: apidex [OPTIONS] <COMMAND>\n\nCommands:\n"
    ++ "  index      Extract the public API of files or directories\n"
    ++ "  languages  List supported languages and where their grammars come from\n"

/-- What the program prints for its arguments, and the code it ends with. -/
def Report.ofArguments (fs : FileSystem) (parsing : Parsing) (variableValue : Option String)
    (arguments : List String) : Report :=
  match Request.ofArguments arguments with
  | .rejected => ⟨2, "", none⟩
  | .version => ⟨0, versionText, none⟩
  | .help => ⟨0, usageText, none⟩
  | .run command directories =>
    let setting := ⟨fs, parsing, .ofEnvironment variableValue directories⟩
    match Setting.runCommand setting command with
    | .ok output => ⟨0, output, none⟩
    | .error error => ⟨1, "", some ("Error: " ++ error.message)⟩

end Surface
