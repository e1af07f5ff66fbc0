import Surface.Text.Basic

/-! Names of files and directories that a walk leaves out: built things, dependencies and tests. -/

namespace Surface

/-- The names of directories that are never walked. -/
def excludedDirectories : List String :=
  ["node_modules", "target", "dist", "build", "vendor", "_build", "deps", "zig-cache", "zig-out",
    "__pycache__", "venv", "coverage", "out"]

/-- The names of directories that hold tests. -/
def testDirectories : List String :=
  ["test", "tests", "spec", "specs", "__tests__", "__mocks__", "__snapshots__", "test_helpers",
    "testing", "testdata", "testutil", "testutils", "fixtures", "e2e", "integration_tests",
    "unit_tests", "benches", "benchmarks", "examples"]

/-- Whether a directory is never walked. -/
def isExcludedDirectory (name : List Char) : Bool :=
  excludedDirectories.contains (String.ofList name)

/-- Whether a directory holds tests, by its name in any letter case. -/
def isTestDirectory (name : List Char) : Bool :=
  testDirectories.contains (String.ofList (Text.lower name))

/-- Whether a text ends in a word. -/
def endsIn (word : String) (text : List Char) : Bool :=
  word.toList.isSuffixOf text

/-- Whether a text starts with a word. -/
def startsWith (word : String) (text : List Char) : Bool :=
  word.toList.isPrefixOf text

/-- A text without the word that it ends in. -/
def withoutEnd? (word : String) (text : List Char) : Option (List Char) :=
  if endsIn word text then some (text.take (text.length - word.length)) else none

/-- Ends of file names that are those of tests. -/
def testEnds : List String :=
  ["_test.go", "_test.rs", "_tests.rs", "_test.exs", "_test.gleam", ".test.svelte", ".test.astro"]

/-- Ends of the names of script files. -/
def scriptEnds : List String :=
  [".js", ".ts", ".jsx", ".tsx", ".mjs", ".cjs"]

/-- Ends of the names of files whose tests are marked in front as well. -/
def moduleEnds : List String :=
  [".py", ".zig", ".mojo"]

/-- Whether a file name without its end marks a script as a test. -/
def isScriptTest (stem : List Char) : Bool :=
  endsIn ".test" stem || endsIn ".spec" stem || endsIn "_test" stem

/-- Whether a file name without its end marks a module as a test. -/
def isModuleTest (stem : List Char) : Bool :=
  startsWith "test_" stem || endsIn "_test" stem

/-- Whether a file holds tests, by its name in any letter case. -/
def isTestFile (name : List Char) : Bool :=
  let lowered := Text.lower name
  testEnds.any (endsIn · lowered)
    || scriptEnds.any (fun word => (withoutEnd? word lowered).any isScriptTest)
    || moduleEnds.any (fun word => (withoutEnd? word lowered).any isModuleTest)

end Surface
