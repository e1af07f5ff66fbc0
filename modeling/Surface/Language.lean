import Surface.Path
import Surface.Text.Basic

/-! The languages of source files, their names and their file name extensions. -/

namespace Surface

/-- A language that source files can be written in. -/
inductive Language where
  | go
  | rust
  | javascript
  | typescript
  | tsx
  | python
  | elixir
  | zig
  | json
  | css
  | toml
  | svelte
  | astro
  | gleam
  | markdown
  | mojo
  deriving DecidableEq, Repr

namespace Language

/-- Every language, in the order they are listed in. -/
def all : List Language :=
  [.go, .rust, .javascript, .typescript, .tsx, .python, .elixir, .zig, .json, .css, .toml, .svelte,
    .astro, .gleam, .markdown, .mojo]

/-- The name a language goes by. -/
def name : Language → String
  | .go => "go"
  | .rust => "rust"
  | .javascript => "javascript"
  | .typescript => "typescript"
  | .tsx => "tsx"
  | .python => "python"
  | .elixir => "elixir"
  | .zig => "zig"
  | .json => "json"
  | .css => "css"
  | .toml => "toml"
  | .svelte => "svelte"
  | .astro => "astro"
  | .gleam => "gleam"
  | .markdown => "markdown"
  | .mojo => "mojo"

/-- The extensions of a language's files. -/
def extensions : Language → List String
  | .go => ["go"]
  | .rust => ["rs"]
  | .javascript => ["js", "mjs", "cjs"]
  | .typescript => ["ts"]
  | .tsx => ["tsx"]
  | .python => ["py"]
  | .elixir => ["ex", "exs"]
  | .zig => ["zig"]
  | .json => ["json"]
  | .css => ["css"]
  | .toml => ["toml"]
  | .svelte => ["svelte"]
  | .astro => ["astro"]
  | .gleam => ["gleam"]
  | .markdown => ["md", "markdown"]
  | .mojo => ["mojo", "🔥"]

/-- The language of a name, spelled exactly. -/
def ofName? (name : String) : Option Language :=
  all.find? fun language => language.name == name

/-- The language of a name in any letter case. -/
def ofTag? (tag : String) : Option Language :=
  ofName? (String.ofList (Text.lower tag.toList))

/-- What is said of a tag that names no language. -/
def unknownMessage (tag : String) : String :=
  "Unknown language: " ++ tag

/-- The language of an extension in any letter case. -/
def ofExtension? (extension : String) : Option Language :=
  let lowered := String.ofList (Text.lower extension.toList)
  all.find? fun language => language.extensions.contains lowered

/-- The language of a file, by the extension of its name. -/
def ofPath? (path : Path) : Option Language := do
  let extension ← path.extension?
  let text ← Utf8.decode? extension
  ofExtension? (String.ofList text)

end Language

end Surface
