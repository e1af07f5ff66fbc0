import Surface.Rules.Capital
import Surface.Rules.Component
import Surface.Rules.Definition
import Surface.Rules.Modifier
import Surface.Rules.Script
import Surface.Rules.Underscore

/-! Which rules each language has. -/

namespace Surface

/-- The public symbols of a source, by the rules of its language and its syntax tree. -/
def Language.symbols (language : Language) (parsing : Parsing) (source : Bytes) (root : Node) :
    List Symbol :=
  match language with
  | .go => Rules.topLevel Rules.goRule source root
  | .rust => Rules.topLevel Rules.rustRule source root
  | .javascript | .typescript | .tsx => Rules.topLevel Rules.scriptRule source root
  | .python => Rules.topLevel Rules.pythonRule source root
  | .elixir => Rules.elixirSymbols source root
  | .zig => Rules.topLevel Rules.zigRule source root
  | .gleam => Rules.topLevel Rules.gleamRule source root
  | .mojo => Rules.topLevel Rules.mojoRule source root
  | .svelte => Rules.svelteSymbols parsing source root
  | .astro => Rules.astroSymbols parsing source
  | .json | .css | .toml | .markdown => []

end Surface
