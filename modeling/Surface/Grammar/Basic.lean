import Surface.Language
import Surface.Tree.Basic

/-! Grammars, where each language has its own from, and what parsing with one yields. -/

namespace Surface

/-- A grammar: its name, and the version of the interface it was built for. -/
structure Grammar where
  name : String
  version : Nat
  deriving DecidableEq, Repr

/-- The oldest version of the grammar interface that a parser accepts. -/
def Grammar.oldestVersion : Nat := 13

/-- The newest version of the grammar interface that a parser accepts. -/
def Grammar.newestVersion : Nat := 14

/-- Whether a parser accepts a grammar. -/
def Grammar.isCompatible (grammar : Grammar) : Bool :=
  decide (oldestVersion ≤ grammar.version) && decide (grammar.version ≤ newestVersion)

/-- A grammar that is always at hand. -/
def Grammar.bundled (name : String) : Grammar :=
  ⟨name, Grammar.newestVersion⟩

/-- Where the grammar of a language comes from. -/
inductive GrammarSource where
  /-- It is always at hand. -/
  | bundled (grammar : Grammar)
  /-- It is loaded from a library named after it. -/
  | runtime (name : String)
  deriving DecidableEq, Repr

/--
The grammar that a language is parsed with.

Component files are read as markup: their scripts are raw text in it.
-/
def Language.grammarSource : Language → GrammarSource
  | .svelte => .bundled (.bundled "html")
  | .astro => .bundled (.bundled "html")
  | .mojo => .runtime "mojo"
  | language => .bundled (.bundled language.name)

/-- The tree that each grammar gives each source. -/
abbrev Parsing := Grammar → Bytes → Tree

end Surface
