import Surface.Proofs.Rules.Shown
import Surface.Rules.Language

/-!
Public definitions of an Elixir file.
They are calls of defining words at any depth of the tree, also inside of one another, and the walk
finds each of them once.
-/

namespace Surface.Rules

/-- The words that define something public, and what they define. -/
inductive DefiningWord : List Char → Kind → Prop where
  | module : DefiningWord "defmodule".toList .module
  | function : DefiningWord "def".toList .function
  | expansion : DefiningWord "defmacro".toList .function

/-- A call whose first child is a defining word. -/
def DefiningCall (source : Bytes) (node : Node) (kind : Kind) : Prop :=
  node.kind = "call"
    ∧ ∃ target arguments, node.children = target :: arguments
      ∧ DefiningWord (target.text source) kind

/-- The name that a call defines: its second child says it, or else the first. -/
inductive DefinedName (source : Bytes) (node : Node) : List Char → Prop where
  | argument {target argument : Node} {rest : List Node} :
    node.children = target :: argument :: rest → ∀ {name : List Char},
    Headlined source argument name → DefinedName source node name
  | word {target : Node} :
    node.children = [target] → DefinedName source node (target.text source)

/-- A place that holds a public definition. -/
def IsDefinition (source : Bytes) (place : Cursor) : Prop :=
  ∃ kind, DefiningCall source place.node kind

/-- A symbol that tells what a place defines. -/
structure DefinedAt (source : Bytes) (place : Cursor) (symbol : Symbol) : Prop
    extends Shown source place.node symbol where
  kind : DefiningCall source place.node symbol.kind
  name : DefinedName source place.node symbol.name.toList
  /-- The documentation is a comment just before the definition, and nothing else is. -/
  doc : CommentedAt source place symbol.doc

section Call

variable {source : Bytes} {place : Cursor}

/-- The rules know the three words and no other. -/
theorem definedKind?_eq_some_iff {callee : List Char} {kind : Kind} :
    definedKind? callee = some kind ↔ DefiningWord callee kind := by
  unfold definedKind?
  constructor
  · intro found
    split at found
    · rename_i isWord
      cases found
      exact isWord ▸ .module
    · split at found
      · rename_i isWord
        cases found
        exact isWord ▸ .function
      · split at found
        · rename_i isWord
          cases found
          exact isWord ▸ .expansion
        · cases found
  · -- The three words are different, so each is reached past those before it.
    intro word
    cases word with
    | module => exact if_pos rfl
    | function => rw [if_neg (by decide), if_pos rfl]
    | expansion => rw [if_neg (by decide), if_neg (by decide), if_pos rfl]

/-- A call of a defining word gives a symbol, whatever else it is called with. -/
theorem elixirSymbol_of_definingCall {kind : Kind}
    (defining : DefiningCall source place.node kind) :
    ∃ name, DefinedName source place.node name ∧ elixirSymbol source place
      = some (declare kind name (commentBefore source place.previous?) place.node source) := by
  obtain ⟨isCall, target, arguments, children, word⟩ := defining
  have found := definedKind?_eq_some_iff.mpr word
  -- The name is what the word is called with, or the word itself where it stands alone.
  cases arguments with
  | nil => exact ⟨_, .word children, by simp [elixirSymbol, isCall, children, found]⟩
  | cons argument rest =>
    exact ⟨_, .argument children (headlined_headline source argument),
      by simp [elixirSymbol, isCall, children, found]⟩

/-- Anything else gives none, neither a call of another word nor a node that is no call. -/
theorem elixirSymbol_of_not_isDefinition (other : ¬ IsDefinition source place) :
    elixirSymbol source place = none := by
  unfold elixirSymbol
  split
  · rename_i isCall
    split
    · rfl
    · rename_i target arguments children
      -- A word that defines something would make the place a definition.
      cases found : definedKind? (target.text source) with
      | none => simp only [found, Option.map_none]
      | some kind =>
        exact absurd ⟨kind, by simpa using isCall, target, arguments, children,
          definedKind?_eq_some_iff.mp found⟩ other
  · rfl

instance (source : Bytes) : DecidablePred (IsDefinition source) := fun place =>
  decidable_of_iff ((elixirSymbol source place).isSome = true) <| by
    -- A place gives a symbol exactly when it holds a definition.
    constructor
    · intro given
      by_contra other
      simp [elixirSymbol_of_not_isDefinition other] at given
    · intro isDefinition
      obtain ⟨kind, defining⟩ := isDefinition
      obtain ⟨name, _, found⟩ := elixirSymbol_of_definingCall defining
      simp [found]

/-- The symbol of a definition in a tree tells what is defined there. -/
theorem definedAt_declare {root : Node} (member : place ∈ root.places []) {kind : Kind}
    (defining : DefiningCall source place.node kind) {name : List Char}
    (named : DefinedName source place.node name) :
    DefinedAt source place
      (declare kind name (commentBefore source place.previous?) place.node source) where
  toShown := shown_declare _ _ _ _ _
  kind := defining
  name := by simpa [declare] using named
  doc := commentedAt_of_settled (Node.settled_of_mem_places member)

end Call

end Surface.Rules

namespace Surface

/--
The symbols of an Elixir file are those of its public definitions, however deep they lie.

There is one for each place of the tree that holds a definition, in the order of the walk.
The places are all different, and their nodes are all the nodes of the tree, so nothing is found
twice and nothing is left out, whatever stands around a definition.
-/
theorem Language.elixir_symbols_defined (parsing : Parsing) (source : Bytes) (root : Node) :
    (root.places []).Nodup ∧ (root.places []).map Cursor.node = root.nodes
      ∧ List.Forall₂ (Rules.DefinedAt source)
        ((root.places []).filter (Rules.IsDefinition source))
        (Language.elixir.symbols parsing source root) := by
  refine ⟨root.nodup_places, root.places_map_node [], ?_⟩
  -- The walk comes to the places of the tree in order, and takes at most one symbol from each.
  rw [Language.symbols, Rules.elixirSymbols, Node.walk_eq, List.filterMap_eq_flatMap_toList]
  apply forall₂_filter_flatMap_of_mem
  · intro place member isDefinition
    obtain ⟨kind, defining⟩ := isDefinition
    obtain ⟨name, named, found⟩ := Rules.elixirSymbol_of_definingCall defining
    exact ⟨_, by rw [found]; rfl, Rules.definedAt_declare member defining named⟩
  · intro place _ other
    rw [Rules.elixirSymbol_of_not_isDefinition other]
    rfl

/--
The text of a module with a documented function, a private one with a function inside, and a word
that is called with nothing.
-/
def scopedSource : Bytes :=
  Utf8.encode ("defmodule A do\n  # c\n  def f(x), do: x\n  defp g(x) do\n    def h, do: 1\n  end\n"
    ++ "  def\nend").toList

/-- The tree of that text. -/
def scopedRoot : Node :=
  ⟨"source", none, 0, 86, 0,
    [⟨"call", none, 0, 86, 0,
        [⟨"identifier", some "target", 0, 9, 0, []⟩, ⟨"arguments", none, 10, 11, 0, []⟩,
          ⟨"do_block", none, 12, 86, 0,
            [⟨"do", none, 12, 14, 0, []⟩, ⟨"comment", none, 17, 20, 1, []⟩,
              ⟨"call", none, 23, 38, 2,
                [⟨"identifier", some "target", 23, 26, 2, []⟩, ⟨"arguments", none, 27, 38, 2, []⟩]⟩,
              ⟨"call", none, 41, 76, 3,
                [⟨"identifier", some "target", 41, 45, 3, []⟩,
                  ⟨"arguments", none, 46, 50, 3, []⟩,
                  ⟨"do_block", none, 51, 76, 3,
                    [⟨"do", none, 51, 53, 3, []⟩,
                      ⟨"call", none, 58, 70, 4,
                        [⟨"identifier", some "target", 58, 61, 4, []⟩,
                          ⟨"arguments", none, 62, 70, 4, []⟩]⟩,
                      ⟨"end", none, 73, 76, 5, []⟩]⟩]⟩,
              ⟨"call", none, 79, 82, 6, [⟨"identifier", some "target", 79, 82, 6, []⟩]⟩,
              ⟨"end", none, 83, 86, 7, []⟩]⟩]⟩]⟩

/-- Parsing of every text to that tree. -/
def scopedParsing : Parsing := fun _ _ => ⟨scopedRoot, false⟩

/-- A private definition hides itself and not what is inside of it, and a lone word names itself. -/
theorem Language.elixir_symbols_defined_nested :
    Language.elixir.symbols scopedParsing scopedSource scopedRoot
        = [⟨.module, "A", "defmodule A do", none, 1⟩,
          ⟨.function, "f(x), do: x", "def f(x), do: x", some "# c", 3⟩,
          ⟨.function, "h, do: 1", "def h, do: 1", none, 5⟩, ⟨.function, "def", "def", none, 7⟩]
      ∧ ((scopedRoot.places []).filter (Rules.IsDefinition scopedSource)).length = 4 := by
  have shown : Language.elixir.symbols scopedParsing scopedSource scopedRoot
      = [⟨.module, "A", "defmodule A do", none, 1⟩,
        ⟨.function, "f(x), do: x", "def f(x), do: x", some "# c", 3⟩,
        ⟨.function, "h, do: 1", "def h, do: 1", none, 5⟩, ⟨.function, "def", "def", none, 7⟩] := by
    decide +kernel
  -- There are as many places as symbols.
  obtain ⟨_, _, each⟩ := elixir_symbols_defined scopedParsing scopedSource scopedRoot
  exact ⟨shown, by rw [each.length_eq, shown]; rfl⟩

end Surface
