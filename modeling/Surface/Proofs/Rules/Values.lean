import Surface.Proofs.Rules.Exported

/-!
Constants and variables of a Go file, by the names that their specifications list.
A specification may list several names, but it is looked up by the first of them: an exported name
is shown as soon as it comes first somewhere, and is lost where it never does.
-/

namespace Surface.Rules

/-- What constants and variables are shown as. -/
def valueKinds : List Kind :=
  [.constant, .variable]

/-- A name that starts with a capital from `A` to `Z`. -/
def StartsWithCapital (name : List Char) : Prop :=
  ∃ letter rest, name = letter :: rest ∧ 'A' ≤ letter ∧ letter ≤ 'Z'

/-- A specification in a declaration right below the root, there or in a list of its own. -/
inductive GoSpec : Cursor → Prop where
  | own {place group : Cursor} {kind : Kind} : place.parent? = some group → GoGroup group kind →
    place.node.kind ∈ ["const_spec", "var_spec"] → GoSpec place
  | listed {place list group : Cursor} {kind : Kind} : place.parent? = some list →
    list.node.kind = "var_spec_list" → list.parent? = some group → GoGroup group kind →
    place.node.kind ∈ ["const_spec", "var_spec"] → GoSpec place

/-- A name that a specification of the tree lists, at any position among its names. -/
def Lists (source : Bytes) (root : Node) (name : List Char) : Prop :=
  ∃ place ∈ root.places [], GoSpec place ∧ ∃ child ∈ place.node.children,
    child.kind = "identifier" ∧ child.field = some "name" ∧ child.text source = name

/-- A name that comes first in a specification of the tree, which declares something of a kind. -/
def Leads (source : Bytes) (root : Node) (kind : Kind) (name : List Char) : Prop :=
  ∃ place ∈ root.places [], GoDeclaration place kind none ∧ ∃ child,
    place.node.childAt? "name" = some child ∧ child.text source = name

/-- Symbols among which a name is shown, as something of a kind. -/
def Shows (symbols : List Symbol) (kind : Kind) (name : List Char) : Prop :=
  ∃ symbol ∈ symbols, symbol.kind = kind ∧ symbol.name = String.ofList name

section Names

variable {source : Bytes} {name : List Char}

/-- Constants and variables are never documented. -/
theorem GoDeclaration.documented_eq_none {place : Cursor} {kind : Kind}
    {documented : Option Cursor} (holds : GoDeclaration place kind documented)
    (isValue : kind ∈ valueKinds) : documented = none := by
  -- The declarations that may have a comment are of other kinds.
  cases holds with
  | function => exact absurd isValue (by decide)
  | method => exact absurd isValue (by decide)
  | type _ _ _ _ isKind =>
    -- Whatever a type is, it is neither a constant nor a variable.
    cases isKind with
    | struct => exact absurd isValue (by decide)
    | interface => exact absurd isValue (by decide)
    | other => exact absurd isValue (by decide)
  | value => rfl
  | listed => rfl

/-- A node has a capital when the first of its names starts with one. -/
theorem hasCapital_iff_startsWithCapital {node : Node} :
    HasCapital source node
      ↔ ∃ child, node.childAt? "name" = some child ∧ StartsWithCapital (child.text source) := by
  -- Both say the same of the first name, in another order.
  simp only [childAt?_eq_some_iff]
  constructor
  · intro capital
    obtain ⟨child, letter, rest, found, text, bounds⟩ := capital
    exact ⟨child, found, letter, rest, text, bounds⟩
  · intro named
    obtain ⟨child, found, letter, rest, text, bounds⟩ := named
    exact ⟨child, letter, rest, found, text, bounds⟩

/-- The text in a role is that of the child that is found there. -/
theorem fieldText_of_childAt? {node child : Node} {field : String}
    (found : node.childAt? field = some child) :
    node.fieldText field source = child.text source := by
  simp only [Node.fieldText, found]

variable {root : Node} {kind : Kind}

/-- What is shown as a constant or a variable is exported and comes first in some specification. -/
theorem leads_of_shows (isValue : kind ∈ valueKinds)
    (shown : Shows (topLevel goRule source root) kind name) :
    StartsWithCapital name ∧ Leads source root kind name := by
  -- Every symbol comes from a place of the tree, and from an exported one at that.
  obtain ⟨symbol, member, isKind, isName⟩ := shown
  rw [topLevel_goRule_eq, List.mem_flatMap] at member
  obtain ⟨place, among, given⟩ := member
  by_cases exported : IsExported source place
  · obtain ⟨actual, documented, holds, single⟩ := goSymbols_of_isExported source exported
    rw [single, List.mem_singleton] at given
    subst given
    subst isKind
    -- The symbol is the one of this place, so its name is the first that the node has.
    obtain ⟨child, found, capital⟩ := hasCapital_iff_startsWithCapital.mp exported.1
    have text : child.text source = name :=
      (fieldText_of_childAt? found).symm.trans (String.ofList_injective isName)
    have bare : documented = none := holds.documented_eq_none isValue
    exact ⟨text ▸ capital, place, among, bare ▸ holds, child, found, text⟩
  · rw [goSymbols_of_not_isExported source exported] at given
    cases given

/-- What comes first in some specification is shown, if it is exported. -/
theorem shows_of_leads (capital : StartsWithCapital name) (leads : Leads source root kind name) :
    Shows (topLevel goRule source root) kind name := by
  obtain ⟨place, among, holds, child, found, text⟩ := leads
  -- The rules look a specification up by its first name, so this one decides for all of it.
  have isCapital : HasCapital source place.node :=
    hasCapital_iff_startsWithCapital.mpr ⟨child, found, text ▸ capital⟩
  have shown : goSymbols source place
      = [declare kind (place.node.fieldText "name" source) none place.node source] := by
    simp only [goSymbols, goDeclaration_iff.mp holds, capitalized,
      if_pos (hasCapital_iff.mp isCapital)]
    rfl
  refine ⟨declare kind (place.node.fieldText "name" source) none place.node source, ?_, rfl, ?_⟩
  · rw [topLevel_goRule_eq, List.mem_flatMap]
    exact ⟨place, among, shown ▸ List.mem_singleton_self _⟩
  · rw [declare, fieldText_of_childAt? found, text]

end Names

end Surface.Rules

namespace Surface

open Rules

/--
A constant or a variable is shown if and only if it is exported and comes first in a specification.

So nothing that is exported is lost in a file if and only if every exported name that is listed
there comes first in some specification.
-/
theorem Language.go_values_shown_iff (parsing : Parsing) (source : Bytes) (root : Node) :
    (∀ kind ∈ valueKinds, ∀ name, Shows (Language.go.symbols parsing source root) kind name
      ↔ StartsWithCapital name ∧ Leads source root kind name)
    ∧ ((∀ name, Lists source root name → StartsWithCapital name →
          ∃ kind ∈ valueKinds, Shows (Language.go.symbols parsing source root) kind name)
        ↔ ∀ name, Lists source root name → StartsWithCapital name →
          ∃ kind ∈ valueKinds, Leads source root kind name) := by
  have each : ∀ kind ∈ valueKinds, ∀ name,
      Shows (Language.go.symbols parsing source root) kind name
        ↔ StartsWithCapital name ∧ Leads source root kind name := by
    intro kind isValue name
    exact ⟨leads_of_shows isValue, fun both => shows_of_leads both.1 both.2⟩
  -- For names that are exported, to be shown and to come first is then the same.
  refine ⟨each, ?_, ?_⟩
  · intro complete name listed capital
    obtain ⟨kind, isValue, shown⟩ := complete name listed capital
    exact ⟨kind, isValue, ((each kind isValue name).mp shown).2⟩
  · intro leading name listed capital
    obtain ⟨kind, isValue, leads⟩ := leading name listed capital
    exact ⟨kind, isValue, (each kind isValue name).mpr ⟨capital, leads⟩⟩

/-- The text `package p⏎var a, B int⏎`. -/
def pairSource : Bytes :=
  Utf8.encode "package p\nvar a, B int\n".toList

/-- The second name in it. -/
def pairSecond : Node :=
  ⟨"identifier", some "name", 17, 18, 1, []⟩

/-- The specification, which lists both names. -/
def pairSpec : Node :=
  ⟨"var_spec", none, 14, 22, 1,
    [⟨"identifier", some "name", 14, 15, 1, []⟩, ⟨",", none, 15, 16, 1, []⟩, pairSecond,
      ⟨"type_identifier", some "type", 19, 22, 1, []⟩]⟩

/-- The declaration around the specification. -/
def pairDeclaration : Node :=
  ⟨"var_declaration", none, 10, 22, 1, [⟨"var", none, 10, 13, 1, []⟩, pairSpec]⟩

/-- The tree of that text. -/
def pairRoot : Node :=
  ⟨"source_file", none, 0, 23, 0,
    [⟨"package_clause", none, 0, 9, 0,
        [⟨"package", none, 0, 7, 0, []⟩, ⟨"package_identifier", none, 8, 9, 0, []⟩]⟩,
      pairDeclaration]⟩

/-- Parsing of every text to that tree. -/
def pairParsing : Parsing := fun _ _ => ⟨pairRoot, false⟩

/-- The second of two names is lost, although it is exported and the first one is not. -/
theorem Language.exists_listed_not_shown :
    Lists pairSource pairRoot ['B'] ∧ StartsWithCapital ['B']
      ∧ ∀ kind ∈ valueKinds,
        ¬ Shows (Language.go.symbols pairParsing pairSource pairRoot) kind ['B'] := by
  refine ⟨?_, ⟨'B', [], rfl, by decide, by decide⟩, ?_⟩
  · -- The specification is at the seventh place of the walk.
    let place : Cursor := (pairRoot.places []).get ⟨6, by decide⟩
    have spec : GoSpec place := .own rfl (.variables rfl rfl) (by decide)
    have among : pairSecond ∈ place.node.children := by
      show pairSecond ∈ pairSpec.children
      simp [pairSpec]
    exact ⟨place, List.get_mem _ _, spec, pairSecond, among, rfl, rfl, by decide⟩
  · -- The first name is not exported, and nothing asks for the second.
    have nothing : Language.go.symbols pairParsing pairSource pairRoot = [] := by decide
    intro kind _ shown
    obtain ⟨symbol, member, _⟩ := shown
    rw [nothing] at member
    cases member

end Surface
