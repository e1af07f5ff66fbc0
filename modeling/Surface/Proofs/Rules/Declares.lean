import Surface.Proofs.Text.Blank
import Surface.Proofs.Tree.Walk
import Surface.Rules.Language

/-! What the rules make of a tree: symbols that declare its nodes, in the order of the nodes. -/

namespace Surface.Rules

/--
Symbols that declare nodes of a list, in the order of the list.

A node may be declared once, several times or not at all.
The documentation of a symbol, where it has any, is of a given sort.
-/
inductive Declares (sort : List Char → Prop) (source : Bytes) : List Node → List Symbol → Prop where
  | done (nodes : List Node) : Declares sort source nodes []
  | skip (node : Node) {nodes : List Node} {symbols : List Symbol} :
    Declares sort source nodes symbols → Declares sort source (node :: nodes) symbols
  | here (kind : Kind) (name : List Char) {doc : Option (List Char)} {node : Node}
    {nodes : List Node} {symbols : List Symbol} :
    (∀ text ∈ doc, sort text) → Declares sort source (node :: nodes) symbols →
      Declares sort source (node :: nodes) (declare kind name doc node source :: symbols)

namespace Declares

variable {sort : List Char → Prop} {source : Bytes}

/-- A symbol among them declares a node among them. -/
theorem exists_of_mem {nodes : List Node} {symbols : List Symbol}
    (declares : Declares sort source nodes symbols) {symbol : Symbol} (member : symbol ∈ symbols) :
    ∃ node ∈ nodes, ∃ kind name doc, (∀ text ∈ doc, sort text)
      ∧ symbol = declare kind name doc node source := by
  -- The nodes that were passed over stay in front of the one that is found.
  induction declares with
  | done nodes => simp at member
  | skip node _ ih =>
    obtain ⟨found, among, rest⟩ := ih member
    exact ⟨found, List.mem_cons_of_mem _ among, rest⟩
  | @here kind name doc node nodes symbols sorted _ ih =>
    rcases List.mem_cons.mp member with same | later
    · exact ⟨node, List.mem_cons_self, kind, name, doc, sorted, same⟩
    · exact ih later

/-- Where no documentation is of the sort, a symbol among them has none. -/
theorem exists_of_mem_undocumented {nodes : List Node} {symbols : List Symbol}
    (declares : Declares (fun _ => False) source nodes symbols) {symbol : Symbol}
    (member : symbol ∈ symbols) :
    ∃ node ∈ nodes, ∃ kind name, symbol = declare kind name none node source := by
  -- Any documentation would have to be of a sort that there is none of.
  obtain ⟨node, among, kind, name, doc, sorted, same⟩ := declares.exists_of_mem member
  have absent : doc = none := Option.eq_none_iff_forall_not_mem.mpr sorted
  subst absent
  exact ⟨node, among, kind, name, same⟩

/-- Symbols without documentation have none that is not of the sort. -/
theorem of_undocumented {nodes : List Node} {symbols : List Symbol}
    (declares : Declares (fun _ => False) source nodes symbols) :
    Declares sort source nodes symbols := by
  -- Symbol by symbol, there is no documentation to ask about.
  induction declares with
  | done nodes => exact .done nodes
  | skip node _ ih => exact .skip node ih
  | here kind name none _ ih =>
    exact .here kind name (fun text member => (none text member).elim) ih

/-- More nodes may stand in front of those that are declared. -/
theorem prepend_nodes (earlier : List Node) {nodes : List Node} {symbols : List Symbol}
    (declares : Declares sort source nodes symbols) :
    Declares sort source (earlier ++ nodes) symbols := by
  induction earlier with
  | nil => exact declares
  | cons node earlier ih => exact .skip node ih

/-- What is declared of later nodes comes after what is declared of earlier ones. -/
theorem append {front back : List Node} {first second : List Symbol}
    (declared : Declares sort source front first) (later : Declares sort source back second) :
    Declares sort source (front ++ back) (first ++ second) := by
  -- The front part may leave nodes undeclared at its end, and these are passed over.
  induction declared with
  | done nodes => exact later.prepend_nodes nodes
  | skip node _ ih => exact .skip node ih
  | here kind name sorted _ ih => exact .here kind name sorted ih

/-- Item by item, each with nodes and symbols of its own. -/
theorem flatMap {α : Type} {items : List α} {nodes : α → List Node} {symbols : α → List Symbol}
    (each : ∀ item ∈ items, Declares sort source (nodes item) (symbols item)) :
    Declares sort source (items.flatMap nodes) (items.flatMap symbols) := by
  -- Item by item, nodes and symbols are put behind those that came before.
  induction items with
  | nil => exact .done []
  | cons item items ih =>
    rw [List.flatMap_cons, List.flatMap_cons]
    exact (each item (by simp)).append (ih fun other member => each other (by simp [member]))

/-- A node with one symbol. -/
theorem self (kind : Kind) (name : List Char) {doc : Option (List Char)}
    (sorted : ∀ text ∈ doc, sort text) (node : Node) :
    Declares sort source node.nodes [declare kind name doc node source] := by
  rw [Node.nodes_eq]
  exact .here kind name sorted (.done _)

/-- A node with a symbol for each of several names, none of them documented. -/
theorem names {α : Type} (kind : Kind) (name : α → List Char) (items : List α) (node : Node) :
    Declares sort source node.nodes
      (items.map fun item => declare kind (name item) none node source) := by
  -- One node is declared again and again before the list of nodes moves on.
  rw [Node.nodes_eq]
  induction items with
  | nil => exact .done _
  | cons item items ih => exact .here kind (name item) (by simp) ih

/-- A node whose symbols are those of its children. -/
theorem children {node : Node} {symbols : Node → List Symbol}
    (each : ∀ child ∈ node.children, Declares sort source child.nodes (symbols child)) :
    Declares sort source node.nodes (node.children.flatMap symbols) := by
  rw [Node.nodes_eq]
  exact .skip node (flatMap each)

/-- Symbols that hang on a condition. -/
theorem ite {condition : Prop} [Decidable condition] {nodes : List Node}
    {first second : List Symbol} (positive : Declares sort source nodes first)
    (negative : Declares sort source nodes second) :
    Declares sort source nodes (if condition then first else second) := by
  split
  · exact positive
  · exact negative

end Declares

section Documentation

variable (source : Bytes)

/-- The comment in front of a declaration is trimmed. -/
theorem isTrimmed_commentBefore (before : Option Node) :
    ∀ text ∈ commentBefore source before, Text.IsTrimmed text := by
  -- Only a comment is taken, and it is trimmed when it is.
  intro text member
  cases before with
  | none => simp [commentBefore] at member
  | some node =>
    simp only [commentBefore] at member
    split at member
    · cases member
      exact Text.isTrimmed_trim _
    · cases member

/-- The documentation in a statement is trimmed. -/
theorem isTrimmed_statementDoc (statement : Node) :
    ∀ text ∈ statementDoc statement source, Text.IsTrimmed text := by
  intro text member
  -- Only a string right in the statement is documentation, and it is trimmed last.
  unfold statementDoc at member
  repeat' split at member
  all_goals cases member
  exact Text.isTrimmed_trim _

/-- The documentation in the body of a definition is trimmed. -/
theorem isTrimmed_pythonDoc (node : Node) :
    ∀ text ∈ pythonDoc node source, Text.IsTrimmed text := by
  -- Only a statement that is a literal is taken.
  intro text member
  unfold pythonDoc at member
  split at member
  · cases member
  · split at member
    · exact isTrimmed_statementDoc source _ text member
    · cases member

/-- The documentation in the block of a function is trimmed, as a statement or on its own. -/
theorem isTrimmed_mojoDoc (node : Node) : ∀ text ∈ mojoDoc node source, Text.IsTrimmed text := by
  intro text member
  unfold mojoDoc at member
  split at member
  · cases member
  · -- A string on its own is trimmed here, and one in a statement is trimmed there.
    split at member
    · cases member
      exact Text.isTrimmed_trim _
    · exact isTrimmed_statementDoc source _ text member
    · cases member

end Documentation

section Rules

variable (source : Bytes) (before : Option Node) (node : Node)

/-- A name that is public or not makes one symbol or none. -/
theorem capitalized_declares (kind : Kind) {doc : Option (List Char)}
    (trimmed : ∀ text ∈ doc, Text.IsTrimmed text) :
    Declares Text.IsTrimmed source node.nodes (capitalized kind doc node source) :=
  .ite (.self kind _ trimmed node) (.done _)

/-- The types of a Go declaration declare nodes right below it. -/
theorem goTypes_declares {doc : Option (List Char)}
    (trimmed : ∀ text ∈ doc, Text.IsTrimmed text) :
    Declares Text.IsTrimmed source node.nodes (goTypes source doc node) :=
  .children fun spec _ => .ite (capitalized_declares source spec _ trimmed) (.done _)

/-- The values of a Go declaration declare nodes right below it or in a list there. -/
theorem goValues_declares (kind : Kind) :
    Declares Text.IsTrimmed source node.nodes (goValues source kind node) := by
  -- A list of values is one level deeper than a value on its own.
  have spec_declares : ∀ spec : Node, Declares Text.IsTrimmed source spec.nodes
      (capitalized kind none spec source) :=
    fun spec => capitalized_declares source spec kind (by simp)
  refine .children fun child _ => .ite (spec_declares child) (.ite ?_ (.done _))
  exact .children fun spec _ => .ite (spec_declares spec) (.done _)

/-- The Go rule declares nodes in order. -/
theorem goRule_declares :
    Declares Text.IsTrimmed source node.nodes (goRule source before node) := by
  have trimmed := isTrimmed_commentBefore source before
  unfold goRule
  -- Functions and methods come first, then groups of types, constants and variables.
  split
  · exact capitalized_declares source node _ trimmed
  · exact capitalized_declares source node _ trimmed
  · exact goTypes_declares source node trimmed
  · exact goValues_declares source node _
  · exact goValues_declares source node _
  · exact .done _

/-- The Rust rule declares the node itself. -/
theorem rustRule_declares :
    Declares Text.IsTrimmed source node.nodes (rustRule source before node) := by
  refine .ite ?_ (.done _)
  split
  · rename_i kind documented _
    -- Some kinds of items take no documentation, even behind a comment.
    have trimmed : ∀ text ∈ if documented then commentBefore source before else none,
        Text.IsTrimmed text := by
      split
      · exact isTrimmed_commentBefore source before
      · simp
    exact .self kind _ trimmed node
  · exact .done _

/-- The Gleam rule declares the node itself. -/
theorem gleamRule_declares :
    Declares Text.IsTrimmed source node.nodes (gleamRule source before node) := by
  have trimmed := isTrimmed_commentBefore source before
  refine .ite ?_ (.done _)
  split
  · exact .self _ _ trimmed node
  · exact .self _ _ trimmed node
  · -- Constants are shown without the comment in front of them.
    exact .self _ _ (by simp) node
  · exact .done _

/-- The Zig rule declares the node itself, without documentation. -/
theorem zigRule_declares :
    Declares (fun _ => False) source node.nodes (zigRule source before node) := by
  -- Neither the kind nor the mark of a declaration gives it a symbol by itself.
  exact .ite (.ite (.self _ _ (by simp) node) (.done _)) (.done _)

/-- A definition of Python declares the node itself. -/
theorem pythonDefinition_declares :
    Declares Text.IsTrimmed source node.nodes (pythonDefinition source node) := by
  have trimmed := isTrimmed_pythonDoc source node
  unfold pythonDefinition
  dsimp only
  -- Functions and classes alike are left out if their names are private.
  split
  · exact .ite (.done _) (.self _ _ trimmed node)
  · exact .ite (.done _) (.self _ _ trimmed node)
  · exact .done _

/-- The Python rule declares the node itself or nodes right below it. -/
theorem pythonRule_declares :
    Declares Text.IsTrimmed source node.nodes (pythonRule source before node) :=
  .ite (.children fun child _ => pythonDefinition_declares source child)
    (pythonDefinition_declares source node)

/-- The Mojo rule declares the node itself. -/
theorem mojoRule_declares :
    Declares Text.IsTrimmed source node.nodes (mojoRule source before node) := by
  unfold mojoRule
  dsimp only
  -- Only functions and classes can be private, and only they are documented.
  split
  · exact .ite (.done _) (.self _ _ (isTrimmed_mojoDoc source node) node)
  · exact .ite (.done _) (.self _ _ (by simp) node)
  · exact .self _ _ (by simp) node
  · exact .done _

/-- A declaration of a script declares the node itself, as often as it has names. -/
theorem scriptDeclaration_declares :
    Declares (fun _ => False) source node.nodes (scriptDeclaration source node) := by
  -- A node declares one name, or one for each variable in it.
  unfold scriptDeclaration
  split
  · exact .self _ _ (by simp) node
  · exact .ite (.names _ _ _ node) (.done _)

/-- The rule of scripts declares the node itself or nodes right below it, without documentation. -/
theorem scriptRule_declares :
    Declares (fun _ => False) source node.nodes (scriptRule source before node) :=
  .ite (.children fun child _ => scriptDeclaration_declares source child)
    (scriptDeclaration_declares source node)

end Rules

/-- The siblings that come with the ones before them are the siblings themselves. -/
theorem withPrevious_map_snd (before : Option Node) (siblings : List Node) :
    (Node.withPrevious before siblings).map (·.2) = siblings := by
  induction siblings generalizing before with
  | nil => rfl
  | cons node siblings ih => simp [Node.withPrevious, ih]

/-- A rule that declares the nodes of each tree right below the root does so for the whole tree. -/
theorem topLevel_declares {sort : List Char → Prop} {rule : TopRule} {source : Bytes}
    (each : ∀ before node, Declares sort source node.nodes (rule source before node))
    (root : Node) : Declares sort source root.nodes (topLevel rule source root) := by
  -- The sibling before a node matters to the rule, but is no node of its tree.
  have below : root.children.flatMap Node.nodes
      = (Node.withPrevious none root.children).flatMap fun pair => pair.2.nodes := by
    conv_lhs => rw [← withPrevious_map_snd none root.children, List.flatMap_map]
  rw [Node.nodes_eq, below]
  exact .skip root (.flatMap fun pair _ => each pair.1 pair.2)

/-- The symbol of a place in an Elixir file declares the node there. -/
theorem elixirSymbol_declares (source : Bytes) (place : Cursor) :
    Declares Text.IsTrimmed source [place.node] (elixirSymbol source place).toList := by
  have trimmed := isTrimmed_commentBefore source place.previous?
  unfold elixirSymbol
  -- A call with a target and arguments declares something if it is a known one.
  split
  · split
    · exact .done _
    · rename_i target arguments _
      dsimp only
      cases definedKind? (target.text source) with
      | none => exact .done _
      | some kind => exact .here kind _ trimmed (.done _)
  · exact .done _

/-- The Elixir rules declare nodes of the whole tree, in the order of the walk. -/
theorem elixirSymbols_declares (source : Bytes) (root : Node) :
    Declares Text.IsTrimmed source root.nodes (elixirSymbols source root) := by
  -- Each place of the walk stands for one node, whose children are places of their own.
  have visited : root.nodes = root.walk.flatMap fun place => [place.node] := by
    rw [← Node.walk_map_node, List.map_eq_flatMap]
  have gathered : elixirSymbols source root
      = root.walk.flatMap fun place => (elixirSymbol source place).toList := by
    rw [elixirSymbols, List.filterMap_eq_flatMap_toList]
  rw [visited, gathered]
  exact .flatMap fun place _ => elixirSymbol_declares source place

end Surface.Rules
