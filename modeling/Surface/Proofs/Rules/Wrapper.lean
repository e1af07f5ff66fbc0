import Mathlib.Data.List.Forall2
import Surface.Proofs.Rules.Locality
import Surface.Proofs.Names

/-!
Wrappers: nodes that stand around declarations without being any themselves.
What a wrapper holds is read as if it stood in the place of the wrapper.
-/

namespace Surface

namespace Node

/-- Siblings with every wrapper among them replaced by its children. -/
def unwrap (wrapper : String) (siblings : List Node) : List Node :=
  siblings.flatMap fun node => if node.kind = wrapper then node.children else [node]

/-- Siblings among which no wrapper stands right inside of another. -/
def Flat (wrapper : String) (siblings : List Node) : Prop :=
  ∀ node ∈ siblings, node.kind = wrapper → ∀ child ∈ node.children, child.kind ≠ wrapper

variable {wrapper : String} {siblings : List Node}

/-- Without wrappers in wrappers, none is left once they are replaced. -/
theorem kind_ne_of_mem_unwrap (flat : Flat wrapper siblings) {node : Node}
    (member : node ∈ unwrap wrapper siblings) : node.kind ≠ wrapper := by
  -- The node was inside of a wrapper, or it has been there all along.
  obtain ⟨sibling, among, within⟩ := List.mem_flatMap.mp member
  split at within
  · rename_i wraps
    exact flat sibling among wraps node within
  · rename_i plain
    rw [List.mem_singleton] at within
    exact within ▸ plain

/-- Where there is no wrapper, nothing is replaced. -/
theorem unwrap_of_forall_ne (plain : ∀ node ∈ siblings, node.kind ≠ wrapper) :
    unwrap wrapper siblings = siblings := by
  -- Each node is replaced by itself.
  have each : ∀ node ∈ siblings,
      (if node.kind = wrapper then node.children else [node]) = [node] :=
    fun node among => if_neg (plain node among)
  rw [unwrap, List.flatMap_congr each, List.flatMap_singleton']

/-- Replacing the wrappers once is enough. -/
theorem unwrap_unwrap (flat : Flat wrapper siblings) :
    unwrap wrapper (unwrap wrapper siblings) = unwrap wrapper siblings :=
  unwrap_of_forall_ne fun _ member => kind_ne_of_mem_unwrap flat member

end Node

namespace Rules

/-- A rule that reads each child of a wrapper as it reads any node outside of one. -/
def SeesThrough (rule : TopRule) (wrapper : String) (inner : Bytes → Node → List Symbol) : Prop :=
  ∀ source before node, rule source before node
    = if node.kind == wrapper then node.children.flatMap (inner source) else inner source node

/-- Scripts are read through the statement that exports a declaration. -/
theorem scriptRule_seesThrough : SeesThrough scriptRule "export_statement" scriptDeclaration :=
  fun _ _ _ => rfl

/-- Python modules are read through the decorators of a definition. -/
theorem pythonRule_seesThrough : SeesThrough pythonRule "decorated_definition" pythonDefinition :=
  fun _ _ _ => rfl

section SeesThrough

variable {rule : TopRule} {wrapper : String} {inner : Bytes → Node → List Symbol}

/-- What stands before a node is not seen. -/
theorem SeesThrough.unaware (through : SeesThrough rule wrapper inner) : Unaware rule :=
  fun source before node => (through source before node).trans (through source none node).symm

/-- The symbols of a tree are those of the nodes right below its root, unwrapped. -/
theorem SeesThrough.topLevel_eq (through : SeesThrough rule wrapper inner) (source : Bytes)
    (root : Node) :
    topLevel rule source root = (Node.unwrap wrapper root.children).flatMap (inner source) := by
  rw [through.unaware.topLevel_eq source root, Node.unwrap, List.flatMap_assoc]
  apply List.flatMap_congr
  intro node _
  -- A wrapper gives what its children give, and any other node what it gives itself.
  rw [through source none node]
  by_cases wraps : node.kind = wrapper
  · simp [wraps]
  · simp [wraps]

end SeesThrough

/-- The kinds of statements that declare variables, any number of them each. -/
def variableStatements : List String :=
  ["lexical_declaration", "variable_declaration"]

/-- The kinds of declarations that declare one thing each. -/
def singleDeclarations : List String :=
  ["function_declaration", "class_declaration", "interface_declaration", "type_alias_declaration",
    "enum_declaration"]

/-- The variables that a node declares, if it is a statement that declares variables. -/
def declarators (node : Node) : List Node :=
  if node.kind ∈ variableStatements then
    node.children.filter (·.kind = "variable_declarator")
  else []

/-- The nodes that carry the names a node declares, each behind that node. -/
def nameCarriers (node : Node) : List (Node × Node) :=
  if node.kind ∈ singleDeclarations then [(node, node)] else (declarators node).map (node, ·)

/-- What a node declares: variables are constants, and anything else is what the table says. -/
def ScriptKind (node : Node) (kind : Kind) : Prop :=
  (node.kind, kind) ∈ scriptDeclarations ∨ node.kind ∈ variableStatements ∧ kind = .constant

/-- A symbol with the signature and the line of one node, and the name that another one carries. -/
def ScriptSymbol (source : Bytes) : Node × Node → Symbol → Prop
  | (statement, carrier), symbol => ∃ kind, ScriptKind statement kind
    ∧ symbol = declare kind (carrier.fieldText "name" source) none statement source

section Script

variable {source : Bytes} {node : Node}

/-- The table lists the declarations that declare one thing. -/
theorem mem_singleDeclarations_iff {name : String} :
    name ∈ singleDeclarations ↔ ∃ kind, (name, kind) ∈ scriptDeclarations := by
  -- Both list the same kinds of nodes, in the same order.
  have keys : singleDeclarations = scriptDeclarations.map Prod.fst := rfl
  simp [keys]

/-- A declaration of one thing is no statement that declares variables. -/
theorem not_mem_variableStatements (single : node.kind ∈ singleDeclarations) :
    node.kind ∉ variableStatements := by
  have apart : ∀ name ∈ singleDeclarations, name ∉ variableStatements := by decide
  exact apart node.kind single

/-- A node of another kind than those declares no single name. -/
theorem lookup_eq_none (several : node.kind ∉ singleDeclarations) :
    scriptDeclarations.lookup node.kind = none := by
  cases found : scriptDeclarations.lookup node.kind with
  | none => rfl
  | some kind => exact absurd (mem_singleDeclarations_iff.mpr ⟨kind, mem_of_lookup found⟩) several

/-! What a node declares, by its sort. -/

/-- A node that declares a single name gives one symbol. -/
theorem scriptDeclaration_single {kind : Kind} (member : (node.kind, kind) ∈ scriptDeclarations) :
    scriptDeclaration source node
      = [declare kind (node.fieldText "name" source) none node source] := by
  have distinct : (scriptDeclarations.map Prod.fst).Nodup := by decide
  rw [scriptDeclaration, lookup_of_mem distinct member]

/-- Any other node gives one symbol for each variable that it declares. -/
theorem scriptDeclaration_several (several : node.kind ∉ singleDeclarations) :
    scriptDeclaration source node = (declarators node).map fun declarator =>
      declare .constant (declarator.fieldText "name" source) none node source := by
  rw [scriptDeclaration, lookup_eq_none several, declarators]
  -- What is no statement that declares variables gives nothing on both sides.
  by_cases isStatement : node.kind ∈ variableStatements
  · have either := isStatement
    simp only [variableStatements, List.mem_pair] at either
    simp [isStatement, either, beq_eq_decide]
  · have neither := isStatement
    simp only [variableStatements, List.mem_pair] at neither
    simp [isStatement, neither]

/-- A node gives one symbol for each name that it declares, with its own signature and line. -/
theorem scriptDeclaration_forall₂ :
    List.Forall₂ (ScriptSymbol source) (nameCarriers node) (scriptDeclaration source node) := by
  by_cases single : node.kind ∈ singleDeclarations
  · obtain ⟨kind, member⟩ := mem_singleDeclarations_iff.mp single
    rw [nameCarriers, if_pos single, scriptDeclaration_single member]
    exact .cons ⟨kind, .inl member, rfl⟩ .nil
  · rw [nameCarriers, if_neg single, scriptDeclaration_several single, List.forall₂_map_left_iff,
      List.forall₂_map_right_iff, List.forall₂_same]
    -- The node has variables, so it is a statement that declares them.
    intro declarator among
    have isStatement : node.kind ∈ variableStatements := by
      by_contra other
      rw [declarators, if_neg other] at among
      cases among
    exact ⟨.constant, .inr ⟨isStatement, rfl⟩, rfl⟩

/-- The names of a node are its variables, and its own name where it declares one thing. -/
theorem length_nameCarriers :
    (nameCarriers node).length
      = (declarators node).length + if node.kind ∈ singleDeclarations then 1 else 0 := by
  -- A node is of one sort only, so that one of the two numbers is zero.
  by_cases single : node.kind ∈ singleDeclarations
  · simp [nameCarriers, declarators, single, not_mem_variableStatements single]
  · simp [nameCarriers, single]

/-- So are the names of several nodes together. -/
theorem length_flatMap_nameCarriers (nodes : List Node) :
    (nodes.flatMap nameCarriers).length
      = (nodes.flatMap declarators).length
        + (nodes.filter (·.kind ∈ singleDeclarations)).length := by
  -- Node by node, each adds the names that it declares.
  induction nodes with
  | nil => rfl
  | cons node nodes ih =>
    rw [List.flatMap_cons, List.flatMap_cons, List.length_append, List.length_append, ih,
      length_nameCarriers, List.filter_cons]
    by_cases single : node.kind ∈ singleDeclarations
    · simp only [single, decide_true, if_true, List.length_cons]
      omega
    · simp only [single, decide_false, Bool.false_eq_true, if_false]
      omega

/-- Several nodes give one symbol for each name that they declare, in order. -/
theorem flatMap_scriptDeclaration_forall₂ (source : Bytes) (nodes : List Node) :
    List.Forall₂ (ScriptSymbol source) (nodes.flatMap nameCarriers)
      (nodes.flatMap (scriptDeclaration source)) := by
  -- Node by node, names and symbols are put behind those that came before.
  induction nodes with
  | nil => exact .nil
  | cons node nodes ih =>
    rw [List.flatMap_cons, List.flatMap_cons]
    exact List.rel_append scriptDeclaration_forall₂ ih

end Script

end Rules

namespace Language

/-- The languages of scripts, which share their rules. -/
def scripts : List Language :=
  [.javascript, .typescript, .tsx]

/-- The kind of nodes that wrap declarations, in the languages that have one. -/
def wrapper? : Language → Option String
  | .javascript | .typescript | .tsx => some "export_statement"
  | .python => some "decorated_definition"
  | _ => none

section Wrapper

variable {language : Language} {wrapper : String} (wraps : language.wrapper? = some wrapper)

include wraps

/-- A language with wrappers has a rule that sees through them. -/
theorem exists_seesThrough : ∃ rule inner, language.topRule? = some rule
    ∧ Rules.SeesThrough rule wrapper inner := by
  -- Scripts have one wrapper and Python another, and no other language has any.
  cases language with
  | javascript | typescript | tsx =>
    cases wraps
    exact ⟨Rules.scriptRule, _, rfl, Rules.scriptRule_seesThrough⟩
  | python =>
    cases wraps
    exact ⟨Rules.pythonRule, _, rfl, Rules.pythonRule_seesThrough⟩
  | _ => cases wraps

/-- Replacing wrappers by what they hold changes no symbol. -/
theorem symbols_withChildren_unwrap (parsing : Parsing) (source : Bytes) {root : Node}
    (flat : Node.Flat wrapper root.children) :
    language.symbols parsing source (root.withChildren (Node.unwrap wrapper root.children))
      = language.symbols parsing source root := by
  obtain ⟨rule, inner, known, through⟩ := exists_seesThrough wraps
  -- Both trees are read unwrapped, and unwrapping a second time finds nothing to do.
  rw [symbols_eq_topLevel known, symbols_eq_topLevel known, through.topLevel_eq,
    through.topLevel_eq, Node.withChildren, Node.unwrap_unwrap flat]

/-- The symbols of a script are those of the declarations right below the root, unwrapped. -/
theorem symbols_eq_scriptDeclaration (isScript : language ∈ scripts) (parsing : Parsing)
    (source : Bytes) (root : Node) :
    language.symbols parsing source root
      = (Node.unwrap wrapper root.children).flatMap (Rules.scriptDeclaration source) := by
  -- The three languages of scripts share one rule.
  cases language with
  | javascript | typescript | tsx =>
    cases wraps
    exact Rules.scriptRule_seesThrough.topLevel_eq source root
  | _ => exact absurd isScript (by decide)

end Wrapper

/--
Wrappers are transparent: nothing changes when each is replaced by what it holds.

In a script, whatever is wrapped or not, there is one symbol for each variable of a statement and
for each other declaration, and all variables of a statement have its signature and its line.
-/
theorem symbols_unwrapped {language : Language} {wrapper : String}
    (wraps : language.wrapper? = some wrapper) (parsing : Parsing) (source : Bytes) (root : Node)
    (flat : Node.Flat wrapper root.children) :
    language.symbols parsing source (root.withChildren (Node.unwrap wrapper root.children))
        = language.symbols parsing source root
      ∧ (language ∈ scripts →
        (language.symbols parsing source root).length
            = ((Node.unwrap wrapper root.children).flatMap Rules.declarators).length
              + ((Node.unwrap wrapper root.children).filter
                (·.kind ∈ Rules.singleDeclarations)).length
          ∧ List.Forall₂ (Rules.ScriptSymbol source)
            ((Node.unwrap wrapper root.children).flatMap Rules.nameCarriers)
            (language.symbols parsing source root)) := by
  refine ⟨symbols_withChildren_unwrap wraps parsing source flat, ?_⟩
  intro isScript
  -- There are as many symbols as nodes that carry a name, since they belong together one by one.
  have each := Rules.flatMap_scriptDeclaration_forall₂ source (Node.unwrap wrapper root.children)
  rw [symbols_eq_scriptDeclaration wraps isScript]
  exact ⟨by rw [← each.length_eq, Rules.length_flatMap_nameCarriers], each⟩

end Language

/-- The text `export let a, b⏎enum C`. -/
def exportSource : Bytes :=
  Utf8.encode "export let a, b\nenum C".toList

/-- The statement that is exported in it, with two variables. -/
def exportedStatement : Node :=
  ⟨"lexical_declaration", some "declaration", 7, 15, 0,
    [⟨"let", some "kind", 7, 10, 0, []⟩,
      ⟨"variable_declarator", none, 11, 12, 0, [⟨"identifier", some "name", 11, 12, 0, []⟩]⟩,
      ⟨",", none, 12, 13, 0, []⟩,
      ⟨"variable_declarator", none, 14, 15, 0, [⟨"identifier", some "name", 14, 15, 0, []⟩]⟩]⟩

/-- The tree of that text. -/
def exportRoot : Node :=
  ⟨"program", none, 0, 22, 0,
    [⟨"export_statement", none, 0, 15, 0, [⟨"export", none, 0, 6, 0, []⟩, exportedStatement]⟩,
      ⟨"enum_declaration", none, 16, 22, 1,
        [⟨"enum", none, 16, 20, 1, []⟩, ⟨"identifier", some "name", 21, 22, 1, []⟩]⟩]⟩

/-- Parsing of every text to that tree. -/
def exportParsing : Parsing := fun _ _ => ⟨exportRoot, false⟩

/-- Two variables that are exported together share a line, with the wrapper as without it. -/
theorem Language.symbols_unwrapped_export :
    Node.Flat "export_statement" exportRoot.children
      ∧ Language.typescript.symbols exportParsing exportSource
          (exportRoot.withChildren (Node.unwrap "export_statement" exportRoot.children))
        = [⟨.constant, "a", "let a, b", none, 1⟩, ⟨.constant, "b", "let a, b", none, 1⟩,
          ⟨.enumType, "C", "enum C", none, 2⟩]
      ∧ (Language.typescript.symbols exportParsing exportSource exportRoot).length = 2 + 1 := by
  -- An export has no other export right below it here.
  have wraps : Language.typescript.wrapper? = some "export_statement" := rfl
  have flat : Node.Flat "export_statement" exportRoot.children := by
    unfold Node.Flat
    decide
  obtain ⟨same, counted⟩ := symbols_unwrapped wraps exportParsing exportSource exportRoot flat
  refine ⟨flat, ?_, ?_⟩
  · rw [same]
    decide
  · rw [(counted (by decide)).1]
    decide

end Surface
