import Surface.Proofs.Tree.Cut
import Surface.Rules.Language

/-!
How deep the rules look: each of them sees a few levels below a node, so that what is nested deeper
in a file has no influence on its symbols.
-/

namespace Surface

namespace Rules

section Parts

variable (depth : Nat) (node : Node) (source : Bytes)

-- Each part of a rule looks a number of levels below a node, and nothing changes for it as long as
-- that many are left.

/-- What a node declares is taken from its own extent, not from what is below it. -/
@[simp] theorem declare_cut (kind : Kind) (name : List Char) (doc : Option (List Char)) :
    declare kind name doc (node.cut depth) source = declare kind name doc node source := by
  simp only [declare, Node.headline_cut, Node.row_cut]

/-- A comment is one by its kind, so none of its children matter. -/
@[simp] theorem isComment_cut : isComment (node.cut depth) = isComment node := by
  simp only [isComment, Node.kind_cut]

/-- The comment before a node is its text, whatever is below it. -/
@[simp] theorem commentBefore_cut (before : Option Node) :
    commentBefore source (before.map (Node.cut depth)) = commentBefore source before := by
  cases before with
  | none => rfl
  | some sibling => simp only [Option.map_some, commentBefore, isComment_cut, Node.text_cut]

/-- The text of a child is one level away. -/
@[simp] theorem childText_cut (kinds : List String) :
    childText (node.cut (depth + 1)) kinds source = childText node kinds source := by
  -- The same child is found, and its text is taken from the source.
  simp only [childText, Node.childOf?_cut]
  cases node.childOf? kinds with
  | none => rfl
  | some child => exact Node.text_cut depth child source

/-- The mark of a public item is a child of it. -/
@[simp] theorem isMarkedPublic_cut :
    isMarkedPublic (node.cut (depth + 1)) = isMarkedPublic node := by
  simp only [isMarkedPublic, Node.childOf?_cut, Option.isSome_map]

/-- A Zig name is the text of a child. -/
@[simp] theorem zigName_cut : zigName (node.cut (depth + 1)) source = zigName node source := by
  simp only [zigName, Node.fieldText_cut, childText_cut]

/-- The name of a Gleam type is two levels away. -/
@[simp] theorem gleamTypeName_cut :
    gleamTypeName (node.cut (depth + 2)) source = gleamTypeName node source := by
  -- The name is a node of its own, and the identifier lies below it.
  simp only [gleamTypeName, Node.childOf?_cut]
  cases node.childOf? ["type_name"] with
  | none => rfl
  | some name => exact childText_cut depth name source _

/-- What a Go type is shows in the kind of a child. -/
@[simp] theorem goTypeKind_cut : goTypeKind (node.cut (depth + 1)) = goTypeKind node := by
  -- Only the kind of the type's node matters, and that is not changed.
  simp only [goTypeKind, Node.childAt?_cut, Option.map_map, Function.comp_def, Node.kind_cut]

/-- Whether a name is capitalized shows in the text of a child. -/
@[simp] theorem capitalized_cut (kind : Kind) (doc : Option (List Char)) :
    capitalized kind doc (node.cut (depth + 1)) source = capitalized kind doc node source := by
  simp only [capitalized, Node.fieldText_cut, declare_cut]

/-- The types of a Go declaration are its children, and named by theirs. -/
@[simp] theorem goTypes_cut (doc : Option (List Char)) :
    goTypes source doc (node.cut (depth + 2)) = goTypes source doc node := by
  -- Each child is tested by its kind, and then one level below it is looked at.
  simp only [goTypes, Node.flatMap_children_cut, Node.kind_cut, goTypeKind_cut, capitalized_cut]

/-- The values of a Go declaration are named three levels below it. -/
@[simp] theorem goValues_cut (kind : Kind) :
    goValues source kind (node.cut (depth + 3)) = goValues source kind node := by
  -- A list of values is one more level between the declaration and the value.
  simp only [goValues, Node.flatMap_children_cut, Node.kind_cut, capitalized_cut]

/-- The names of a script declaration are two levels away at most. -/
@[simp] theorem scriptDeclaration_cut :
    scriptDeclaration source (node.cut (depth + 2)) = scriptDeclaration source node := by
  simp only [scriptDeclaration, Node.kind_cut, Node.fieldText_cut, declare_cut]
  -- The variables of a statement are found by kind and named by a child of their own.
  simp only [Node.children_cut, List.filter_map, List.map_map, Function.comp_def, Node.kind_cut,
    Node.fieldText_cut]

/-- A string literal is one by its kind. -/
@[simp] theorem isString_cut : isString (node.cut depth) = isString node := by
  simp only [isString, Node.kind_cut]

/-- The literal of a statement is the first child of it. -/
@[simp] theorem statementDoc_cut :
    statementDoc (node.cut (depth + 1)) source = statementDoc node source := by
  -- The literal is told by its kind, and its text is taken from the source.
  simp only [statementDoc, Node.head?_children_cut]
  cases node.children.head? with
  | none => rfl
  | some literal => simp only [Option.map_some, isString_cut, Node.text_cut]

/-- The docstring of a Python definition is three levels away. -/
@[simp] theorem pythonDoc_cut :
    pythonDoc (node.cut (depth + 3)) source = pythonDoc node source := by
  -- Body, statement and literal are three levels.
  simp only [pythonDoc, Node.childAt?_cut, Option.bind_map, Function.comp_def,
    Node.head?_children_cut]
  cases node.childAt? "body" with
  | none => rfl
  | some body =>
    cases first : body.children.head? with
    | none => simp only [Option.bind_some, first, Option.map_none]
    | some statement =>
      simp only [Option.bind_some, first, Option.map_some, Node.kind_cut, statementDoc_cut]

/-- A Python definition is shown by its name and its docstring. -/
@[simp] theorem pythonDefinition_cut :
    pythonDefinition source (node.cut (depth + 3)) = pythonDefinition source node := by
  simp only [pythonDefinition, Node.kind_cut, Node.fieldText_cut, declare_cut, pythonDoc_cut]

/-- A Mojo name is the text of a child. -/
@[simp] theorem mojoName_cut : mojoName (node.cut (depth + 1)) source = mojoName node source := by
  simp only [mojoName, Node.fieldText_cut, childText_cut]

/-- The docstring of a Mojo definition is three levels away at most. -/
@[simp] theorem mojoDoc_cut : mojoDoc (node.cut (depth + 3)) source = mojoDoc node source := by
  -- A literal on its own is one level higher than one in a statement.
  simp only [mojoDoc, Node.childOf?_cut, Option.bind_map, Function.comp_def,
    Node.head?_children_cut]
  cases node.childOf? ["block"] with
  | none => rfl
  | some block =>
    cases first : block.children.head? with
    | none => simp only [Option.bind_some, first, Option.map_none]
    | some statement =>
      simp only [Option.bind_some, first, Option.map_some, Node.kind_cut, Node.text_cut,
        statementDoc_cut]

/-- Whether a Mojo class is a struct or a trait shows in the kind of its first child. -/
@[simp] theorem mojoClassKind_cut : mojoClassKind (node.cut (depth + 1)) = mojoClassKind node := by
  simp only [mojoClassKind, Node.head?_children_cut, Option.map_map, Function.comp_def,
    Node.kind_cut]

end Parts

/-- A rule that sees no deeper below a node than a number of levels. -/
def Within (depth : Nat) (rule : TopRule) : Prop :=
  ∀ source before node,
    rule source (before.map (Node.cut depth)) (node.cut depth) = rule source before node

/-- A Rust item has its mark and its name right below it. -/
theorem rustRule_within : Within 1 rustRule := by
  intro source before node
  simp only [rustRule, isMarkedPublic_cut, Node.kind_cut, Node.fieldText_cut, commentBefore_cut,
    declare_cut]

/-- A Zig declaration is read from its text and from a child. -/
theorem zigRule_within : Within 1 zigRule := by
  intro source before node
  simp only [zigRule, Node.kind_cut, Node.text_cut, zigName_cut, declare_cut]

/-- A Gleam type has its name two levels below it. -/
theorem gleamRule_within : Within 2 gleamRule := by
  intro source before node
  simp only [gleamRule, isMarkedPublic_cut, Node.kind_cut, childText_cut, gleamTypeName_cut,
    commentBefore_cut, declare_cut]

/-- A Go value in a list has its name three levels below the declaration. -/
theorem goRule_within : Within 3 goRule := by
  intro source before node
  simp only [goRule, Node.kind_cut, commentBefore_cut, capitalized_cut, goTypes_cut, goValues_cut]

/-- An export is one level more around a script declaration. -/
theorem scriptRule_within : Within 3 scriptRule := by
  intro source before node
  simp only [scriptRule, Node.kind_cut, Node.flatMap_children_cut, scriptDeclaration_cut]

/-- A decorator is one level more around a Python definition. -/
theorem pythonRule_within : Within 4 pythonRule := by
  intro source before node
  simp only [pythonRule, Node.kind_cut, Node.flatMap_children_cut, pythonDefinition_cut]

/-- A Mojo definition has its docstring three levels below it. -/
theorem mojoRule_within : Within 3 mojoRule := by
  intro source before node
  simp only [mojoRule, Node.kind_cut, mojoName_cut, mojoDoc_cut, mojoClassKind_cut, declare_cut]

/-- Siblings that are cut come with the ones before them, cut as well. -/
theorem withPrevious_map_cut (depth : Nat) (before : Option Node) (siblings : List Node) :
    Node.withPrevious (before.map (Node.cut depth)) (siblings.map (Node.cut depth))
      = (Node.withPrevious before siblings).map fun (before, node) =>
        (before.map (Node.cut depth), node.cut depth) := by
  induction siblings generalizing before with
  | nil => rfl
  | cons node siblings ih => simp [Node.withPrevious, ← ih (some node)]

/-- One level is between the root and the nodes that a rule is applied to. -/
theorem Within.topLevel_cut {depth : Nat} {rule : TopRule} (within : Within depth rule)
    (source : Bytes) (root : Node) :
    topLevel rule source (root.cut (depth + 1)) = topLevel rule source root := by
  have siblings := withPrevious_map_cut depth none root.children
  rw [Option.map_none] at siblings
  simp only [topLevel, Node.children_cut, siblings, List.flatMap_map]
  -- Pair by pair, the rule does not see what was cut off.
  congr 1
  funext ⟨before, node⟩
  exact within source before node

end Rules

namespace Language

/-- How many levels below the root the rules of a language look, where there is a limit to it. -/
def reach? : Language → Option Nat
  | .rust | .zig => some 2
  | .gleam => some 3
  | .go | .javascript | .typescript | .tsx | .mojo => some 4
  | .python => some 5
  | _ => none

/-- Cutting a tree off below the reach of a language does not change its symbols. -/
theorem symbols_cut {language : Language} {depth : Nat} (known : language.reach? = some depth)
    (parsing : Parsing) (source : Bytes) (root : Node) :
    language.symbols parsing source (root.cut depth) = language.symbols parsing source root := by
  -- One level goes to the root, and the others to the rule of the language.
  cases language with
  | rust => cases known; exact Rules.rustRule_within.topLevel_cut source root
  | zig => cases known; exact Rules.zigRule_within.topLevel_cut source root
  | gleam => cases known; exact Rules.gleamRule_within.topLevel_cut source root
  | go => cases known; exact Rules.goRule_within.topLevel_cut source root
  | javascript | typescript | tsx =>
    cases known; exact Rules.scriptRule_within.topLevel_cut source root
  | mojo => cases known; exact Rules.mojoRule_within.topLevel_cut source root
  | python => cases known; exact Rules.pythonRule_within.topLevel_cut source root
  | _ => cases known

/--
What is nested deeper than the reach of a language has no influence on the symbols of a file.

Astro files are read as text, so that their trees have no influence at all.
-/
theorem symbols_eq_of_cut_eq (parsing : Parsing) (source : Bytes) (left right : Node) :
    (∀ (language : Language) (depth : Nat), language.reach? = some depth →
      left.cut depth = right.cut depth →
      language.symbols parsing source left = language.symbols parsing source right)
    ∧ Language.astro.symbols parsing source left = Language.astro.symbols parsing source right := by
  constructor
  · intro language depth known same
    -- Both trees have the symbols of the one tree that is left of them.
    calc language.symbols parsing source left
        = language.symbols parsing source (left.cut depth) :=
          (symbols_cut known parsing source left).symm
      _ = language.symbols parsing source (right.cut depth) := by rw [same]
      _ = language.symbols parsing source right := symbols_cut known parsing source right
  · rfl

end Language

/-- The text `@d⏎class C:⏎ 'x'⏎ def f():g`. -/
def nestedSource : Bytes :=
  Utf8.encode "@d\nclass C:\n 'x'\n def f():g".toList

/-- The tree of that text, with any nodes in the innermost block. -/
def nestedRoot (inner : List Node) : Node :=
  ⟨"module", none, 0, 27, 0, [⟨"decorated_definition", none, 0, 27, 0,
    [⟨"decorator", none, 0, 2, 0, []⟩,
      ⟨"class_definition", some "definition", 3, 27, 1,
        [⟨"identifier", some "name", 9, 10, 1, []⟩,
          ⟨"block", some "body", 13, 27, 2,
            [⟨"expression_statement", none, 13, 16, 2, [⟨"string", none, 13, 16, 2, []⟩]⟩,
              ⟨"function_definition", none, 18, 27, 3,
                [⟨"identifier", some "name", 22, 23, 3, []⟩,
                  ⟨"block", some "body", 26, 27, 3, inner⟩]⟩]⟩]⟩]⟩]⟩

/-- The statement in its innermost block. -/
def nestedStatement : Node :=
  ⟨"expression_statement", none, 26, 27, 3, []⟩

/-- Parsing of every text to that tree. -/
def nestedParsing : Parsing := fun _ _ => ⟨nestedRoot [nestedStatement], false⟩

/-- A class is shown the same, whatever its methods do. -/
theorem Language.symbols_eq_of_cut_eq_nested :
    Language.python.reach? = some 5
      ∧ (nestedRoot [nestedStatement]).size ≠ (nestedRoot []).size
      ∧ (nestedRoot [nestedStatement]).cut 5 = (nestedRoot []).cut 5
      ∧ Language.python.symbols nestedParsing nestedSource (nestedRoot [])
        = [⟨.classType, "C", "class C:", some "x", 2⟩]
      ∧ Language.python.symbols nestedParsing nestedSource (nestedRoot [nestedStatement])
        = Language.python.symbols nestedParsing nestedSource (nestedRoot []) := by
  -- The statement is six levels deep, one more than the rules for Python look.
  have same : (nestedRoot [nestedStatement]).cut 5 = (nestedRoot []).cut 5 := rfl
  obtain ⟨apart, _⟩ := symbols_eq_of_cut_eq nestedParsing nestedSource
    (nestedRoot [nestedStatement]) (nestedRoot [])
  exact ⟨rfl, by decide, same, by decide, apart .python 5 rfl same⟩

end Surface
