import Surface.Proofs.Names
import Surface.Proofs.Rules.Documentation
import Surface.Proofs.Rules.Places
import Surface.Rules.Language

/-!
Public declarations of Rust, Gleam, Zig, Python and Mojo files.
Each language has its own mark of what is public and its own way to name it, but all of them show
the places of the tree that hold a public declaration, in the order of the walk and one symbol each.
-/

namespace Surface.Rules

/-- A node with a visibility modifier right below it. -/
def HasModifier (node : Node) : Prop :=
  ∃ child ∈ node.children, child.kind = "visibility_modifier"

/-- The kinds of Rust items, what they declare, and where that is documented. -/
inductive RustItem : String → Kind → Documentation → Prop where
  | function : RustItem "function_item" .function .comment
  | struct : RustItem "struct_item" .structType .comment
  | enum : RustItem "enum_item" .enumType .comment
  | trait : RustItem "trait_item" .traitType .comment
  | type : RustItem "type_item" .typeAlias .absent
  | const : RustItem "const_item" .constant .absent
  | static : RustItem "static_item" .constant .absent

/-- The kinds of Zig declarations in both grammars of the language, and what they declare. -/
inductive ZigItem : String → Kind → Prop where
  | topLevel : ZigItem "TopLevelDecl" .function
  | prototype : ZigItem "FnProto" .function
  | binding : ZigItem "VarDecl" .constant
  | functionDeclaration : ZigItem "function_declaration" .function
  | variableDeclaration : ZigItem "variable_declaration" .constant

/--
The name of a node: the text in the role of a name, unless that is empty.

Then it is the text of the first child of some kinds, and without such a child there is no name.
-/
inductive Named (source : Bytes) (kinds : List String) (node : Node) : List Char → Prop where
  | role {child : Node} : First (InRole "name") node.children child → child.text source ≠ [] →
    Named source kinds node (child.text source)
  | kind {name : List Char} :
    (∀ child, First (InRole "name") node.children child → child.text source = []) →
    TextOfFirst source (OfKind kinds) node.children name → Named source kinds node name

/-- The name of a Gleam type: it stands in a node of its own, in front of the parameters. -/
inductive GleamTypeNamed (source : Bytes) (node : Node) : List Char → Prop where
  | found {inner : Node} {name : List Char} : First (OfKind ["type_name"]) node.children inner →
    TextOfFirst source (OfKind ["type_identifier"]) inner.children name →
    GleamTypeNamed source node name
  | missing : (∀ child ∈ node.children, ¬ OfKind ["type_name"] child) →
    GleamTypeNamed source node []

/-- What a node declares in public, by the language, and where that is documented. -/
inductive Declared (source : Bytes) (node : Node) :
    Language → Kind → List Char → Documentation → Prop where
  | rust {kind : Kind} {name : List Char} {documentation : Documentation} : HasModifier node →
    RustItem node.kind kind documentation →
    TextOfFirst source (InRole "name") node.children name →
    Declared source node .rust kind name documentation
  | gleamFunction {name : List Char} : HasModifier node → node.kind = "function" →
    TextOfFirst source (OfKind ["identifier"]) node.children name →
    Declared source node .gleam .function name .comment
  | gleamType {name : List Char} : HasModifier node → node.kind = "type_definition" →
    GleamTypeNamed source node name → Declared source node .gleam .typeAlias name .comment
  | gleamConstant {name : List Char} : HasModifier node → node.kind = "constant" →
    TextOfFirst source (OfKind ["identifier"]) node.children name →
    Declared source node .gleam .constant name .absent
  | zig {kind : Kind} {name : List Char} : ZigItem node.kind kind →
    "pub ".toList <+: node.text source → Named source ["identifier", "IDENTIFIER"] node name →
    Declared source node .zig kind name .absent
  | pythonFunction {name : List Char} : node.kind = "function_definition" →
    TextOfFirst source (InRole "name") node.children name → ¬ ['_'] <+: name →
    Declared source node .python .function name .body
  | pythonClass {name : List Char} : node.kind = "class_definition" →
    TextOfFirst source (InRole "name") node.children name → ¬ ['_'] <+: name →
    Declared source node .python .classType name .body
  | mojoFunction {name : List Char} : node.kind = "function_definition" →
    Named source ["identifier"] node name → ¬ ['_'] <+: name →
    Declared source node .mojo .function name .block
  | mojoStruct {name : List Char} {keyword : Node} : node.kind = "class_definition" →
    Named source ["identifier"] node name → ¬ ['_'] <+: name →
    node.children.head? = some keyword → keyword.kind = "struct" →
    Declared source node .mojo .structType name .absent
  | mojoClass {name : List Char} : node.kind = "class_definition" →
    Named source ["identifier"] node name → ¬ ['_'] <+: name →
    (∀ keyword, node.children.head? = some keyword → keyword.kind ≠ "struct") →
    Declared source node .mojo .classType name .absent
  /-- Traits are public whatever they are called. -/
  | mojoTrait {name : List Char} : node.kind = "trait_definition" →
    Named source ["identifier"] node name → Declared source node .mojo .traitType name .absent

/-- A place where declarations count: right below the root, or in a decorated definition there. -/
inductive Placed : Language → Cursor → Prop where
  | top {language : Language} {place : Cursor} : place.depth = 1 → Placed language place
  | decorated {place wrapper : Cursor} : place.parent? = some wrapper → wrapper.depth = 1 →
    wrapper.node.kind = "decorated_definition" → Placed .python place

/-- A place that holds a public declaration. -/
def IsPublic (source : Bytes) (language : Language) (place : Cursor) : Prop :=
  Placed language place
    ∧ ∃ kind name documentation, Declared source place.node language kind name documentation

/-- A symbol that tells what a place declares in public. -/
structure PublicSymbol (source : Bytes) (language : Language) (place : Cursor) (symbol : Symbol) :
    Prop extends Shown source place.node symbol where
  declared : ∃ documentation,
    Declared source place.node language symbol.kind symbol.name.toList documentation
      ∧ DocumentedAs source place documentation symbol.doc

section Names

variable {source : Bytes} {node : Node}

/-- The table of Rust items lists the seven kinds. -/
theorem rustItem_iff {word : String} {kind : Kind} {documentation : Documentation} :
    RustItem word kind documentation ↔ ∃ documented, rustItems.lookup word = some (kind, documented)
      ∧ documentation = if documented then .comment else .absent := by
  constructor
  · intro item
    cases item with
    | function | struct | enum | trait => exact ⟨true, rfl, rfl⟩
    | type | const | static => exact ⟨false, rfl, rfl⟩
  · rintro ⟨documented, found, rfl⟩
    -- What is looked up is one of the seven lines of the table.
    have listed := mem_of_lookup found
    simp only [rustItems, List.mem_cons, Prod.mk.injEq, List.not_mem_nil, or_false] at listed
    rcases listed with listed | listed | listed | listed | listed | listed | listed
    all_goals obtain ⟨rfl, rfl, rfl⟩ := listed
    · exact .function
    · exact .struct
    · exact .enum
    · exact .trait
    · exact .type
    · exact .const
    · exact .static

/-- Of the five kinds of Zig declarations, those with a word for variables in them are constants. -/
theorem zigItem_iff {word : String} {kind : Kind} :
    ZigItem word kind ↔ zigKinds.contains word = true ∧ kind = zigKind word := by
  constructor
  · intro item
    cases item <;> decide
  · rintro ⟨listed, rfl⟩
    -- The words are looked for in each of the five.
    simp only [zigKinds, List.contains_eq_mem, List.mem_cons, List.not_mem_nil, or_false,
      decide_eq_true_eq] at listed
    rcases listed with rfl | rfl | rfl | rfl | rfl
    · exact .topLevel
    · exact .prototype
    · exact .binding
    · exact .functionDeclaration
    · exact .variableDeclaration

/-- The name of a Gleam type is looked for in two steps. -/
theorem gleamTypeNamed_iff {name : List Char} :
    GleamTypeNamed source node name ↔ name = gleamTypeName node source := by
  unfold gleamTypeName
  constructor
  · intro named
    cases named with
    | found first text =>
      rw [childOf?_eq_some_iff.mpr first]
      exact textOfFirst_ofKind_iff.mp text
    | missing absent =>
      have nothing : node.childOf? ["type_name"] = none := by
        simpa [Node.childOf?, OfKind] using absent
      rw [nothing]
  · rintro rfl
    -- The first step finds the node of the name, or there is none.
    cases found : node.childOf? ["type_name"] with
    | none => exact .missing (by simpa [Node.childOf?, OfKind] using found)
    | some inner =>
      exact .found (childOf?_eq_some_iff.mp found) (textOfFirst_ofKind_iff.mpr rfl)

/-- A node has a modifier when the rules find one. -/
theorem hasModifier_iff : HasModifier node ↔ isMarkedPublic node = true := by
  simp [HasModifier, isMarkedPublic, Node.childOf?]

/-- A name is private when it starts with an underscore. -/
theorem isPrivate_iff {name : List Char} : isPrivate name = true ↔ ['_'] <+: name := by
  -- The first letter decides, and an empty name has none.
  cases name with
  | nil => simp [isPrivate]
  | cons letter rest =>
    simp only [isPrivate, List.head?_cons, beq_iff_eq, Option.some.injEq, List.cons_prefix_cons,
      List.nil_prefix, and_true]
    exact eq_comm

/-- The name is looked for in two ways, the second one where the first finds no text. -/
theorem named_iff {kinds : List String} {name : List Char} :
    Named source kinds node name ↔ name = if (node.fieldText "name" source).isEmpty then
        childText node kinds source else node.fieldText "name" source := by
  constructor
  · intro named
    cases named with
    | @role child first text =>
      have found : child.text source = node.fieldText "name" source :=
        textOfFirst_inRole_iff.mp (.found first)
      simp [← found, text]
    | kind nameless text =>
      -- The text in the role of a name is empty, whether there is a node for it or not.
      have empty : node.fieldText "name" source = [] := by
        unfold Node.fieldText
        cases found : node.childAt? "name" with
        | none => rfl
        | some child => exact nameless child (childAt?_eq_some_iff.mp found)
      rw [empty]
      exact textOfFirst_ofKind_iff.mp text
  · intro same
    subst same
    unfold Node.fieldText
    -- A node in the role of a name counts only where it has a text.
    cases found : node.childAt? "name" with
    | none =>
      refine .kind (fun child first => ?_) (textOfFirst_ofKind_iff.mpr rfl)
      rw [childAt?_eq_some_iff.mpr first] at found
      cases found
    | some child =>
      have first := childAt?_eq_some_iff.mp found
      by_cases text : child.text source = []
      · refine .kind (fun other isFirst => ?_) (textOfFirst_ofKind_iff.mpr (by simp [text]))
        rw [childAt?_eq_some_iff.mpr isFirst] at found
        exact Option.some.inj found ▸ text
      · simpa [text] using .role first text

/-- The name that the rules find for a Zig declaration. -/
theorem named_zigName : Named source ["identifier", "IDENTIFIER"] node (zigName node source) :=
  named_iff.mpr rfl

/-- The name that the rules find for a Mojo definition. -/
theorem named_mojoName : Named source ["identifier"] node (mojoName node source) :=
  named_iff.mpr rfl

end Names

/-- The rule for one node, which for Python is the one inside of a decoration. -/
def ownRule : Language → TopRule
  | .rust => rustRule
  | .gleam => gleamRule
  | .zig => zigRule
  | .python => fun source _ node => pythonDefinition source node
  | .mojo => mojoRule
  | _ => fun _ _ _ => []

section Declared

variable {source : Bytes} {before : Option Node} {node : Node} {language : Language} {kind : Kind}
  {name : List Char} {documentation : Documentation}

/-- What does not start with the keyword of a structure is a class. -/
theorem mojoClassKind_of_forall
    (other : ∀ keyword, node.children.head? = some keyword → keyword.kind ≠ "struct") :
    mojoClassKind node = .classType := by
  -- The keyword is the first child, if there is one.
  unfold mojoClassKind
  split
  · rename_i same
    obtain ⟨keyword, first, isStruct⟩ := Option.map_eq_some_iff.mp same
    exact absurd isStruct (other keyword first)
  · rfl

/-- What is declared in public is shown, as the one symbol of its node. -/
theorem Declared.ownRule_eq (holds : Declared source node language kind name documentation) :
    ownRule language source before node
      = [declare kind name (docBy source before node documentation) node source] := by
  -- Each way to declare something fixes the branch that the rule takes.
  cases holds with
  | rust marked item text =>
    obtain ⟨documented, found, rfl⟩ := rustItem_iff.mp item
    rw [textOfFirst_inRole_iff.mp text]
    cases documented <;> simp [ownRule, rustRule, hasModifier_iff.mp marked, found, docBy]
  | gleamFunction marked isFunction text =>
    rw [textOfFirst_ofKind_iff.mp text]
    simp [ownRule, gleamRule, hasModifier_iff.mp marked, isFunction, docBy]
  | gleamType marked isType named =>
    rw [gleamTypeNamed_iff.mp named]
    simp [ownRule, gleamRule, hasModifier_iff.mp marked, isType, docBy]
  | gleamConstant marked isConstant text =>
    rw [textOfFirst_ofKind_iff.mp text]
    simp [ownRule, gleamRule, hasModifier_iff.mp marked, isConstant, docBy]
  | zig item marked named =>
    obtain ⟨listed, rfl⟩ := zigItem_iff.mp item
    have starts : zigMarker.isPrefixOf (node.text source) = true :=
      List.isPrefixOf_iff_prefix.mpr marked
    have same : name = zigName node source := named_iff.mp named
    simp only [ownRule, zigRule, if_pos listed, if_pos starts, docBy, same]
  | pythonFunction isFunction text shown =>
    rw [← isPrivate_iff] at shown
    have same := textOfFirst_inRole_iff.mp text
    simp [ownRule, pythonDefinition, isFunction, ← same, shown, docBy]
  | pythonClass isClass text shown =>
    rw [← isPrivate_iff] at shown
    have same := textOfFirst_inRole_iff.mp text
    simp [ownRule, pythonDefinition, isClass, ← same, shown, docBy]
  | mojoFunction isFunction named shown =>
    rw [← isPrivate_iff] at shown
    have same : name = mojoName node source := named_iff.mp named
    simp [ownRule, mojoRule, isFunction, ← same, shown, docBy]
  | mojoStruct isClass named shown first isStruct =>
    rw [← isPrivate_iff] at shown
    have same : name = mojoName node source := named_iff.mp named
    simp [ownRule, mojoRule, isClass, ← same, shown, mojoClassKind, first, isStruct, docBy]
  | mojoClass isClass named shown other =>
    rw [← isPrivate_iff] at shown
    have same : name = mojoName node source := named_iff.mp named
    simp [ownRule, mojoRule, isClass, ← same, shown, mojoClassKind_of_forall other, docBy]
  | mojoTrait isTrait named =>
    have same : name = mojoName node source := named_iff.mp named
    simp [ownRule, mojoRule, isTrait, ← same, docBy]

/-! What is shown is declared in public, language by language. -/

variable (source before node)

/-- What the Rust rule shows is declared in public. -/
theorem rustRule_declared : rustRule source before node = []
    ∨ ∃ kind name documentation, Declared source node .rust kind name documentation := by
  unfold rustRule
  -- Neither the mark nor the kind of the item is enough by itself.
  split
  · rename_i marked
    split
    · rename_i kind documented found
      exact .inr ⟨kind, _, _, .rust (hasModifier_iff.mpr marked)
        (rustItem_iff.mpr ⟨documented, found, rfl⟩) (textOfFirst_inRole_iff.mpr rfl)⟩
    · exact .inl rfl
  · exact .inl rfl

/-- What the Gleam rule shows is declared in public. -/
theorem gleamRule_declared : gleamRule source before node = []
    ∨ ∃ kind name documentation, Declared source node .gleam kind name documentation := by
  unfold gleamRule
  split
  · -- One case for each of the three kinds of declarations.
    rename_i marked
    have marked := hasModifier_iff.mpr marked
    split
    · exact .inr ⟨_, _, _, .gleamFunction marked ‹_› (textOfFirst_ofKind_iff.mpr rfl)⟩
    · exact .inr ⟨_, _, _, .gleamType marked ‹_› (gleamTypeNamed_iff.mpr rfl)⟩
    · exact .inr ⟨_, _, _, .gleamConstant marked ‹_› (textOfFirst_ofKind_iff.mpr rfl)⟩
    · exact .inl rfl
  · exact .inl rfl

/-- What the Zig rule shows is declared in public. -/
theorem zigRule_declared : zigRule source before node = []
    ∨ ∃ kind name documentation, Declared source node .zig kind name documentation := by
  -- The kind has to be listed, and the text has to start with the keyword.
  unfold zigRule
  split
  · rename_i listed
    split
    · rename_i starts
      have marked := List.isPrefixOf_iff_prefix.mp starts
      exact .inr ⟨_, _, _, .zig (zigItem_iff.mpr ⟨listed, rfl⟩) marked named_zigName⟩
    · exact .inl rfl
  · exact .inl rfl

/-- What is shown of a Python definition is declared in public. -/
theorem pythonDefinition_declared : pythonDefinition source node = []
    ∨ ∃ kind name documentation, Declared source node .python kind name documentation := by
  by_cases hidden : isPrivate (node.fieldText "name" source) = true
  · -- A private name hides functions and classes, and nothing else is shown anyway.
    left
    unfold pythonDefinition
    split <;> simp [hidden]
  · have shown := isPrivate_iff.not.mp hidden
    unfold pythonDefinition
    split
    · exact .inr ⟨_, _, _, .pythonFunction ‹_› (textOfFirst_inRole_iff.mpr rfl) shown⟩
    · exact .inr ⟨_, _, _, .pythonClass ‹_› (textOfFirst_inRole_iff.mpr rfl) shown⟩
    · exact .inl rfl

/-- What the Mojo rule shows is declared in public. -/
theorem mojoRule_declared : mojoRule source before node = []
    ∨ ∃ kind name documentation, Declared source node .mojo kind name documentation := by
  unfold mojoRule
  dsimp only
  split
  · split
    · exact .inl rfl
    · rename_i shown
      exact .inr ⟨_, _, _, .mojoFunction ‹_› named_mojoName (isPrivate_iff.not.mp shown)⟩
  · split
    · exact .inl rfl
    · rename_i isClass shown
      have shown := isPrivate_iff.not.mp shown
      -- The first keyword makes it a structure or a class, but never hides it.
      by_cases starts : ∃ keyword, node.children.head? = some keyword ∧ keyword.kind = "struct"
      · obtain ⟨keyword, first, isStruct⟩ := starts
        exact .inr ⟨_, _, _, .mojoStruct isClass named_mojoName shown first isStruct⟩
      · refine .inr ⟨_, _, _, .mojoClass isClass named_mojoName shown ?_⟩
        intro keyword first isStruct
        exact starts ⟨keyword, first, isStruct⟩
  · exact .inr ⟨_, _, _, .mojoTrait ‹_› named_mojoName⟩
  · exact .inl rfl

/-- What is not declared in public is not shown. -/
theorem ownRule_eq_nil (hidden : ∀ kind name documentation,
    ¬ Declared source node language kind name documentation) :
    ownRule language source before node = [] := by
  have shown : ownRule language source before node = []
      ∨ ∃ kind name documentation, Declared source node language kind name documentation := by
    -- Only these languages have a rule of their own here.
    cases language with
    | rust => exact rustRule_declared source before node
    | gleam => exact gleamRule_declared source before node
    | zig => exact zigRule_declared source before node
    | python => exact pythonDefinition_declared source node
    | mojo => exact mojoRule_declared source before node
    | _ => exact .inl rfl
  rcases shown with nothing | ⟨kind, name, documentation, holds⟩
  · exact nothing
  · exact absurd holds (hidden kind name documentation)

end Declared

section Placed

variable {language : Language} {place : Cursor} {source : Bytes}

/-- Where declarations count, as the depth of a place and the node above it tell. -/
theorem placed_iff : Placed language place ↔ place.depth = 1 ∨ language = .python
    ∧ ∃ wrapper ∈ place.parent?, wrapper.depth = 1
      ∧ wrapper.node.kind = "decorated_definition" := by
  -- Only Python has a second way, through the node of the decorators.
  constructor
  · intro placed
    cases placed with
    | top top => exact .inl top
    | decorated up top isWrapper => exact .inr ⟨rfl, _, up, top, isWrapper⟩
  · intro either
    rcases either with top | ⟨rfl, wrapper, up, top, isWrapper⟩
    · exact .top top
    · exact .decorated up top isWrapper

instance (language : Language) : DecidablePred (Placed language) := fun _ =>
  decidable_of_iff _ placed_iff.symm

/-- Other languages have no decorations. -/
theorem placed_iff_of_ne (other : language ≠ .python) :
    Placed language place ↔ place.depth = 1 := by
  simp [placed_iff, other]

/-- Right below a node right below the root, declarations count if that node is a decoration. -/
theorem placed_child_iff (top : place.depth = 1) {child : Cursor}
    (isChild : child ∈ place.children) :
    Placed .python child ↔ place.node.kind = "decorated_definition" := by
  have deeper := Cursor.depth_of_mem_children isChild
  simp [placed_iff, Cursor.parent?_of_mem_children isChild, top, deeper]

/-- Further down, declarations count nowhere. -/
theorem not_placed_of_deep (deep : 2 < place.depth) : ¬ Placed language place := by
  intro placed
  cases placed with
  | top top => omega
  | decorated up top isWrapper =>
    -- The decoration is right below the root, so what it holds is one step further.
    have higher := Cursor.depth_of_parent? up
    omega

/-- What a place gives by itself. -/
def ownSymbols (language : Language) (source : Bytes) (place : Cursor) : List Symbol :=
  if Placed language place then ownRule language source place.previous? place.node else []

/-- A definition right below the root gives what it declares, decorated or not. -/
theorem flatMap_ownSymbols_python (top : place.depth = 1) :
    place.below.flatMap (ownSymbols .python source)
      = pythonRule source place.previous? place.node := by
  have children : (place.children.flatMap fun child =>
        child.below.flatMap (ownSymbols .python source))
      = place.node.children.flatMap fun node =>
        if place.node.kind = "decorated_definition" then pythonDefinition source node else [] := by
    rw [← Cursor.flatMap_children place]
    apply List.flatMap_congr
    intro child isChild
    -- Nothing below the child counts, and the child itself does in a decoration.
    have silent : ∀ inner : Cursor, child.depth < inner.depth →
        ownSymbols .python source inner = [] := by
      intro inner deeper
      have second := Cursor.depth_of_mem_children isChild
      exact if_neg (not_placed_of_deep (by omega))
    rw [Cursor.flatMap_below_of_silent silent, ownSymbols, if_congr (placed_child_iff top isChild)
      rfl rfl]
    rfl
  have own : ownSymbols .python source place = pythonDefinition source place.node :=
    if_pos (.top top)
  rw [Cursor.flatMap_below, children, own]
  by_cases isWrapper : place.node.kind = "decorated_definition"
  · -- The decoration itself is no definition, so only what it holds is left.
    have nothing : pythonDefinition source place.node = [] := by
      simp [pythonDefinition, isWrapper]
    simp [pythonRule, isWrapper, nothing]
  · simp [pythonRule, isWrapper]

/-- A public place gives the one symbol of what is declared there. -/
theorem ownSymbols_of_isPublic (shown : IsPublic source language place) :
    ∃ kind name documentation, Declared source place.node language kind name documentation
      ∧ ownSymbols language source place = [declare kind name
          (docBy source place.previous? place.node documentation) place.node source] := by
  obtain ⟨placed, kind, name, documentation, holds⟩ := shown
  exact ⟨kind, name, documentation, holds, by rw [ownSymbols, if_pos placed, holds.ownRule_eq]⟩

/-- Any other place gives none. -/
theorem ownSymbols_of_not_isPublic (hidden : ¬ IsPublic source language place) :
    ownSymbols language source place = [] := by
  -- In a place that counts, only a declaration is missing.
  unfold ownSymbols
  split
  · rename_i placed
    exact ownRule_eq_nil source _ _ fun kind name documentation holds =>
      hidden ⟨placed, kind, name, documentation, holds⟩
  · rfl

/-- The symbol of a public declaration in a tree tells what is declared there. -/
theorem publicSymbol_declare {root : Node} (member : place ∈ root.places []) {kind : Kind}
    {name : List Char} {documentation : Documentation}
    (holds : Declared source place.node language kind name documentation) :
    PublicSymbol source language place (declare kind name
      (docBy source place.previous? place.node documentation) place.node source) where
  toShown := shown_declare _ _ _ _ _
  declared := ⟨documentation, by simpa [declare] using holds,
    documentedAs_docBy (Node.settled_of_mem_places member) documentation⟩

instance (source : Bytes) (language : Language) : DecidablePred (IsPublic source language) :=
  fun place => decidable_of_iff ((ownSymbols language source place).isEmpty = false) <| by
    -- A place gives a symbol exactly when it is public.
    constructor
    · intro given
      by_contra hidden
      simp [ownSymbols_of_not_isPublic hidden] at given
    · intro shown
      obtain ⟨kind, name, documentation, _, single⟩ := ownSymbols_of_isPublic shown
      simp [single]

end Placed

end Surface.Rules

namespace Surface.Language

/-- The languages that tell public declarations from others by a mark or by their names. -/
def marking : List Language :=
  [.rust, .gleam, .zig, .python, .mojo]

/-- The symbols of a file are those of its places. -/
theorem symbols_eq_ownSymbols {language : Language} (marks : language ∈ marking)
    (parsing : Parsing) (source : Bytes) (root : Node) :
    language.symbols parsing source root
      = (root.places []).flatMap (Rules.ownSymbols language source) := by
  -- Where only the first level counts, a place gives what the rule finds at the top.
  have atTop : language ≠ .python →
      Rules.topLevel (Rules.ownRule language) source root
        = (root.places []).flatMap (Rules.ownSymbols language source) := by
    intro other
    rw [Rules.topLevel_eq_atTop]
    apply List.flatMap_congr
    intro place _
    rw [Rules.atTop, Rules.ownSymbols, if_congr (Rules.placed_iff_of_ne other) rfl rfl]
  cases language with
  | rust | gleam | zig | mojo => exact atTop (by decide)
  | python =>
    exact Rules.topLevel_eq_flatMap_places rfl fun _ top => Rules.flatMap_ownSymbols_python top
  | _ => exact absurd marks (by decide)

/--
Public declarations are shown, and private ones are not.

There is one symbol for each place of the tree that holds a public declaration, in the order of the
walk, with its first line, its row, and the kind, the name and the documentation that the
declaration has there. The places are all different, and their nodes are all the nodes of the tree.
-/
theorem symbols_public {language : Language} (marks : language ∈ marking) (parsing : Parsing)
    (source : Bytes) (root : Node) :
    (root.places []).Nodup ∧ (root.places []).map Cursor.node = root.nodes
      ∧ List.Forall₂ (Rules.PublicSymbol source language)
        ((root.places []).filter (Rules.IsPublic source language))
        (language.symbols parsing source root) := by
  refine ⟨root.nodup_places, root.places_map_node [], ?_⟩
  -- All symbols come from the places of the tree, one from each that is public.
  rw [symbols_eq_ownSymbols marks]
  apply forall₂_filter_flatMap_of_mem
  · intro place member shown
    obtain ⟨kind, name, documentation, holds, given⟩ := Rules.ownSymbols_of_isPublic shown
    exact ⟨_, given, Rules.publicSymbol_declare member holds⟩
  · intro place _ hidden
    exact Rules.ownSymbols_of_not_isPublic hidden

end Surface.Language

namespace Surface

/-- The text `@d⏎def _a(): 0⏎@d⏎class B: 0⏎def c(): 0`. -/
def decoratedSource : Bytes :=
  Utf8.encode "@d\ndef _a(): 0\n@d\nclass B: 0\ndef c(): 0".toList

/-- The tree of that text: two decorated definitions, the first of them private, and a plain one. -/
def decoratedRoot : Node :=
  ⟨"module", none, 0, 39, 0,
    [⟨"decorated_definition", none, 0, 14, 0,
        [⟨"decorator", none, 0, 2, 0, []⟩,
          ⟨"function_definition", some "definition", 3, 14, 1,
            [⟨"identifier", some "name", 7, 9, 1, []⟩]⟩]⟩,
      ⟨"decorated_definition", none, 15, 28, 2,
        [⟨"decorator", none, 15, 17, 2, []⟩,
          ⟨"class_definition", some "definition", 18, 28, 3,
            [⟨"identifier", some "name", 24, 25, 3, []⟩]⟩]⟩,
      ⟨"function_definition", none, 29, 39, 4, [⟨"identifier", some "name", 33, 34, 4, []⟩]⟩]⟩

/-- The text `/// d⏎pub fn a() …⏎fn b() …⏎pub const C: u8 = 0;⏎`. -/
def modifiedSource : Bytes :=
  Utf8.encode "/// d\npub fn a() \x7b\x7d\nfn b() \x7b\x7d\npub const C: u8 = 0;\n".toList

/-- The tree of that text: a documented function, a private one, and a constant. -/
def modifiedRoot : Node :=
  ⟨"source_file", none, 0, 51, 0,
    [⟨"line_comment", none, 0, 5, 0, []⟩,
      ⟨"function_item", none, 6, 19, 1,
        [⟨"visibility_modifier", none, 6, 9, 1, []⟩, ⟨"fn", none, 10, 12, 1, []⟩,
          ⟨"identifier", some "name", 13, 14, 1, []⟩]⟩,
      ⟨"function_item", none, 20, 29, 2,
        [⟨"fn", none, 20, 22, 2, []⟩, ⟨"identifier", some "name", 23, 24, 2, []⟩]⟩,
      ⟨"const_item", none, 30, 50, 3,
        [⟨"visibility_modifier", none, 30, 33, 3, []⟩, ⟨"const", none, 34, 39, 3, []⟩,
          ⟨"identifier", some "name", 40, 41, 3, []⟩]⟩]⟩

/-- The text `pub fn a() void …⏎fn b() void …⏎pub const C = 1;⏎`. -/
def markedSource : Bytes :=
  Utf8.encode "pub fn a() void \x7b\x7d\nfn b() void \x7b\x7d\npub const C = 1;\n".toList

/-- The tree of that text: the constant has its name in no role. -/
def markedRoot : Node :=
  ⟨"source_file", none, 0, 51, 0,
    [⟨"function_declaration", none, 0, 18, 0,
        [⟨"pub", none, 0, 3, 0, []⟩, ⟨"fn", none, 4, 6, 0, []⟩,
          ⟨"identifier", some "name", 7, 8, 0, []⟩]⟩,
      ⟨"function_declaration", none, 19, 33, 1,
        [⟨"fn", none, 19, 21, 1, []⟩, ⟨"identifier", some "name", 22, 23, 1, []⟩]⟩,
      ⟨"variable_declaration", none, 34, 50, 2,
        [⟨"pub", none, 34, 37, 2, []⟩, ⟨"const", none, 38, 43, 2, []⟩,
          ⟨"identifier", none, 44, 45, 2, []⟩]⟩]⟩

/-- Parsing of every text to a tree. -/
def parsingTo (root : Node) : Parsing := fun _ _ => ⟨root, false⟩

/--
Private functions stay hidden in three languages, and what is public is shown.

In Python a class is seen under its decoration, in Rust the mark is a node and in Zig a word.
-/
theorem Language.symbols_public_marked :
    (Language.python ∈ marking
        ∧ Language.python.symbols (parsingTo decoratedRoot) decoratedSource decoratedRoot
          = [⟨.classType, "B", "class B: 0", none, 4⟩, ⟨.function, "c", "def c(): 0", none, 5⟩]
        ∧ ((decoratedRoot.places []).filter
          (Rules.IsPublic decoratedSource .python)).length = 2)
      ∧ (Language.rust ∈ marking
        ∧ Language.rust.symbols (parsingTo modifiedRoot) modifiedSource modifiedRoot
          = [⟨.function, "a", "pub fn a() \x7b\x7d", some "/// d", 2⟩,
            ⟨.constant, "C", "pub const C: u8 = 0;", none, 4⟩]
        ∧ ((modifiedRoot.places []).filter (Rules.IsPublic modifiedSource .rust)).length = 2)
      ∧ (Language.zig ∈ marking
        ∧ Language.zig.symbols (parsingTo markedRoot) markedSource markedRoot
          = [⟨.function, "a", "pub fn a() void \x7b\x7d", none, 1⟩,
            ⟨.constant, "C", "pub const C = 1;", none, 3⟩]
        ∧ ((markedRoot.places []).filter (Rules.IsPublic markedSource .zig)).length = 2) := by
  -- The symbols are computed, and there are as many public places as symbols.
  refine ⟨⟨by decide, by decide +kernel, ?_⟩, ⟨by decide, by decide +kernel, ?_⟩,
    ⟨by decide, by decide +kernel, ?_⟩⟩
  · exact (symbols_public (by decide) (parsingTo decoratedRoot) decoratedSource
      decoratedRoot).2.2.length_eq
  · exact (symbols_public (by decide) (parsingTo modifiedRoot) modifiedSource
      modifiedRoot).2.2.length_eq
  · exact (symbols_public (by decide) (parsingTo markedRoot) markedSource
      markedRoot).2.2.length_eq

end Surface
