import Surface.Proofs.Rules.Places
import Surface.Proofs.Rules.Shown
import Surface.Rules.Language

/-!
Exported declarations of a Go file.
The rules go down level by level, but what they find are the places of the whole tree that hold an
exported declaration, in the order of the walk and one symbol each.
-/

namespace Surface.Rules

/-- A node whose name, the first there is, starts with a capital from `A` to `Z`. -/
def HasCapital (source : Bytes) (node : Node) : Prop :=
  ∃ child letter rest, First (InRole "name") node.children child
    ∧ child.text source = letter :: rest ∧ 'A' ≤ letter ∧ letter ≤ 'Z'

/-- What a type is, by the first node that says of what type it is. -/
inductive GoTypeIs (spec : Node) : Kind → Prop where
  | struct {type : Node} : First (InRole "type") spec.children type → type.kind = "struct_type" →
    GoTypeIs spec .structType
  | interface {type : Node} : First (InRole "type") spec.children type →
    type.kind = "interface_type" → GoTypeIs spec .interfaceType
  | other : (∀ type, First (InRole "type") spec.children type →
      type.kind ≠ "struct_type" ∧ type.kind ≠ "interface_type") → GoTypeIs spec .typeAlias

/-- A declaration of constants or variables right below the root, and what its values are. -/
inductive GoGroup : Cursor → Kind → Prop where
  | constants {place : Cursor} : place.depth = 1 → place.node.kind = "const_declaration" →
    GoGroup place .constant
  | variables {place : Cursor} : place.depth = 1 → place.node.kind = "var_declaration" →
    GoGroup place .variable

/--
A place that holds a declaration, and what it declares.

Its documentation is the comment in front of another place, if there is such a place.
-/
inductive GoDeclaration : Cursor → Kind → Option Cursor → Prop where
  | function {place : Cursor} : place.depth = 1 → place.node.kind = "function_declaration" →
    GoDeclaration place .function (some place)
  | method {place : Cursor} : place.depth = 1 → place.node.kind = "method_declaration" →
    GoDeclaration place .method (some place)
  /-- All types of a declaration have the comment in front of it. -/
  | type {place group : Cursor} {kind : Kind} : place.parent? = some group → group.depth = 1 →
    group.node.kind = "type_declaration" → place.node.kind ∈ ["type_spec", "type_alias"] →
    GoTypeIs place.node kind → GoDeclaration place kind (some group)
  | value {place group : Cursor} {kind : Kind} : place.parent? = some group → GoGroup group kind →
    place.node.kind ∈ ["const_spec", "var_spec"] → GoDeclaration place kind none
  /-- Values may also stand in a list of their own. -/
  | listed {place list group : Cursor} {kind : Kind} : place.parent? = some list →
    list.node.kind = "var_spec_list" → list.parent? = some group → GoGroup group kind →
    place.node.kind = "var_spec" → GoDeclaration place kind none

/-- A place that holds a declaration with a name that starts with a capital. -/
def IsExported (source : Bytes) (place : Cursor) : Prop :=
  HasCapital source place.node ∧ ∃ kind documented, GoDeclaration place kind documented

/-- A symbol that tells what a place declares. -/
structure GoSymbol (source : Bytes) (place : Cursor) (symbol : Symbol) : Prop
    extends Shown source place.node symbol where
  /-- The first name of the declaration. -/
  name : ∃ child, First (InRole "name") place.node.children child
    ∧ symbol.name.toList = child.text source
  /-- The kind, and the comment in front of the place that has the documentation. -/
  declared : ∃ documented, GoDeclaration place symbol.kind documented
    ∧ (∀ other, documented = some other → CommentedAt source other symbol.doc)
    ∧ (documented = none → symbol.doc = none)

/-- What the values of a declaration are, if it is one of constants or variables. -/
def goGroup? (declaration : Node) : Option Kind :=
  if declaration.kind = "const_declaration" then some .constant
  else if declaration.kind = "var_declaration" then some .variable
  else none

/-- What a place declares and where that is documented, by the nodes on the way to it. -/
def goDeclaration? (place : Cursor) : Option (Kind × Option Cursor) :=
  match place.trail with
  | [_] =>
    if place.node.kind = "function_declaration" then some (.function, some place)
    else if place.node.kind = "method_declaration" then some (.method, some place)
    else none
  | [own, above] =>
    if own.parent.kind = "type_declaration" then
      if place.node.kind ∈ ["type_spec", "type_alias"] then
        some (goTypeKind place.node, some ⟨own.parent, [above]⟩)
      else none
    else if place.node.kind ∈ ["const_spec", "var_spec"] then (goGroup? own.parent).map (·, none)
    else none
  | [own, above, _] =>
    if own.parent.kind = "var_spec_list" ∧ place.node.kind = "var_spec" then
      (goGroup? above.parent).map (·, none)
    else none
  | _ => none

/-- The comment in front of the place that has the documentation. -/
def goDoc (source : Bytes) (documented : Option Cursor) : Option (List Char) :=
  documented.bind fun place => commentBefore source place.previous?

/-- The symbol of a place, if it holds an exported declaration. -/
def goSymbols (source : Bytes) (place : Cursor) : List Symbol :=
  match goDeclaration? place with
  | some (kind, documented) => capitalized kind (goDoc source documented) place.node source
  | none => []

/-- The capitals are the letters from `A` to `Z`. -/
theorem isUpper_iff {letter : Char} : letter.isUpper = true ↔ 'A' ≤ letter ∧ letter ≤ 'Z' :=
  decide_eq_true_iff

/-- A node has a capital when the rules find its name capitalized. -/
theorem hasCapital_iff {source : Bytes} {node : Node} :
    HasCapital source node ↔ isCapitalized (node.fieldText "name" source) = true := by
  unfold HasCapital Node.fieldText
  simp only [← childAt?_eq_some_iff]
  -- There is no name, an empty one, or one with a first letter to look at.
  cases node.childAt? "name" with
  | none => simp [isCapitalized]
  | some child =>
    cases text : child.text source with
    | nil => simp [isCapitalized, text]
    | cons letter rest => simp [isCapitalized, text, isUpper_iff]

/-- The rules tell a type by the same node. -/
theorem goTypeIs_iff {spec : Node} {kind : Kind} : GoTypeIs spec kind ↔ kind = goTypeKind spec := by
  constructor
  · rintro (⟨found, isStruct⟩ | ⟨found, isInterface⟩ | different)
    · simp [goTypeKind, childAt?_eq_some_iff.mpr found, isStruct]
    · simp [goTypeKind, childAt?_eq_some_iff.mpr found, isInterface]
    · -- Neither of the two words is there, so the last case is the one that is left.
      unfold goTypeKind
      split
      · rename_i same
        obtain ⟨type, found, isStruct⟩ := Option.map_eq_some_iff.mp same
        exact absurd isStruct (different type (childAt?_eq_some_iff.mp found)).1
      · rename_i same
        obtain ⟨type, found, isInterface⟩ := Option.map_eq_some_iff.mp same
        exact absurd isInterface (different type (childAt?_eq_some_iff.mp found)).2
      · rfl
  · rintro rfl
    unfold goTypeKind
    split
    · rename_i same
      obtain ⟨type, found, isStruct⟩ := Option.map_eq_some_iff.mp same
      exact .struct (childAt?_eq_some_iff.mp found) isStruct
    · rename_i same
      obtain ⟨type, found, isInterface⟩ := Option.map_eq_some_iff.mp same
      exact .interface (childAt?_eq_some_iff.mp found) isInterface
    · rename_i notStruct notInterface
      refine .other fun type first => ?_
      have found := childAt?_eq_some_iff.mpr first
      exact ⟨fun isStruct => notStruct (by simp [found, isStruct]),
        fun isInterface => notInterface (by simp [found, isInterface])⟩

/-- The rules tell a declaration of values by its kind, and it has to be right below the root. -/
theorem goGroup_iff {place : Cursor} {kind : Kind} :
    GoGroup place kind ↔ place.depth = 1 ∧ goGroup? place.node = some kind := by
  -- There are two kinds of such declarations, and each has a case of its own.
  constructor
  · rintro (⟨top, isGroup⟩ | ⟨top, isGroup⟩)
    · exact ⟨top, by simp [goGroup?, isGroup]⟩
    · exact ⟨top, by simp [goGroup?, isGroup]⟩
  · rintro ⟨top, found⟩
    unfold goGroup? at found
    split at found
    · cases found
      exact .constants top ‹_›
    · split at found
      · cases found
        exact .variables top ‹_›
      · cases found

/-- A declaration of values is none of types. -/
theorem kind_ne_of_goGroup? {declaration : Node} {kind : Kind}
    (found : goGroup? declaration = some kind) : declaration.kind ≠ "type_declaration" := by
  intro isType
  simp [goGroup?, isType] at found

section Declaration

variable {place : Cursor} {kind : Kind} {documented : Option Cursor}

/-- The nodes on the way to a declaration tell what it declares. -/
theorem GoDeclaration.eq_some (holds : GoDeclaration place kind documented) :
    goDeclaration? place = some (kind, documented) := by
  -- Each way to hold a declaration fixes how many steps lead to the place.
  cases holds with
  | function top isFunction =>
    obtain ⟨own, trail⟩ := List.length_eq_one_iff.mp top
    simp [goDeclaration?, trail, isFunction]
  | method top isMethod =>
    obtain ⟨own, trail⟩ := List.length_eq_one_iff.mp top
    simp [goDeclaration?, trail, isMethod]
  | @type group _ up top isGroup isSpec isKind =>
    obtain ⟨own, parent, trail⟩ := Cursor.parent?_eq_some_iff.mp up
    obtain ⟨above, groupTrail⟩ := List.length_eq_one_iff.mp top
    -- The declaration around the type is known by its node and by the one step to it.
    have same : group = ⟨own.parent, [above]⟩ := by rw [parent, ← groupTrail]
    rw [goTypeIs_iff.mp isKind, same]
    simp [goDeclaration?, trail, groupTrail, parent, isGroup, List.mem_pair.mp isSpec]
  | value up isValues isSpec =>
    obtain ⟨own, parent, trail⟩ := Cursor.parent?_eq_some_iff.mp up
    obtain ⟨top, isGroup⟩ := goGroup_iff.mp isValues
    obtain ⟨above, groupTrail⟩ := List.length_eq_one_iff.mp top
    simp [goDeclaration?, trail, groupTrail, parent, isGroup, kind_ne_of_goGroup? isGroup,
      List.mem_pair.mp isSpec]
  | listed up isList further isValues isSpec =>
    obtain ⟨own, parent, trail⟩ := Cursor.parent?_eq_some_iff.mp up
    obtain ⟨above, grandparent, listTrail⟩ := Cursor.parent?_eq_some_iff.mp further
    obtain ⟨top, isGroup⟩ := goGroup_iff.mp isValues
    obtain ⟨first, groupTrail⟩ := List.length_eq_one_iff.mp top
    simp [goDeclaration?, trail, listTrail, groupTrail, parent, grandparent, isList, isGroup,
      isSpec]

/-- What the nodes on the way tell is declared there. -/
theorem goDeclaration_of_eq_some (answer : goDeclaration? place = some (kind, documented)) :
    GoDeclaration place kind documented := by
  -- One case for each number of steps that may lead to a declaration.
  unfold goDeclaration? at answer
  split at answer
  · rename_i own trail
    have top : place.depth = 1 := by simp [Cursor.depth, trail]
    split at answer
    · cases answer
      exact .function top ‹_›
    · split at answer
      · cases answer
        exact .method top ‹_›
      · cases answer
  · rename_i own above trail
    have up : place.parent? = some ⟨own.parent, [above]⟩ :=
      Cursor.parent?_eq_some_iff.mpr ⟨own, rfl, trail⟩
    split at answer
    · split at answer
      · cases answer
        exact .type up rfl ‹_› ‹_› (goTypeIs_iff.mpr rfl)
      · cases answer
    · split at answer
      · obtain ⟨given, isGroup, same⟩ := Option.map_eq_some_iff.mp answer
        cases same
        exact .value up (goGroup_iff.mpr ⟨rfl, isGroup⟩) ‹_›
      · cases answer
  · rename_i own above first trail
    have up : place.parent? = some ⟨own.parent, [above, first]⟩ :=
      Cursor.parent?_eq_some_iff.mpr ⟨own, rfl, trail⟩
    have further : (⟨own.parent, [above, first]⟩ : Cursor).parent?
        = some ⟨above.parent, [first]⟩ := rfl
    split at answer
    · rename_i both
      obtain ⟨given, isGroup, same⟩ := Option.map_eq_some_iff.mp answer
      cases same
      exact .listed up both.1 further (goGroup_iff.mpr ⟨rfl, isGroup⟩) both.2
    · cases answer
  · cases answer

/-- A place holds a declaration exactly when the nodes on the way to it tell so. -/
theorem goDeclaration_iff :
    GoDeclaration place kind documented ↔ goDeclaration? place = some (kind, documented) :=
  ⟨GoDeclaration.eq_some, goDeclaration_of_eq_some⟩

/-- The documentation stands in front of the place itself or of its parent. -/
theorem GoDeclaration.documented_eq (holds : GoDeclaration place kind documented) {other : Cursor}
    (same : documented = some other) : other = place ∨ place.parent? = some other := by
  -- A type is documented in front of its group, and values not at all.
  cases holds with
  | function => exact .inl (Option.some.inj same).symm
  | method => exact .inl (Option.some.inj same).symm
  | type up => exact .inr (up.trans same)
  | value => cases same
  | listed => cases same

end Declaration

instance (source : Bytes) : DecidablePred (IsExported source) := fun place =>
  decidable_of_iff (isCapitalized (place.node.fieldText "name" source) = true
      ∧ (goDeclaration? place).isSome = true) (by
    rw [IsExported, hasCapital_iff, Option.isSome_iff_exists]
    simp only [goDeclaration_iff, Prod.exists])

section Levels

variable (source : Bytes)

/-- The symbol of a value, if it stands in a declaration of constants or variables. -/
def valueSymbols (declaration spec : Node) : List Symbol :=
  match goGroup? declaration with
  | some kind => capitalized kind none spec source
  | none => []

/-- A declaration of types has no values. -/
theorem valueSymbols_of_type {declaration : Node} (isType : declaration.kind = "type_declaration")
    (spec : Node) : valueSymbols source declaration spec = [] := by
  simp [valueSymbols, goGroup?, isType]

/-- The symbols of a node right below a declaration, which has some node before it. -/
def memberSymbols (before : Option Node) (declaration child : Node) : List Symbol :=
  if declaration.kind = "type_declaration" then
    if child.kind ∈ ["type_spec", "type_alias"] then
      capitalized (goTypeKind child) (commentBefore source before) child source
    else []
  else if child.kind ∈ ["const_spec", "var_spec"] then valueSymbols source declaration child
  else if child.kind = "var_spec_list" then
    child.children.flatMap fun spec =>
      if spec.kind = "var_spec" then valueSymbols source declaration spec else []
  else []

/-! What the members of a declaration give together, by what it declares. -/

variable {declaration : Node} (before : Option Node)

/-- The members of a declaration of types give what the rule finds there. -/
theorem flatMap_memberSymbols_type (isType : declaration.kind = "type_declaration") :
    declaration.children.flatMap (memberSymbols source before declaration)
      = goTypes source (commentBefore source before) declaration := by
  refine List.flatMap_congr fun child _ => ?_
  simp [memberSymbols, isType]

/-- The members of a declaration of values give what the rule finds there. -/
theorem flatMap_memberSymbols_group {kind : Kind} (isGroup : goGroup? declaration = some kind) :
    declaration.children.flatMap (memberSymbols source before declaration)
      = goValues source kind declaration := by
  refine List.flatMap_congr fun child _ => ?_
  simp [memberSymbols, valueSymbols, isGroup, kind_ne_of_goGroup? isGroup]

/-- The members of any other node give nothing. -/
theorem flatMap_memberSymbols_other (notType : declaration.kind ≠ "type_declaration")
    (noGroup : goGroup? declaration = none) :
    declaration.children.flatMap (memberSymbols source before declaration) = [] := by
  rw [List.flatMap_eq_nil_iff]
  intro child _
  simp [memberSymbols, valueSymbols, notType, noGroup]

/-- Behind the third step of a trail nothing is declared any more. -/
theorem goSymbols_of_deep {place : Cursor} (deep : 3 < place.depth) :
    goSymbols source place = [] := by
  -- Every way that the rules know is shorter than that.
  unfold goSymbols goDeclaration?
  split
  · rename_i found
    split at found <;> simp_all [Cursor.depth]
  · rfl

/-- Three steps below the root only values in a list are found. -/
theorem goSymbols_of_three {place : Cursor} {own above first : Crumb}
    (trail : place.trail = [own, above, first]) :
    goSymbols source place
      = if own.parent.kind = "var_spec_list" ∧ place.node.kind = "var_spec" then
          valueSymbols source above.parent place.node
        else [] := by
  by_cases isListed : own.parent.kind = "var_spec_list" ∧ place.node.kind = "var_spec"
  · -- What the values are is up to the declaration around the list.
    simp only [goSymbols, goDeclaration?, trail, if_pos isListed, valueSymbols]
    cases goGroup? above.parent <;> rfl
  · simp only [goSymbols, goDeclaration?, trail, if_neg isListed]

/-- Two steps below the root the types and the values of a declaration are found. -/
theorem goSymbols_of_two {place : Cursor} {own above : Crumb} (trail : place.trail = [own, above]) :
    goSymbols source place
      = if own.parent.kind = "type_declaration" then
          if place.node.kind ∈ ["type_spec", "type_alias"] then
            capitalized (goTypeKind place.node) (commentBefore source above.before.head?)
              place.node source
          else []
        else if place.node.kind ∈ ["const_spec", "var_spec"] then
          valueSymbols source own.parent place.node
        else [] := by
  -- The node above tells types from values, and the node itself what else is there.
  by_cases isType : own.parent.kind = "type_declaration"
  · by_cases isSpec : place.node.kind ∈ ["type_spec", "type_alias"]
    · simp only [goSymbols, goDeclaration?, trail, if_pos isType, if_pos isSpec]
      rfl
    · simp only [goSymbols, goDeclaration?, trail, if_pos isType, if_neg isSpec]
  · by_cases isSpec : place.node.kind ∈ ["const_spec", "var_spec"]
    · simp only [goSymbols, goDeclaration?, trail, if_neg isType, if_pos isSpec, valueSymbols]
      cases goGroup? own.parent <;> rfl
    · simp only [goSymbols, goDeclaration?, trail, if_neg isType, if_neg isSpec]

/-- Right below the root functions and methods are found. -/
theorem goSymbols_of_one {place : Cursor} {own : Crumb} (trail : place.trail = [own]) :
    goSymbols source place
      = if place.node.kind = "function_declaration" then
          capitalized .function (commentBefore source place.previous?) place.node source
        else if place.node.kind = "method_declaration" then
          capitalized .method (commentBefore source place.previous?) place.node source
        else [] := by
  -- Only these two kinds declare a name themselves.
  by_cases isFunction : place.node.kind = "function_declaration"
  · simp only [goSymbols, goDeclaration?, trail, if_pos isFunction]
    rfl
  · by_cases isMethod : place.node.kind = "method_declaration"
    · simp only [goSymbols, goDeclaration?, trail, if_neg isFunction, if_pos isMethod]
      rfl
    · simp only [goSymbols, goDeclaration?, trail, if_neg isFunction, if_neg isMethod]

/-- From a node right below a declaration come its own symbol and those of the list that it is. -/
theorem flatMap_goSymbols_member {place : Cursor} {own above : Crumb}
    (trail : place.trail = [own, above]) :
    place.below.flatMap (goSymbols source)
      = memberSymbols source above.before.head? own.parent place.node := by
  have listed : (place.children.flatMap fun child => child.below.flatMap (goSymbols source))
      = place.node.children.flatMap fun spec =>
          if place.node.kind = "var_spec_list" ∧ spec.kind = "var_spec" then
            valueSymbols source own.parent spec
          else [] := by
    rw [← Cursor.flatMap_children place]
    refine List.flatMap_congr fun child isChild => ?_
    obtain ⟨before, after, childTrail⟩ := Cursor.trail_of_mem_children isChild
    rw [trail] at childTrail
    -- The child is at the third step, so nothing below it counts.
    have silent : ∀ inner : Cursor, child.depth < inner.depth → goSymbols source inner = [] := by
      intro inner deeper
      refine goSymbols_of_deep source ?_
      simp only [Cursor.depth, childTrail, List.length_cons, List.length_nil] at deeper
      exact deeper
    rw [Cursor.flatMap_below_of_silent silent, goSymbols_of_three source childTrail]
  rw [Cursor.flatMap_below, listed, goSymbols_of_two source trail, memberSymbols]
  by_cases isList : place.node.kind = "var_spec_list"
  · -- A list is no value itself, and in a declaration of types its members are none either.
    by_cases isType : own.parent.kind = "type_declaration"
    · simp [isList, isType, valueSymbols_of_type]
    · simp [isList, isType]
  · simp [isList]

/-- From a declaration right below the root come the symbols that the rule finds in it. -/
theorem flatMap_goSymbols_top {place : Cursor} {own : Crumb} (trail : place.trail = [own]) :
    place.below.flatMap (goSymbols source) = goRule source place.previous? place.node := by
  have members : (place.children.flatMap fun child => child.below.flatMap (goSymbols source))
      = place.node.children.flatMap (memberSymbols source place.previous? place.node) := by
    rw [← Cursor.flatMap_children place]
    refine List.flatMap_congr fun child isChild => ?_
    obtain ⟨before, after, childTrail⟩ := Cursor.trail_of_mem_children isChild
    rw [trail] at childTrail
    rw [flatMap_goSymbols_member source childTrail]
    simp [Cursor.previous?, trail]
  rw [Cursor.flatMap_below, members]
  have single := goSymbols_of_one source trail
  -- One case for each kind of declaration that the rule knows, and one for all others.
  unfold goRule
  split
  case h_1 isFunction =>
    have noGroup : goGroup? place.node = none := by simp [goGroup?, isFunction]
    rw [single, flatMap_memberSymbols_other source _ (by simp [isFunction]) noGroup]
    simp [isFunction]
  case h_2 isMethod =>
    have noGroup : goGroup? place.node = none := by simp [goGroup?, isMethod]
    rw [single, flatMap_memberSymbols_other source _ (by simp [isMethod]) noGroup]
    simp [isMethod]
  case h_3 isType =>
    rw [single, flatMap_memberSymbols_type source _ isType]
    simp [isType]
  case h_4 isConstants =>
    have isGroup : goGroup? place.node = some .constant := by simp [goGroup?, isConstants]
    rw [single, flatMap_memberSymbols_group source _ isGroup]
    simp [isConstants]
  case h_5 isVariables =>
    have isGroup : goGroup? place.node = some .variable := by simp [goGroup?, isVariables]
    rw [single, flatMap_memberSymbols_group source _ isGroup]
    simp [isVariables]
  case h_6 notFunction notMethod notType notConstants notVariables =>
    have noGroup : goGroup? place.node = none := by
      rw [goGroup?, if_neg notConstants, if_neg notVariables]
    rw [single, flatMap_memberSymbols_other source _ notType noGroup, if_neg notFunction,
      if_neg notMethod, List.append_nil]

/-- The rules go down level by level and still find what lies in the whole tree, in its order. -/
theorem topLevel_goRule_eq (root : Node) :
    topLevel goRule source root = (root.places []).flatMap (goSymbols source) := by
  -- The root declares nothing, and below each of its children both go through the same places.
  refine topLevel_eq_flatMap_places rfl ?_
  intro place top
  obtain ⟨own, trail⟩ := List.length_eq_one_iff.mp top
  exact flatMap_goSymbols_top source trail

/-- A place gives one symbol when it holds an exported declaration. -/
theorem goSymbols_of_isExported {place : Cursor} (exported : IsExported source place) :
    ∃ kind documented, GoDeclaration place kind documented
      ∧ goSymbols source place = [declare kind (place.node.fieldText "name" source)
          (goDoc source documented) place.node source] := by
  obtain ⟨capital, kind, documented, holds⟩ := exported
  refine ⟨kind, documented, holds, ?_⟩
  simp only [goSymbols, goDeclaration_iff.mp holds, capitalized, if_pos (hasCapital_iff.mp capital)]

/-- Any other place gives none. -/
theorem goSymbols_of_not_isExported {place : Cursor} (hidden : ¬ IsExported source place) :
    goSymbols source place = [] := by
  unfold goSymbols
  split
  · -- It holds a declaration, so its name has to be the reason.
    rename_i kind documented answer
    have small : ¬ isCapitalized (place.node.fieldText "name" source) = true := fun capital =>
      hidden ⟨hasCapital_iff.mpr capital, kind, documented, goDeclaration_iff.mpr answer⟩
    simp only [capitalized, if_neg small]
  · rfl

end Levels

/-- The symbol of an exported declaration in a tree tells what is declared there. -/
theorem goSymbol_declare {source : Bytes} {root : Node} {place : Cursor}
    (member : place ∈ root.places []) (capital : HasCapital source place.node) {kind : Kind}
    {documented : Option Cursor} (holds : GoDeclaration place kind documented) :
    GoSymbol source place (declare kind (place.node.fieldText "name" source)
      (goDoc source documented) place.node source) where
  toShown := shown_declare _ _ _ _ _
  name := by
    obtain ⟨child, letter, rest, first, text, _⟩ := capital
    refine ⟨child, first, ?_⟩
    rw [declare, String.toList_ofList, Node.fieldText, childAt?_eq_some_iff.mpr first]
  declared := by
    refine ⟨documented, holds, ?_, ?_⟩
    · rintro other rfl
      -- The place and its parent are settled, as all places of the tree are.
      have settled : other.Settled := by
        rcases holds.documented_eq rfl with same | up
        · exact same ▸ Node.settled_of_mem_places member
        · exact Node.settled_of_parent? member up
      exact commentedAt_of_settled settled
    · rintro rfl
      rfl

end Surface.Rules

namespace Surface

/--
The symbols of a Go file are those of its exported declarations.

There is one for each place of the tree that holds such a declaration, in the order of the walk,
with its name, its first line, its row, and the kind and the documentation that it has there. The
places are all different, and their nodes are all the nodes of the tree.
-/
theorem Language.go_symbols_exported (parsing : Parsing) (source : Bytes) (root : Node) :
    (root.places []).Nodup ∧ (root.places []).map Cursor.node = root.nodes
      ∧ List.Forall₂ (Rules.GoSymbol source)
        ((root.places []).filter (Rules.IsExported source))
        (Language.go.symbols parsing source root) := by
  refine ⟨root.nodup_places, root.places_map_node [], ?_⟩
  -- All symbols come from the places of the tree, one from each that is exported.
  rw [Language.symbols, Rules.topLevel_goRule_eq]
  apply forall₂_filter_flatMap_of_mem
  · intro place member exported
    obtain ⟨kind, documented, holds, given⟩ := Rules.goSymbols_of_isExported source exported
    exact ⟨_, given, Rules.goSymbol_declare member exported.1 holds⟩
  · intro place _ hidden
    exact Rules.goSymbols_of_not_isExported source hidden

/-- The text of a documented group of types, a list of variables, and a documented function. -/
def groupedSource : Bytes :=
  Utf8.encode ("package p\n\n// Doc.\ntype (\n\tA struct\x7b\x7d\n\tB = int\n)\n\nvar (\n\tC, d int"
    ++ "\n\te = 1\n)\n\n// F does.\nfunc F() \x7b\x7d\n").toList

/-- The tree of that text. -/
def groupedRoot : Node :=
  ⟨"source_file", none, 0, 99, 0,
    [⟨"package_clause", none, 0, 9, 0, []⟩, ⟨"comment", none, 11, 18, 2, []⟩,
      ⟨"type_declaration", none, 19, 48, 3,
        [⟨"type", none, 19, 23, 3, []⟩, ⟨"(", none, 24, 25, 3, []⟩,
          ⟨"type_spec", none, 27, 37, 4,
            [⟨"type_identifier", some "name", 27, 28, 4, []⟩,
              ⟨"struct_type", some "type", 29, 37, 4, []⟩]⟩,
          ⟨"type_alias", none, 39, 46, 5,
            [⟨"type_identifier", some "name", 39, 40, 5, []⟩, ⟨"=", none, 41, 42, 5, []⟩,
              ⟨"type_identifier", some "type", 43, 46, 5, []⟩]⟩,
          ⟨")", none, 47, 48, 6, []⟩]⟩,
      ⟨"var_declaration", none, 50, 74, 8,
        [⟨"var", none, 50, 53, 8, []⟩,
          ⟨"var_spec_list", none, 54, 74, 8,
            [⟨"(", none, 54, 55, 8, []⟩,
              ⟨"var_spec", none, 57, 65, 9,
                [⟨"identifier", some "name", 57, 58, 9, []⟩, ⟨",", none, 58, 59, 9, []⟩,
                  ⟨"identifier", some "name", 60, 61, 9, []⟩,
                  ⟨"type_identifier", some "type", 62, 65, 9, []⟩]⟩,
              ⟨"var_spec", none, 67, 72, 10,
                [⟨"identifier", some "name", 67, 68, 10, []⟩, ⟨"=", none, 69, 70, 10, []⟩,
                  ⟨"expression_list", some "value", 71, 72, 10, []⟩]⟩,
              ⟨")", none, 73, 74, 11, []⟩]⟩]⟩,
      ⟨"comment", none, 76, 86, 13, []⟩,
      ⟨"function_declaration", none, 87, 98, 14,
        [⟨"func", none, 87, 91, 14, []⟩, ⟨"identifier", some "name", 92, 93, 14, []⟩,
          ⟨"parameter_list", some "parameters", 93, 95, 14, []⟩,
          ⟨"block", some "body", 96, 98, 14, []⟩]⟩]⟩

/-- Parsing of every text to that tree. -/
def groupedParsing : Parsing := fun _ _ => ⟨groupedRoot, false⟩

/-- Both types have the comment in front of their group, and of the variables one is exported. -/
theorem Language.go_symbols_exported_grouped :
    Language.go.symbols groupedParsing groupedSource groupedRoot
        = [⟨.structType, "A", "A struct\x7b\x7d", some "// Doc.", 5⟩,
          ⟨.typeAlias, "B", "B = int", some "// Doc.", 6⟩, ⟨.variable, "C", "C, d int", none, 10⟩,
          ⟨.function, "F", "func F() \x7b\x7d", some "// F does.", 15⟩]
      ∧ ((groupedRoot.places []).filter (Rules.IsExported groupedSource)).length = 4 := by
  have shown : Language.go.symbols groupedParsing groupedSource groupedRoot
      = [⟨.structType, "A", "A struct\x7b\x7d", some "// Doc.", 5⟩,
        ⟨.typeAlias, "B", "B = int", some "// Doc.", 6⟩, ⟨.variable, "C", "C, d int", none, 10⟩,
        ⟨.function, "F", "func F() \x7b\x7d", some "// F does.", 15⟩] := by
    decide +kernel
  -- There are as many places as symbols.
  obtain ⟨_, _, each⟩ := go_symbols_exported groupedParsing groupedSource groupedRoot
  exact ⟨shown, by rw [each.length_eq, shown]; rfl⟩

end Surface
