import Surface.Rules.Language

/-!
Extraction is local: what a node right below the root contributes depends on the node itself and on
the sibling just before it, and of that sibling only the documentation in it is ever seen.
-/

namespace Surface

/-- A symbol without its documentation. -/
def Symbol.bare (symbol : Symbol) : Symbol :=
  { symbol with doc := none }

/-- A node with other children below it. -/
def Node.withChildren (node : Node) (children : List Node) : Node :=
  { node with children }

/-- Behind other siblings, the first node comes after the last one of these. -/
theorem Node.withPrevious_append (before : Option Node) (front back : List Node) :
    withPrevious before (front ++ back)
      = withPrevious before front ++ withPrevious (front.getLast?.or before) back := by
  -- Going over the front moves what stands before the rest from one node to the next.
  induction front generalizing before with
  | nil => rfl
  | cons node front ih =>
    have last : (node :: front).getLast?.or before = front.getLast?.or (some node) := by
      cases found : front.getLast? <;> simp [List.getLast?_cons, found]
    simp only [List.cons_append, withPrevious, ih, last]

namespace Rules

/-- The symbols of siblings, the first of which stands behind a given node. -/
def symbolsBehind (rule : TopRule) (source : Bytes) (before : Option Node)
    (siblings : List Node) : List Symbol :=
  (Node.withPrevious before siblings).flatMap fun (before, node) => rule source before node

/-- The children of a root stand behind nothing. -/
theorem topLevel_withChildren (rule : TopRule) (source : Bytes) (root : Node)
    (children : List Node) :
    topLevel rule source (root.withChildren children)
      = symbolsBehind rule source none children := rfl

/-- The first sibling stands behind the given node, and the others behind the first one. -/
theorem symbolsBehind_cons (rule : TopRule) (source : Bytes) (before : Option Node) (node : Node)
    (rest : List Node) :
    symbolsBehind rule source before (node :: rest)
      = rule source before node ++ symbolsBehind rule source (some node) rest := rfl

/-- A single node has what the rule makes of it. -/
theorem symbolsBehind_singleton (rule : TopRule) (source : Bytes) (before : Option Node)
    (node : Node) : symbolsBehind rule source before [node] = rule source before node :=
  List.append_nil _

/-- In two parts, the second one stands behind the last node of the first. -/
theorem symbolsBehind_append (rule : TopRule) (source : Bytes) (front back : List Node) :
    symbolsBehind rule source none (front ++ back)
      = symbolsBehind rule source none front ++ symbolsBehind rule source front.getLast? back := by
  simp only [symbolsBehind, Node.withPrevious_append, List.flatMap_append, Option.or_none]

/-- A rule that sees nothing of the sibling before a node. -/
def Unaware (rule : TopRule) : Prop :=
  ∀ source before node, rule source before node = rule source none node

/--
A rule that takes documentation from the sibling before a node, and nothing else.

Without documentation there the sibling might as well be missing, and with it the symbols differ in
their documentation alone.
-/
structure ReadsComment (rule : TopRule) : Prop where
  silent : ∀ source before node, commentBefore source before = none →
    rule source before node = rule source none node
  bare : ∀ source before node,
    (rule source before node).map Symbol.bare = (rule source none node).map Symbol.bare

/-- A rule that sees nothing of the sibling takes nothing else from it. -/
theorem Unaware.readsComment {rule : TopRule} (unaware : Unaware rule) : ReadsComment rule where
  silent := fun source before node _ => unaware source before node
  bare := fun source before node => by rw [unaware source before node]

/-- Without a sibling there is no documentation before a node. -/
theorem commentBefore_none (source : Bytes) : commentBefore source none = none := rfl

/-- A sibling that is no comment documents nothing. -/
theorem commentBefore_eq_none (source : Bytes) {before : Option Node}
    (plain : ∀ node ∈ before, isComment node = false) : commentBefore source before = none := by
  cases before with
  | none => rfl
  | some node => simp [commentBefore, plain node rfl]

section Seam

variable {rule : TopRule} (source : Bytes)

/-- An unaware rule gives siblings the same symbols, whatever they stand behind. -/
theorem Unaware.symbolsBehind_eq (unaware : Unaware rule) (before : Option Node)
    (siblings : List Node) :
    symbolsBehind rule source before siblings = symbolsBehind rule source none siblings := by
  -- Only the first sibling has another one before it, and the rule does not look.
  cases siblings with
  | nil => rfl
  | cons node rest => rw [symbolsBehind_cons, symbolsBehind_cons, unaware source before node]

/-- An unaware rule reads each node right below a root as if it stood there alone. -/
theorem Unaware.topLevel_eq (unaware : Unaware rule) (root : Node) :
    topLevel rule source root = root.children.flatMap (rule source none) := by
  -- By induction over the siblings, each of which might as well be the first one.
  have each : ∀ siblings, symbolsBehind rule source none siblings
      = siblings.flatMap (rule source none) := by
    intro siblings
    induction siblings with
    | nil => rfl
    | cons node rest ih =>
      rw [symbolsBehind_cons, unaware.symbolsBehind_eq source (some node) rest, ih,
        List.flatMap_cons]
  exact each root.children

/-- Behind a node that is no comment, siblings have the symbols that they have on their own. -/
theorem ReadsComment.symbolsBehind_eq (reads : ReadsComment rule) {before : Option Node}
    (plain : ∀ node ∈ before, isComment node = false) (siblings : List Node) :
    symbolsBehind rule source before siblings = symbolsBehind rule source none siblings := by
  -- Only the first sibling has the node before it, and finds no documentation there.
  cases siblings with
  | nil => rfl
  | cons node rest =>
    have silent := reads.silent source before node (commentBefore_eq_none source plain)
    rw [symbolsBehind_cons, symbolsBehind_cons, silent]

/-- Behind any node, siblings have the same symbols up to documentation. -/
theorem ReadsComment.map_bare_symbolsBehind (reads : ReadsComment rule) (before : Option Node)
    (siblings : List Node) :
    (symbolsBehind rule source before siblings).map Symbol.bare
      = (symbolsBehind rule source none siblings).map Symbol.bare := by
  -- Only the first sibling has the node before it, and takes no more than documentation.
  cases siblings with
  | nil => rfl
  | cons node rest =>
    rw [symbolsBehind_cons, symbolsBehind_cons, List.map_append, List.map_append,
      reads.bare source before node]

end Seam

section Rules

/-- A declaration differs from an undocumented one in its documentation alone. -/
theorem bare_declare (kind : Kind) (name : List Char) (doc : Option (List Char)) (node : Node)
    (source : Bytes) :
    (declare kind name doc node source).bare = declare kind name none node source := rfl

/-- A capitalized declaration differs in its documentation alone. -/
theorem map_bare_capitalized (kind : Kind) (doc : Option (List Char)) (node : Node)
    (source : Bytes) :
    (capitalized kind doc node source).map Symbol.bare = capitalized kind none node source := by
  -- Whether the name is public does not hang on the documentation.
  unfold capitalized
  dsimp only
  split
  · rw [List.map_singleton, bare_declare]
  · rfl

/-- The types of a group all take the same documentation, and lose it one by one. -/
theorem map_bare_goTypes (source : Bytes) (doc : Option (List Char)) (declaration : Node) :
    (goTypes source doc declaration).map Symbol.bare = goTypes source none declaration := by
  -- Which of the children are types does not hang on the documentation.
  unfold goTypes
  rw [List.map_flatMap]
  congr 1
  funext spec
  split
  · exact map_bare_capitalized _ doc spec source
  · rfl

/-- Go declarations take nothing but a comment from the sibling before them. -/
theorem goRule_readsComment : ReadsComment goRule where
  silent source before node silent := by simp only [goRule, silent, commentBefore_none]
  bare source before node := by
    unfold goRule
    -- Functions, methods and types show the comment; constants and variables never ask for it.
    split
    · rw [map_bare_capitalized, map_bare_capitalized]
    · rw [map_bare_capitalized, map_bare_capitalized]
    · rw [map_bare_goTypes, map_bare_goTypes]
    · rfl
    · rfl
    · rfl

/-- Rust items take nothing but a comment from the sibling before them. -/
theorem rustRule_readsComment : ReadsComment rustRule where
  silent source before node silent := by simp only [rustRule, silent, commentBefore_none]
  bare source before node := by
    unfold rustRule
    -- The modifier and the kind of the item are looked up in the node itself.
    split
    · split
      · rw [List.map_singleton, List.map_singleton, bare_declare, bare_declare]
      · rfl
    · rfl

/-- Gleam definitions take nothing but a comment from the sibling before them. -/
theorem gleamRule_readsComment : ReadsComment gleamRule where
  silent source before node silent := by simp only [gleamRule, silent, commentBefore_none]
  bare source before node := by
    unfold gleamRule
    -- The modifier, the kind and the name are looked up in the node itself.
    split
    · split
      · rw [List.map_singleton, List.map_singleton, bare_declare, bare_declare]
      · rw [List.map_singleton, List.map_singleton, bare_declare, bare_declare]
      · rfl
      · rfl
    · rfl

-- The remaining rules do not even bind the sibling.
/-- Scripts are read without the sibling before a node. -/
theorem scriptRule_unaware : Unaware scriptRule := fun _ _ _ => rfl

/-- Python modules are read without the sibling before a node. -/
theorem pythonRule_unaware : Unaware pythonRule := fun _ _ _ => rfl

/-- Zig files are read without the sibling before a node. -/
theorem zigRule_unaware : Unaware zigRule := fun _ _ _ => rfl

/-- Mojo files are read without the sibling before a node. -/
theorem mojoRule_unaware : Unaware mojoRule := fun _ _ _ => rfl

end Rules

end Rules

namespace Language

/-- The rule for the nodes right below the root, in the languages whose symbols all come of it. -/
def topRule? : Language → Option Rules.TopRule
  | .go => some Rules.goRule
  | .rust => some Rules.rustRule
  | .javascript | .typescript | .tsx => some Rules.scriptRule
  | .python => some Rules.pythonRule
  | .zig => some Rules.zigRule
  | .gleam => some Rules.gleamRule
  | .mojo => some Rules.mojoRule
  | _ => none

/-- The languages among them whose rules look at no sibling. -/
def unaware : List Language :=
  [.javascript, .typescript, .tsx, .python, .zig, .mojo]

section TopRule

variable {language : Language} {rule : Rules.TopRule} (known : language.topRule? = some rule)

include known

/-- The symbols of such a language come from its rule alone. -/
theorem symbols_eq_topLevel (parsing : Parsing) (source : Bytes) (root : Node) :
    language.symbols parsing source root = Rules.topLevel rule source root := by
  cases language <;> cases known <;> rfl

/-- No rule takes more than documentation from the sibling before a node. -/
theorem readsComment_topRule : Rules.ReadsComment rule := by
  cases language with
  | go => cases known; exact Rules.goRule_readsComment
  | rust => cases known; exact Rules.rustRule_readsComment
  | gleam => cases known; exact Rules.gleamRule_readsComment
  -- What looks at no sibling reads no comment in it.
  | javascript | typescript | tsx => cases known; exact Rules.scriptRule_unaware.readsComment
  | python => cases known; exact Rules.pythonRule_unaware.readsComment
  | zig => cases known; exact Rules.zigRule_unaware.readsComment
  | mojo => cases known; exact Rules.mojoRule_unaware.readsComment
  | _ => cases known

/-- The rules of the listed languages look at no sibling. -/
theorem unaware_topRule (blind : language ∈ unaware) : Rules.Unaware rule := by
  -- Go, Rust and Gleam are not among them.
  cases language with
  | javascript | typescript | tsx => cases known; exact Rules.scriptRule_unaware
  | python => cases known; exact Rules.pythonRule_unaware
  | zig => cases known; exact Rules.zigRule_unaware
  | mojo => cases known; exact Rules.mojoRule_unaware
  | _ => exact absurd blind (by decide)

end TopRule

/--
Siblings in two parts have the symbols of the first part, then those of the second.

This fails only behind a comment and where rules read comments, and then only in the documentation
of what the first node of the second part contributes.
-/
theorem symbols_append {language : Language} (known : language.topRule?.isSome = true)
    (parsing : Parsing) (source : Bytes) (root : Node) (front back : List Node) :
    ((language ∈ unaware ∨ ∀ last ∈ front.getLast?, Rules.isComment last = false) →
      language.symbols parsing source (root.withChildren (front ++ back))
        = language.symbols parsing source (root.withChildren front)
          ++ language.symbols parsing source (root.withChildren back))
    ∧ (language.symbols parsing source (root.withChildren (front ++ back))).map Symbol.bare
        = (language.symbols parsing source (root.withChildren front)
          ++ language.symbols parsing source (root.withChildren back)).map Symbol.bare
    ∧ ∀ first rest, back = first :: rest → ∃ seam later,
        language.symbols parsing source (root.withChildren (front ++ back))
            = language.symbols parsing source (root.withChildren front) ++ seam ++ later
          ∧ language.symbols parsing source (root.withChildren back)
            = language.symbols parsing source (root.withChildren [first]) ++ later
          ∧ seam.map Symbol.bare
            = (language.symbols parsing source (root.withChildren [first])).map Symbol.bare := by
  obtain ⟨rule, known⟩ := Option.isSome_iff_exists.mp known
  have reads := readsComment_topRule known
  -- Both parts are read by the same rule, the second one behind the last node of the first.
  simp only [symbols_eq_topLevel known, Rules.topLevel_withChildren, Rules.symbolsBehind_append]
  refine ⟨?_, ?_, ?_⟩
  · intro apart
    rcases apart with blind | plain
    · rw [(unaware_topRule known blind).symbolsBehind_eq source front.getLast? back]
    · rw [reads.symbolsBehind_eq source plain back]
  · rw [List.map_append, List.map_append, reads.map_bare_symbolsBehind source front.getLast? back]
  · intro first rest split
    subst split
    -- The seam is what the first node contributes behind the front; the rest stands behind it.
    refine ⟨rule source front.getLast? first, Rules.symbolsBehind rule source (some first) rest,
      ?_, ?_, ?_⟩
    · rw [Rules.symbolsBehind_cons, List.append_assoc]
    · rw [Rules.symbolsBehind_cons, Rules.symbolsBehind_singleton]
    · rw [Rules.symbolsBehind_singleton, reads.bare source front.getLast? first]

end Language

/-- The text `// t⏎type(A;B)⏎func C`. -/
def groupSource : Bytes :=
  Utf8.encode "// t\ntype(A;B)\nfunc C".toList

/-- The comment on its first line. -/
def groupComment : Node :=
  ⟨"comment", none, 0, 4, 0, []⟩

/-- The group of two types behind it. -/
def groupTypes : Node :=
  ⟨"type_declaration", none, 5, 14, 1,
    [⟨"type_spec", none, 10, 11, 1, [⟨"type_identifier", some "name", 10, 11, 1, []⟩]⟩,
      ⟨"type_spec", none, 12, 13, 1, [⟨"type_identifier", some "name", 12, 13, 1, []⟩]⟩]⟩

/-- The function at its end. -/
def groupFunction : Node :=
  ⟨"function_declaration", none, 15, 21, 2, [⟨"identifier", some "name", 20, 21, 2, []⟩]⟩

/-- The tree of that text. -/
def groupRoot : Node :=
  ⟨"source_file", none, 0, 21, 0, [groupComment, groupTypes, groupFunction]⟩

/-- Parsing of every text to that tree. -/
def groupParsing : Parsing := fun _ _ => ⟨groupRoot, false⟩

/--
A comment documents both types of a group.

Cut off between the two, the types lose it and nothing else; a cut behind the types changes nothing.
-/
theorem Language.symbols_append_group :
    Language.go.symbols groupParsing groupSource groupRoot
        = [⟨.typeAlias, "A", "A", some "// t", 2⟩, ⟨.typeAlias, "B", "B", some "// t", 2⟩,
          ⟨.function, "C", "func C", none, 3⟩]
      ∧ (∃ seam later,
          Language.go.symbols groupParsing groupSource groupRoot = seam ++ later
            ∧ seam.map Symbol.bare
              = [⟨.typeAlias, "A", "A", none, 2⟩, ⟨.typeAlias, "B", "B", none, 2⟩])
      ∧ Language.go.symbols groupParsing groupSource groupRoot
        = Language.go.symbols groupParsing groupSource
            (groupRoot.withChildren [groupComment, groupTypes])
          ++ Language.go.symbols groupParsing groupSource
            (groupRoot.withChildren [groupFunction]) := by
  have whole : Language.go.symbols groupParsing groupSource groupRoot
      = [⟨.typeAlias, "A", "A", some "// t", 2⟩, ⟨.typeAlias, "B", "B", some "// t", 2⟩,
        ⟨.function, "C", "func C", none, 3⟩] := by decide
  have types : Language.go.symbols groupParsing groupSource (groupRoot.withChildren [groupTypes])
      = [⟨.typeAlias, "A", "A", none, 2⟩, ⟨.typeAlias, "B", "B", none, 2⟩] := by decide
  have comment : Language.go.symbols groupParsing groupSource
      (groupRoot.withChildren [groupComment]) = [] := by decide
  have known : Language.go.topRule?.isSome = true := rfl
  refine ⟨whole, ?_, ?_⟩
  · -- The cut is between the comment and the types, so they lose it.
    obtain ⟨_, _, seams⟩ := symbols_append known groupParsing groupSource groupRoot
      [groupComment] [groupTypes, groupFunction]
    obtain ⟨seam, later, cut, _, same⟩ := seams groupTypes [groupFunction] rfl
    rw [comment, List.nil_append] at cut
    rw [types] at same
    exact ⟨seam, later, cut, same⟩
  · -- In front of the function there is no comment, so nothing changes.
    obtain ⟨apart, _⟩ := symbols_append known groupParsing groupSource groupRoot
      [groupComment, groupTypes] [groupFunction]
    exact apart (.inr (by decide))

end Surface
