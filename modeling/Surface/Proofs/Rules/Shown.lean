import Surface.Proofs.Text.Blank
import Surface.Proofs.Text.Line
import Surface.Proofs.Tree.Places
import Surface.Rules.Basic

/-!
What a symbol shows of the node that it stands for.
It is said of the texts and the siblings in the tree alone: which child is the first to qualify,
what the first line is without blanks around it, and which comment stands just before.
-/

namespace Surface.Rules

/-- The first of some nodes that qualifies. -/
def First (qualifies : Node → Prop) (nodes : List Node) (node : Node) : Prop :=
  ∃ front back, nodes = front ++ node :: back ∧ qualifies node
    ∧ ∀ other ∈ front, ¬ qualifies other

/-- A node that stands in a role below its parent. -/
def InRole (field : String) (node : Node) : Prop :=
  node.field = some field

/-- A node of one of several kinds. -/
def OfKind (kinds : List String) (node : Node) : Prop :=
  node.kind ∈ kinds

/-- The text of the first of some nodes that qualifies, and no text where none does. -/
inductive TextOfFirst (source : Bytes) (qualifies : Node → Prop) (nodes : List Node) :
    List Char → Prop where
  | found {node : Node} : First qualifies nodes node →
    TextOfFirst source qualifies nodes (node.text source)
  | missing : (∀ node ∈ nodes, ¬ qualifies node) → TextOfFirst source qualifies nodes []

/-- The first line of the text of a node, without blanks around it. -/
def Headlined (source : Bytes) (node : Node) (line : List Char) : Prop :=
  ∃ first, Text.IsFirstLine (node.text source) first ∧ Text.Strips Text.isBlank first line

/-- The kinds of nodes that are comments, in the grammars of all languages. -/
inductive CommentKind : String → Prop where
  | plain : CommentKind "comment"
  | line : CommentKind "line_comment"
  | block : CommentKind "block_comment"
  | doc : CommentKind "doc_comment"
  | statement : CommentKind "statement_comment"

/-- Documentation that is the text of a comment just before a place, and absent where none is. -/
def CommentedAt (source : Bytes) (place : Cursor) (doc : Option String) : Prop :=
  ∀ text, doc = some text ↔ ∃ sibling, place.Follows sibling ∧ CommentKind sibling.kind
    ∧ Text.Strips Text.isBlank (sibling.text source) text.toList

/-- A symbol that shows how a node starts, and on which line. -/
structure Shown (source : Bytes) (node : Node) (symbol : Symbol) : Prop where
  signature : Headlined source node symbol.signature.toList
  line : symbol.line = node.row + 1

section Children

variable {source : Bytes} {node child : Node}

/-- A search finds the first node that qualifies. -/
theorem find?_eq_some_iff_first {test : Node → Bool} {qualifies : Node → Prop}
    (same : ∀ node, test node = true ↔ qualifies node) {nodes : List Node} :
    nodes.find? test = some node ↔ First qualifies nodes node := by
  -- The nodes are cut at the one that is found, and none in front of it passes the test.
  simp only [List.find?_eq_some_iff_append, First, ← same]
  constructor
  · rintro ⟨passes, front, back, cut, others⟩
    exact ⟨front, back, cut, passes, fun other among => by simpa using others other among⟩
  · rintro ⟨front, back, cut, passes, others⟩
    exact ⟨passes, front, back, cut, fun other among => by simpa using others other among⟩

/-- A child is looked up by its role as the first that has it. -/
theorem childAt?_eq_some_iff {field : String} :
    node.childAt? field = some child ↔ First (InRole field) node.children child :=
  find?_eq_some_iff_first fun _ => by simp [InRole]

/-- A child is looked up by its kind as the first that has one of the kinds. -/
theorem childOf?_eq_some_iff {kinds : List String} :
    node.childOf? kinds = some child ↔ First (OfKind kinds) node.children child :=
  find?_eq_some_iff_first fun _ => by simp [OfKind]

/-- The text of what a search finds is the text of the first node that qualifies. -/
theorem textOfFirst_iff {test : Node → Bool} {qualifies : Node → Prop}
    (same : ∀ node, test node = true ↔ qualifies node) {nodes : List Node} {text : List Char} :
    TextOfFirst source qualifies nodes text
      ↔ text = ((nodes.find? test).map (·.text source)).getD [] := by
  constructor
  · intro holds
    cases holds with
    | found first => rw [(find?_eq_some_iff_first same).mpr first]; rfl
    | missing absent =>
      have nothing : nodes.find? test = none := by
        simpa only [List.find?_eq_none, same] using absent
      rw [nothing]
      rfl
  · intro given
    subst given
    -- The search ends at a node that qualifies, or none does.
    cases answer : nodes.find? test with
    | none => exact .missing (by simpa only [List.find?_eq_none, same] using answer)
    | some node => exact .found ((find?_eq_some_iff_first same).mp answer)

/-- The text in a role is that of the first child that has the role. -/
theorem textOfFirst_inRole_iff {field : String} {text : List Char} :
    TextOfFirst source (InRole field) node.children text ↔ text = node.fieldText field source := by
  have same : ∀ child : Node, (child.field == some field) = true ↔ InRole field child := by
    simp [InRole]
  -- Without such a child, both texts are empty.
  rw [textOfFirst_iff same]
  unfold Node.fieldText Node.childAt?
  cases node.children.find? fun child => child.field == some field <;> rfl

/-- The text of some kinds is that of the first child that has one of the kinds. -/
theorem textOfFirst_ofKind_iff {kinds : List String} {text : List Char} :
    TextOfFirst source (OfKind kinds) node.children text ↔ text = childText node kinds source := by
  have same : ∀ child : Node, kinds.contains child.kind = true ↔ OfKind kinds child := by
    simp [OfKind]
  -- Without such a child, both texts are empty.
  rw [textOfFirst_iff same]
  unfold childText Node.childOf?
  cases node.children.find? fun child => kinds.contains child.kind <;> rfl

end Children

section Symbols

variable {source : Bytes} {place : Cursor}

/-- The headline of a node is its first line without blanks around it. -/
theorem headlined_headline (source : Bytes) (node : Node) :
    Headlined source node (node.headline source) :=
  ⟨_, Text.isFirstLine_firstLine _, Text.strips_trim _⟩

/-- A node is a comment when its kind is one of the five. -/
theorem isComment_iff {node : Node} : isComment node = true ↔ CommentKind node.kind := by
  unfold isComment commentKinds
  generalize node.kind = kind
  simp only [List.contains_eq_mem, decide_eq_true_eq, List.mem_cons, List.not_mem_nil, or_false]
  -- The kinds of the table are those of the cases, in their order.
  constructor
  · rintro (rfl | rfl | rfl | rfl | rfl)
    · exact .plain
    · exact .line
    · exact .block
    · exact .doc
    · exact .statement
  · intro comment
    cases comment <;> simp

/-- A comment is seen exactly where it stands just before. -/
theorem commentBefore_eq_some_iff {before : Option Node} {text : List Char} :
    commentBefore source before = some text ↔ ∃ sibling, before = some sibling
      ∧ CommentKind sibling.kind ∧ Text.Strips Text.isBlank (sibling.text source) text := by
  cases before with
  | none => simp [commentBefore]
  | some node =>
    -- The sibling is a comment and its text is taken, or it is not and nothing is.
    simp only [commentBefore, ← isComment_iff, Option.some.injEq, exists_eq_left', Text.strips_iff]
    by_cases comment : isComment node = true
    · simp only [comment, if_true, Option.some.injEq, true_and]
      exact eq_comm
    · simp [comment]

/-- What is known of the characters that are found is known of the text that they make. -/
theorem map_ofList_eq_some_iff {found : Option (List Char)} {holds : List Char → Prop}
    (same : ∀ content, found = some content ↔ holds content) (text : String) :
    found.map String.ofList = some text ↔ holds text.toList := by
  -- Characters and the text that they make stand for each other.
  rw [← same, Option.map_eq_some_iff]
  constructor
  · rintro ⟨content, given, rfl⟩
    rw [given, String.toList_ofList]
  · intro given
    exact ⟨text.toList, given, String.ofList_toList⟩

/-- At a settled place, the comment that a rule sees is the one that stands there in the tree. -/
theorem commentedAt_of_settled (settled : place.Settled) :
    CommentedAt source place ((commentBefore source place.previous?).map String.ofList) := by
  -- The sibling that the walk comes from is the one that the parent has there.
  have seen : ∀ content, commentBefore source place.previous? = some content ↔ ∃ sibling,
      place.Follows sibling ∧ CommentKind sibling.kind
        ∧ Text.Strips Text.isBlank (sibling.text source) content := by
    simp only [commentBefore_eq_some_iff, settled.previous?_eq_some_iff, implies_true]
  exact map_ofList_eq_some_iff seen

/-- A symbol made of a node shows how the node starts, and on which line. -/
theorem shown_declare (kind : Kind) (name : List Char) (doc : Option (List Char)) (node : Node)
    (source : Bytes) : Shown source node (declare kind name doc node source) where
  signature := by
    rw [declare, String.toList_ofList]
    exact headlined_headline source node
  line := rfl

end Symbols

end Surface.Rules
