import Surface.Tree.Cursor

/-! The walk of a tree: it comes to every node once, and to a node before its children. -/

namespace Surface

namespace Node

/-- The trees of several nodes have the nodes of each. -/
theorem size_le_sizeAll {node : Node} {siblings : List Node} (member : node ∈ siblings) :
    node.size ≤ sizeAll siblings := by
  induction siblings with
  | nil => simp at member
  | cons sibling siblings ih =>
    simp only [sizeAll]
    -- The node is the first of the trees or in one of those after it.
    rcases List.mem_cons.mp member with same | later
    · subst same
      omega
    · have bound := ih later
      omega

/-- A child has a smaller tree than its parent. -/
theorem size_lt_of_mem {node child : Node} (member : child ∈ node.children) :
    child.size < node.size := by
  have bound := size_le_sizeAll member
  rw [size_eq node]
  omega

/-- What holds of a node as soon as it holds of its children holds of every node. -/
@[elab_as_elim] theorem induction {motive : Node → Prop}
    (step : ∀ node : Node, (∀ child ∈ node.children, motive child) → motive node) (node : Node) :
    motive node :=
  -- The children of a node are in a nested list, so the size of the trees is what goes down.
  step node fun child _member => induction step child
termination_by node.size
decreasing_by exact size_lt_of_mem _member

mutual

/-- A node and all nodes below it, each before its children. -/
def nodes : Node → List Node
  | ⟨kind, field, start, stop, row, children⟩ =>
    ⟨kind, field, start, stop, row, children⟩ :: nodesAll children

/-- The nodes of several trees, one tree after the other. -/
def nodesAll : List Node → List Node
  | [] => []
  | node :: rest => node.nodes ++ nodesAll rest

end

/-- The nodes of siblings are those of each of them. -/
theorem nodesAll_eq (siblings : List Node) : nodesAll siblings = siblings.flatMap nodes := by
  induction siblings with
  | nil => rfl
  | cons node siblings ih => simp [nodesAll, ih]

/-- A tree has its root, then the trees of the children. -/
theorem nodes_eq (node : Node) : node.nodes = node :: node.children.flatMap nodes := by
  rw [← nodesAll_eq]
  cases node
  rfl

/-- A node of a tree is its root or a node of a child's tree. -/
theorem mem_nodes {node other : Node} :
    other ∈ node.nodes ↔ other = node ∨ ∃ child ∈ node.children, other ∈ child.nodes := by
  rw [nodes_eq, List.mem_cons, List.mem_flatMap]

/-- A node is in its own tree. -/
theorem self_mem_nodes (node : Node) : node ∈ node.nodes :=
  mem_nodes.mpr (.inl rfl)

/-- What is in the tree of a child is in the tree of its parent. -/
theorem mem_nodes_of_child {node child other : Node} (member : child ∈ node.children)
    (below : other ∈ child.nodes) : other ∈ node.nodes :=
  mem_nodes.mpr (.inr ⟨child, member, below⟩)

/-- A child is in the tree of its node. -/
theorem child_mem_nodes {node child : Node} (member : child ∈ node.children) :
    child ∈ node.nodes :=
  mem_nodes_of_child member child.self_mem_nodes

/-- What is in the tree of a node of a tree is in that tree. -/
theorem mem_nodes_trans {node inner other : Node} (member : inner ∈ node.nodes)
    (below : other ∈ inner.nodes) : other ∈ node.nodes := by
  -- The inner node is the root, or it is in the tree of a child.
  induction node using induction with
  | step node ih =>
    rcases mem_nodes.mp member with same | ⟨child, isChild, deeper⟩
    · subst same
      exact below
    · exact mem_nodes_of_child isChild (ih child isChild deeper)

mutual

/-- The places of a tree whose root is reached by a trail, each before those of its children. -/
def places (trail : List Crumb) : Node → List Cursor
  | ⟨kind, field, start, stop, row, children⟩ =>
    let node := ⟨kind, field, start, stop, row, children⟩
    ⟨node, trail⟩ :: placesAll node trail [] children

/-- The places in the trees of a node's children, from one child on. -/
def placesAll (parent : Node) (up : List Crumb) (before : List Node) : List Node → List Cursor
  | [] => []
  | child :: after =>
    child.places (⟨parent, before, after⟩ :: up) ++ placesAll parent up (child :: before) after

end

/-- The place of a root comes before the places of its children. -/
theorem places_eq (node : Node) (trail : List Crumb) :
    node.places trail = ⟨node, trail⟩ :: placesAll node trail [] node.children := by
  cases node
  rfl

/-- The places of a tree are those of its nodes, in the same order. -/
theorem places_map_node (node : Node) (trail : List Crumb) :
    (node.places trail).map Cursor.node = node.nodes := by
  induction node using induction generalizing trail with
  | step node ih =>
    -- The siblings already passed are part of the trail, but not of the nodes.
    have below : ∀ (before children : List Node), (∀ child ∈ children, child ∈ node.children) →
        (placesAll node trail before children).map Cursor.node = children.flatMap nodes := by
      intro before children
      induction children generalizing before with
      | nil => simp [placesAll]
      | cons child after inner =>
        intro isChild
        simp only [placesAll, List.map_append, List.flatMap_cons]
        rw [ih child (isChild child (by simp)),
          inner (child :: before) fun other member => isChild other (by simp [member])]
    rw [places_eq, nodes_eq, List.map_cons, below [] node.children fun _ member => member]

end Node

namespace Cursor

/-- The walk goes on at the next place. -/
theorem visits_eq (cursor : Cursor) : cursor.visits = cursor :: cursor.next?.elim [] visits := by
  rw [visits]
  split <;> simp_all

/-- From the last sibling on, the walk goes on after the parent. -/
theorem onward?_last (node parent : Node) (before : List Node) (up : List Crumb) :
    onward? ⟨node, ⟨parent, before, []⟩ :: up⟩ = onward? ⟨parent, up⟩ := by
  rw [onward?_up rfl]
  rfl

/-- From any other sibling on, the walk goes on at the one just after. -/
theorem onward?_sibling (node parent next : Node) (before after : List Node) (up : List Crumb) :
    onward? ⟨node, ⟨parent, before, next :: after⟩ :: up⟩
      = some ⟨next, ⟨parent, node :: before, after⟩ :: up⟩ := by
  rw [onward?]
  rfl

/-- From a place on, the walk first comes to the places of that node's tree. -/
theorem visits_eq_places (node : Node) (trail : List Crumb) :
    visits ⟨node, trail⟩ = node.places trail ++ (onward? ⟨node, trail⟩).elim [] visits := by
  induction node using Node.induction generalizing trail with
  | step node ih =>
    -- From one child on, the walk comes to the trees of that child and of those after it.
    have below : ∀ (after before : List Node) (child : Node),
        (∀ other ∈ child :: after, other ∈ node.children) →
        visits ⟨child, ⟨node, before, after⟩ :: trail⟩
          = Node.placesAll node trail before (child :: after)
            ++ (onward? ⟨node, trail⟩).elim [] visits := by
      intro after
      induction after with
      | nil =>
        intro before child isChild
        rw [ih child (isChild child (by simp)), onward?_last]
        simp [Node.placesAll]
      | cons next after inner =>
        intro before child isChild
        rw [ih child (isChild child (by simp)), onward?_sibling, Option.elim_some,
          inner (child :: before) next fun other member => isChild other (by simp [member])]
        simp [Node.placesAll]
    -- The first step goes down to the first child, if there is one.
    rw [visits_eq, Node.places_eq]
    cases children : node.children with
    | nil => simp [next?, firstChild?, children, Node.placesAll]
    | cons child after =>
      have walked := below after [] child (by simp [children])
      simp [next?, firstChild?, children, walked]

end Cursor

/-- The walk comes to the places of the tree, in order. -/
theorem Node.walk_eq (node : Node) : node.walk = node.places [] := by
  -- Behind the tree of the root there is nothing to go on to.
  have ended : Cursor.onward? ⟨node, []⟩ = none := by
    rw [Cursor.onward?_up rfl]
    rfl
  rw [walk, Cursor.ofNode, Cursor.visits_eq_places, ended]
  simp

/-- The walk comes to the nodes of the tree, in order. -/
theorem Node.walk_map_node (node : Node) : node.walk.map Cursor.node = node.nodes := by
  rw [walk_eq, places_map_node]

end Surface
