import Mathlib.Data.List.Infix
import Mathlib.Logic.Relation
import Surface.Proofs.Tree.Places

/-!
The walk as the loop that it is: one cursor, moved down, along and up, one move after the other.
The loop ends on every tree, and it has then visited the nodes of that tree, each before its
children and each once. A tree inside of a larger one is no exception, since a cursor that was made
on its root does not get out of it.
-/

namespace Surface

/-- What the loop tries next. -/
inductive Move where
  /-- The cursor has just come to a node: visit it, and go to its first child. -/
  | down
  /-- The tree of the node is done: go to the sibling just after. -/
  | along
  /-- The node was the last of its siblings: go to the parent. -/
  | up
  deriving DecidableEq, Repr

/-- The loop between two moves: where its cursor is, what it tries next, and what it has visited. -/
structure Tour where
  cursor : Cursor
  move : Move
  visited : List Cursor
  deriving Repr

namespace Tour

/-- The loop before its first move, with a cursor made on a node. -/
def start (node : Node) : Tour :=
  ⟨.ofNode node, .down, []⟩

/--
One move.

A move that fails leaves the cursor where it is, and something else is tried from there. Only when
there is no parent to go to, the loop is over.
-/
def step (tour : Tour) : Option Tour :=
  match tour.move with
  | .down =>
    match tour.cursor.firstChild? with
    | some child => some ⟨child, .down, tour.visited ++ [tour.cursor]⟩
    | none => some ⟨tour.cursor, .along, tour.visited ++ [tour.cursor]⟩
  | .along =>
    match tour.cursor.nextSibling? with
    | some next => some ⟨next, .down, tour.visited⟩
    | none => some ⟨tour.cursor, .up, tour.visited⟩
  | .up =>
    match tour.cursor.parent? with
    | some parent => some ⟨parent, .along, tour.visited⟩
    | none => none

/-- The loop after a number of moves, if it makes that many. -/
def run : Nat → Tour → Option Tour
  | 0, tour => some tour
  | count + 1, tour => tour.step.bind (run count)

/-- One move, and then the others from where it leads. -/
theorem run_of_step {tour next : Tour} (moved : tour.step = some next) (count : Nat) :
    tour.run (count + 1) = next.run count := by
  rw [run, moved, Option.bind_some]

/-- Moves after moves are so many moves together. -/
theorem run_add {tour mid : Tour} {first : Nat} (reached : tour.run first = some mid)
    (second : Nat) : tour.run (first + second) = mid.run second := by
  -- By induction on the moves that come first.
  induction first generalizing tour with
  | zero =>
    cases reached
    rw [Nat.zero_add]
  | succ first ih =>
    obtain ⟨next, moved, later⟩ := Option.bind_eq_some_iff.mp reached
    rw [Nat.succ_add, run_of_step moved, ih later]

/-- At a node with children, the loop goes on at the first of them. -/
theorem step_down_child {node child : Node} {after : List Node} (trail : List Crumb)
    (visited : List Cursor) (children : node.children = child :: after) :
    step ⟨⟨node, trail⟩, .down, visited⟩
      = some ⟨⟨child, ⟨node, [], after⟩ :: trail⟩, .down, visited ++ [⟨node, trail⟩]⟩ := by
  simp [step, Cursor.firstChild?, children]

/-- A node without children is done as soon as it is visited. -/
theorem step_down_leaf {node : Node} (trail : List Crumb) (visited : List Cursor)
    (children : node.children = []) :
    step ⟨⟨node, trail⟩, .down, visited⟩
      = some ⟨⟨node, trail⟩, .along, visited ++ [⟨node, trail⟩]⟩ := by
  simp [step, Cursor.firstChild?, children]

section Siblings

variable (node parent : Node) (before : List Node) (up : List Crumb) (visited : List Cursor)

/-- A sibling that is done is followed by the one just after. -/
theorem step_along_sibling (next : Node) (after : List Node) :
    step ⟨⟨node, ⟨parent, before, next :: after⟩ :: up⟩, .along, visited⟩
      = some ⟨⟨next, ⟨parent, node :: before, after⟩ :: up⟩, .down, visited⟩ :=
  rfl

/-- When the last of the siblings is done, it takes two moves to see that the parent is done. -/
theorem run_along_last :
    run 2 ⟨⟨node, ⟨parent, before, []⟩ :: up⟩, .along, visited⟩
      = some ⟨⟨parent, up⟩, .along, visited⟩ :=
  rfl

end Siblings

/-- At the node that the cursor was made on, there is nothing to go on to, and the loop is over. -/
theorem run_along_root (node : Node) (visited : List Cursor) :
    run 1 ⟨⟨node, []⟩, .along, visited⟩ = some ⟨⟨node, []⟩, .up, visited⟩
      ∧ step ⟨⟨node, []⟩, .up, visited⟩ = none :=
  ⟨rfl, rfl⟩

end Tour

/--
What the loop spends on some nodes.

It comes to each and leaves it, and comes back to those that have children.
-/
def Node.movesAll (nodes : List Node) : Nat :=
  2 * nodes.length + nodes.countP (!·.children.isEmpty)

/-- What the loop spends on the nodes of a tree. -/
def Node.moves (node : Node) : Nat :=
  movesAll node.nodes

/-- Nodes in two parts take the moves of both. -/
theorem Node.movesAll_append (front back : List Node) :
    movesAll (front ++ back) = movesAll front + movesAll back := by
  simp only [movesAll, List.length_append, List.countP_append]
  omega

/-- A node without children takes two moves. -/
theorem Node.moves_leaf {node : Node} (children : node.children = []) : node.moves = 2 := by
  simp [moves, movesAll, nodes_eq, children]

/-- A node with children takes three moves beside theirs. -/
theorem Node.moves_parent {node : Node} (present : node.children ≠ []) :
    node.moves = movesAll (node.children.flatMap nodes) + 3 := by
  have alone : movesAll [node] = 3 := by simp [movesAll, present]
  rw [moves, nodes_eq, ← List.singleton_append, movesAll_append, alone, Nat.add_comm]

namespace Tour

/-- From a node on, the loop visits the places of its tree, and is then done with the node. -/
def Finishes (node : Node) : Prop :=
  ∀ trail visited, ∃ count, count + 1 = node.moves
    ∧ run count ⟨⟨node, trail⟩, .down, visited⟩
      = some ⟨⟨node, trail⟩, .along, visited ++ node.places trail⟩

/-- From one child on, the loop visits all children after it, and is then done with the parent. -/
theorem run_siblings (parent : Node) (trail : List Crumb) (after before : List Node) (child : Node)
    (visited : List Cursor) (finish : ∀ other ∈ child :: after, Finishes other) :
    run (Node.movesAll ((child :: after).flatMap Node.nodes) + 1)
        ⟨⟨child, ⟨parent, before, after⟩ :: trail⟩, .down, visited⟩
      = some ⟨⟨parent, trail⟩, .along,
          visited ++ Node.placesAll parent trail before (child :: after)⟩ := by
  -- By induction on the siblings after the child, each of which is finished before the next.
  induction after generalizing before child visited with
  | nil =>
    obtain ⟨count, spent, reached⟩ := finish child List.mem_cons_self
      (⟨parent, before, []⟩ :: trail) visited
    have total : Node.movesAll ([child].flatMap Node.nodes) + 1 = count + 2 := by
      rw [List.flatMap_singleton, ← Node.moves, ← spent]
    rw [total, run_add reached, run_along_last]
    simp [Node.placesAll]
  | cons next after ih =>
    obtain ⟨count, spent, reached⟩ := finish child List.mem_cons_self
      (⟨parent, before, next :: after⟩ :: trail) visited
    have total : Node.movesAll ((child :: next :: after).flatMap Node.nodes) + 1
        = count + (Node.movesAll ((next :: after).flatMap Node.nodes) + 1 + 1) := by
      rw [List.flatMap_cons, Node.movesAll_append, ← Node.moves, ← spent]
      omega
    rw [total, run_add reached,
      run_of_step (step_along_sibling child parent before trail _ next after),
      ih (child :: before) next _ fun other member => finish other (List.mem_cons_of_mem _ member)]
    simp [Node.placesAll]

/-- The loop visits every tree from its root and comes back there. -/
theorem finishes (node : Node) : Finishes node := by
  induction node using Node.induction with
  | step node ih =>
    intro trail visited
    rw [Node.places_eq]
    cases children : node.children with
    | nil =>
      -- A leaf is visited by the move that leaves it.
      refine ⟨1, (Node.moves_leaf children).symm, ?_⟩
      rw [run_of_step (step_down_leaf trail visited children)]
      simp [run, Node.placesAll]
    | cons child after =>
      -- One move leads to the first child, and one more comes back from the last.
      refine ⟨Node.movesAll ((child :: after).flatMap Node.nodes) + 1 + 1, ?_, ?_⟩
      · rw [Node.moves_parent (by simp [children]), children]
      · rw [run_of_step (step_down_child trail visited children),
          run_siblings node trail after [] child _ fun other member => ih other (children ▸ member)]
        simp

end Tour

namespace Cursor

/-- A place of a tree as it is reached from further up, by a trail that leads to the tree's root. -/
def under (trail : List Crumb) (place : Cursor) : Cursor :=
  ⟨place.node, place.trail ++ trail⟩

/-- Whether a place lies in the tree of another: one parent after the other, it leads up there. -/
def Holds (place inner : Cursor) : Prop :=
  Relation.ReflTransGen (fun upper lower => lower.parent? = some upper) place inner

/-- The places of a tree are the same from further up, at the end of a longer trail. -/
theorem map_under_places (node : Node) (inner outer : List Crumb) :
    (node.places inner).map (under outer) = node.places (inner ++ outer) := by
  induction node using Node.induction generalizing inner with
  | step node ih =>
    -- Each step down goes in front of the trail, whatever the trail goes on with.
    have below : ∀ (children before : List Node), (∀ child ∈ children, child ∈ node.children) →
        (Node.placesAll node inner before children).map (under outer)
          = Node.placesAll node (inner ++ outer) before children := by
      intro children
      induction children with
      | nil => simp [Node.placesAll]
      | cons child after rest =>
        intro before isChild
        simp only [Node.placesAll, List.map_append]
        rw [ih child (isChild child (by simp)), List.cons_append,
          rest (child :: before) fun other member => isChild other (by simp [member])]
    rw [Node.places_eq, Node.places_eq, List.map_cons, below _ _ fun _ member => member]
    rfl

variable {root place inner : Cursor}

/-- The walk of a tree comes through the tree at each of its places in one go. -/
theorem below_infix_below (among : place ∈ root.below) : place.below <:+: root.below := by
  obtain ⟨node, trail⟩ := root
  induction node using Node.induction generalizing trail with
  | step node ih =>
    rw [below_eq, List.mem_cons, List.mem_flatMap] at among
    rcases among with same | ⟨child, isChild, within⟩
    · rw [same]
    · -- The tree lies in that of a child, which is one of the pieces behind the root.
      have deeper := ih child.node (node_of_mem_children isChild) child.trail within
      have piece := List.infix_flatMap_of_mem isChild below
      rw [below_eq ⟨node, trail⟩]
      exact (deeper.trans piece).trans (List.suffix_cons _ _).isInfix

/-- Every place of a tree but its root is that of a child of another place of the tree. -/
theorem exists_of_mem_below (member : inner ∈ place.below) :
    inner = place ∨ ∃ upper ∈ place.below, inner ∈ upper.children := by
  obtain ⟨node, trail⟩ := place
  induction node using Node.induction generalizing trail with
  | step node ih =>
    rw [below_eq, List.mem_cons, List.mem_flatMap] at member
    rcases member with same | ⟨child, isChild, within⟩
    · exact .inl same
    · -- It is the child itself, or has its parent in the tree of the child.
      right
      rw [below_eq]
      rcases ih child.node (node_of_mem_children isChild) child.trail within with
        same | ⟨upper, among, isLower⟩
      · exact ⟨⟨node, trail⟩, List.mem_cons_self, same ▸ isChild⟩
      · have inside := List.mem_flatMap.mpr ⟨child, isChild, among⟩
        exact ⟨upper, List.mem_cons_of_mem _ inside, isLower⟩

/-- A place is among those below it. -/
theorem self_mem_below (place : Cursor) : place ∈ place.below := by
  rw [below_eq]
  exact List.mem_cons_self

/-- The children of a place of a tree are places of that tree. -/
theorem mem_below_of_mem_children (among : place ∈ root.below) (isChild : inner ∈ place.children) :
    inner ∈ root.below := by
  apply (below_infix_below among).subset
  rw [below_eq]
  exact List.mem_cons_of_mem _ (List.mem_flatMap.mpr ⟨inner, isChild, inner.self_mem_below⟩)

end Cursor

/-- The tree at a place has those places of the whole tree that lead up to it, and no others. -/
theorem Node.mem_below_iff_holds {root : Node} {place inner : Cursor}
    (among : place ∈ root.places []) :
    inner ∈ place.below ↔ inner ∈ root.places [] ∧ place.Holds inner := by
  have whole : root.places [] = (Cursor.ofNode root).below := rfl
  rw [whole] at among ⊢
  constructor
  · intro member
    have climbs : ∀ upper : Cursor, place.Holds upper → ∀ child ∈ upper.children,
        place.Holds child :=
      fun upper held child isChild => held.tail (Cursor.parent?_of_mem_children isChild)
    exact ⟨(Cursor.below_infix_below among).subset member,
      Cursor.forall_mem_below .refl climbs inner member⟩
  · rintro ⟨member, held⟩
    -- By the way down: what leads up to a place of the tree is the place of one of its children.
    induction held with
    | refl => exact place.self_mem_below
    | tail _ up ih =>
      rcases Cursor.exists_of_mem_below member with rfl | ⟨upper, higher, isChild⟩
      · cases up
      · rw [Cursor.parent?_of_mem_children isChild, Option.some.injEq] at up
        subst up
        exact Cursor.mem_below_of_mem_children (ih higher) isChild

/--
The loop ends, and it has then visited the nodes of its tree in order, each of them once.

It may be started at any place of a larger tree. The number of its moves is known beforehand. What
it has visited is what the walk comes to: a node before its children, and these in order. Among the
places of the larger tree, these are the ones that lead up to the start, one piece of the walk of
the larger tree, and no two of them are the same.
-/
theorem Tour.ends_in_preorder (root : Node) {place : Cursor} (among : place ∈ root.places []) :
    ∃ last, (start place.node).run place.node.moves = some last ∧ last.step = none
      ∧ last.visited = place.node.walk ∧ last.visited.map Cursor.node = place.node.nodes
      ∧ (last.visited.map (Cursor.under place.trail)).Nodup
      ∧ last.visited.map (Cursor.under place.trail) <:+: root.places []
      ∧ ∀ inner, inner ∈ last.visited.map (Cursor.under place.trail)
        ↔ inner ∈ root.places [] ∧ place.Holds inner := by
  obtain ⟨count, total, reached⟩ := finishes place.node [] []
  obtain ⟨tried, halts⟩ := run_along_root place.node (place.node.places [])
  -- Seen from the larger tree, what was visited is the tree at the place.
  have seen : (place.node.places []).map (Cursor.under place.trail) = place.below :=
    Cursor.map_under_places place.node [] place.trail
  refine ⟨⟨⟨place.node, []⟩, .up, place.node.places []⟩, ?_, halts, ?_, ?_, ?_, ?_, ?_⟩
  · rw [← total]
    exact (run_add reached 1).trans tried
  · exact place.node.walk_eq.symm
  · exact place.node.places_map_node []
  · exact seen ▸ place.nodup_below
  · have piece : place.below <:+: (Cursor.ofNode root).below := Cursor.below_infix_below among
    exact seen ▸ piece
  · intro inner
    rw [seen]
    exact Node.mem_below_iff_holds among

/-- A node with siblings on both sides, a child without children and one with a child. -/
def innerNode : Node :=
  ⟨"list", none, 2, 8, 0,
    [⟨"1", none, 3, 4, 0, []⟩, ⟨"list", none, 5, 7, 0, [⟨"2", none, 6, 7, 0, []⟩]⟩]⟩

/-- The tree around that node. -/
def outerNode : Node :=
  ⟨"module", none, 0, 10, 0, [⟨"0", none, 0, 1, 0, []⟩, innerNode, ⟨"3", none, 9, 10, 0, []⟩]⟩

/-- Started between its siblings, the loop visits the four nodes of the tree and then ends. -/
theorem Tour.ends_in_preorder_between :
    ∃ place ∈ outerNode.places [], place.node = innerNode
      ∧ place.nextSibling?.isSome ∧ place.previous?.isSome
      ∧ ∃ last, (start innerNode).run 10 = some last ∧ last.step = none
        ∧ last.visited.map (·.node.kind) = ["list", "1", "list", "2"] := by
  -- The place is the third one of the walk.
  let place : Cursor := (outerNode.places []).get ⟨2, by decide⟩
  have among : place ∈ outerNode.places [] := List.get_mem _ _
  obtain ⟨last, ended, halts, _, nodes, _⟩ := ends_in_preorder outerNode among
  refine ⟨place, among, rfl, rfl, rfl, last, ended, halts, ?_⟩
  have kinds : last.visited.map (·.node.kind) = (last.visited.map Cursor.node).map (·.kind) := by
    rw [List.map_map]
    rfl
  rw [kinds, nodes]
  rfl

end Surface
