import Mathlib.Data.List.Forall2
import Mathlib.Data.List.Nodup
import Surface.Proofs.Tree.Walk

/-! Places and the places of their children, and what is gathered from all places of a tree. -/

namespace Surface

namespace Cursor

/-- How deep a place lies below the node that the cursor was made on. -/
def depth (place : Cursor) : Nat :=
  place.trail.length

/-- The places of the children of a node, from one child on. -/
def childrenFrom (parent : Node) (up : List Crumb) (before : List Node) : List Node → List Cursor
  | [] => []
  | child :: after =>
    ⟨child, ⟨parent, before, after⟩ :: up⟩ :: childrenFrom parent up (child :: before) after

/-- The places of the children, in order. -/
def children (place : Cursor) : List Cursor :=
  childrenFrom place.node place.trail [] place.node.children

/-- The places of the tree at a place, each before those of its children. -/
def below (place : Cursor) : List Cursor :=
  place.node.places place.trail

/--
A sibling that stands just before a place: the parent has it right in front of the node there.

How many siblings come after the place tells the node from equal ones among the siblings.
-/
def Follows (place : Cursor) (sibling : Node) : Prop :=
  ∃ own up front, place.trail = own :: up
    ∧ own.parent.children = front ++ sibling :: place.node :: own.after

/-- A place whose last step has all siblings of the node there, on both sides of it. -/
def Settled (place : Cursor) : Prop :=
  ∀ own up, place.trail = own :: up →
    own.parent.children = own.before.reverse ++ place.node :: own.after

section Siblings

variable (parent : Node) (up : List Crumb) (before siblings : List Node)

/-- The places of siblings are those below each of them. -/
theorem placesAll_eq :
    Node.placesAll parent up before siblings
      = (childrenFrom parent up before siblings).flatMap below := by
  -- Sibling by sibling, each one is passed before the next.
  induction siblings generalizing before with
  | nil => rfl
  | cons child after ih =>
    rw [Node.placesAll, ih, childrenFrom, List.flatMap_cons]
    rfl

/-- The places of siblings have these siblings as their nodes. -/
theorem childrenFrom_map_node :
    (childrenFrom parent up before siblings).map Cursor.node = siblings := by
  induction siblings generalizing before with
  | nil => rfl
  | cons child after ih => rw [childrenFrom, List.map_cons, ih]

/-- The sibling just before is the first of those that were passed, which come nearest first. -/
theorem childrenFrom_map_previous :
    (childrenFrom parent up before siblings).map (fun child => (child.previous?, child.node))
      = Node.withPrevious before.head? siblings := by
  -- A sibling that is passed is put in front of those before it.
  induction siblings generalizing before with
  | nil => rfl
  | cons child after ih =>
    rw [childrenFrom, List.map_cons, ih, Node.withPrevious]
    rfl

/-- A child is one of the siblings, and the step to it has those before and those after it. -/
theorem exists_of_mem_childrenFrom {child : Cursor}
    (member : child ∈ childrenFrom parent up before siblings) :
    ∃ front after, siblings = front ++ child.node :: after
      ∧ child.trail = ⟨parent, front.reverse ++ before, after⟩ :: up := by
  -- Passing a sibling moves it from those to come to those passed, which are nearest first.
  induction siblings generalizing before with
  | nil => simp [childrenFrom] at member
  | cons sibling after ih =>
    rcases List.mem_cons.mp member with same | later
    · exact ⟨[], after, by rw [same]; rfl, by rw [same]; rfl⟩
    · obtain ⟨front, rest, split, trail⟩ := ih (sibling :: before) later
      exact ⟨sibling :: front, rest, by rw [split]; rfl, by simpa using trail⟩

/-- Different children are reached on different ways, even where the nodes are equal. -/
theorem childrenFrom_pairwise_trail :
    (childrenFrom parent up before siblings).Pairwise
      (fun one other => one.trail ≠ other.trail) := by
  induction siblings generalizing before with
  | nil => exact .nil
  | cons sibling after ih =>
    apply List.Pairwise.cons
    · -- The first child leaves all the others for later, and each of these leaves fewer.
      intro other later same
      obtain ⟨front, rest, split, trail⟩ := exists_of_mem_childrenFrom parent up _ after later
      rw [trail] at same
      obtain ⟨crumbs, _⟩ := List.cons.inj same
      have equal : after.length = rest.length := congrArg (·.after.length) crumbs
      have fewer := congrArg List.length split
      simp only [List.length_append, List.length_cons] at fewer
      omega
    · exact ih (sibling :: before)

end Siblings

variable (place : Cursor)

/-- The tree at a place is the place itself, then the trees at its children. -/
theorem below_eq : place.below = place :: place.children.flatMap below := by
  rw [below, Node.places_eq, placesAll_eq]
  rfl

/-- What is gathered from a tree comes from its root first, then from the trees of the children. -/
theorem flatMap_below {α : Type} (gather : Cursor → List α) :
    place.below.flatMap gather
      = gather place ++ place.children.flatMap fun child => child.below.flatMap gather := by
  rw [below_eq, List.flatMap_cons, List.flatMap_assoc]

/-- What is gathered from the children is gathered from their places. -/
theorem flatMap_children {α : Type} (gather : Node → List α) :
    (place.children.flatMap fun child => gather child.node)
      = place.node.children.flatMap gather := by
  rw [← childrenFrom_map_node place.node place.trail [] place.node.children, List.flatMap_map]
  rfl

/-- What is gathered from the children, each with the sibling before it, as well. -/
theorem flatMap_withPrevious {α : Type} (gather : Option Node → Node → List α) :
    (place.children.flatMap fun child => gather child.previous? child.node)
      = (Node.withPrevious none place.node.children).flatMap
          fun (before, node) => gather before node := by
  -- The places of the children come with what is before them in the tree.
  have pairs := childrenFrom_map_previous place.node place.trail [] place.node.children
  rw [List.head?_nil] at pairs
  rw [← pairs, List.flatMap_map]
  rfl

variable {place}

/-- A child is one step further down than its parent. -/
theorem trail_of_mem_children {child : Cursor} (member : child ∈ place.children) :
    ∃ before after, child.trail = ⟨place.node, before, after⟩ :: place.trail := by
  obtain ⟨front, after, _, trail⟩ := exists_of_mem_childrenFrom _ _ _ _ member
  exact ⟨_, after, trail⟩

/-- The step to a child has all the other children, on both sides of it. -/
theorem settled_of_mem_children {child : Cursor} (member : child ∈ place.children) :
    child.Settled := by
  obtain ⟨front, after, split, trail⟩ := exists_of_mem_childrenFrom _ _ _ _ member
  -- The trail of a child starts with the step to it, so there is only that one.
  intro own up same
  rw [trail] at same
  cases same
  simpa using split

/-- A child lies one step deeper. -/
theorem depth_of_mem_children {child : Cursor} (member : child ∈ place.children) :
    child.depth = place.depth + 1 := by
  obtain ⟨before, after, trail⟩ := trail_of_mem_children member
  simp only [depth, trail, List.length_cons]

/-- The node of a child is a child of the node. -/
theorem node_of_mem_children {child : Cursor} (member : child ∈ place.children) :
    child.node ∈ place.node.children := by
  rw [← childrenFrom_map_node place.node place.trail [] place.node.children]
  exact List.mem_map_of_mem member

/-- One step of the trail leads to the parent, and the others lead on from there. -/
theorem parent?_eq_some_iff {up : Cursor} :
    place.parent? = some up ↔ ∃ own, own.parent = up.node ∧ place.trail = own :: up.trail := by
  -- A root has no step to take back, and any other place has a first one.
  obtain ⟨node, trail⟩ := place
  obtain ⟨parent, rest⟩ := up
  cases trail with
  | nil => simp [parent?]
  | cons own trail => simp [parent?]

/-- A parent lies one step higher. -/
theorem depth_of_parent? {up : Cursor} (found : place.parent? = some up) :
    place.depth = up.depth + 1 := by
  obtain ⟨own, _, trail⟩ := parent?_eq_some_iff.mp found
  simp only [depth, trail, List.length_cons]

/-- The parent of a child is where it was found. -/
theorem parent?_of_mem_children {child : Cursor} (member : child ∈ place.children) :
    child.parent? = some place := by
  obtain ⟨before, after, trail⟩ := trail_of_mem_children member
  exact parent?_eq_some_iff.mpr ⟨⟨place.node, before, after⟩, rfl, trail⟩

/-- What holds at a place and passes on to children holds at all places of the tree there. -/
theorem forall_mem_below {motive : Cursor → Prop} (start : motive place)
    (step : ∀ above : Cursor, motive above → ∀ child ∈ above.children, motive child) :
    ∀ inner ∈ place.below, motive inner := by
  -- By the node at the place, since the trees of its children are smaller.
  obtain ⟨node, trail⟩ := place
  induction node using Node.induction generalizing trail with
  | step node ih =>
    intro inner member
    rw [below_eq, List.mem_cons, List.mem_flatMap] at member
    rcases member with same | ⟨child, isChild, within⟩
    · exact same ▸ start
    · exact ih child.node (node_of_mem_children isChild) child.trail (step _ start child isChild)
        inner within

/-- The way to a place of a tree leads through the root of the tree. -/
theorem trail_suffix_of_mem_below {inner : Cursor} (member : inner ∈ place.below) :
    place.trail <:+ inner.trail := by
  -- A step down is put in front of the steps so far.
  have step : ∀ above : Cursor, place.trail <:+ above.trail → ∀ child ∈ above.children,
      place.trail <:+ child.trail := by
    intro above passed child isChild
    obtain ⟨before, after, trail⟩ := trail_of_mem_children isChild
    rw [trail]
    exact passed.trans (List.suffix_cons _ above.trail)
  exact forall_mem_below List.suffix_rfl step inner member

/-- No place of a tree lies above its root. -/
theorem depth_le_of_mem_below {inner : Cursor} (member : inner ∈ place.below) :
    place.depth ≤ inner.depth :=
  (trail_suffix_of_mem_below member).length_le

/-- All places of a tree are settled, if its root is. -/
theorem settled_of_mem_below (settled : place.Settled) {inner : Cursor}
    (member : inner ∈ place.below) : inner.Settled :=
  forall_mem_below settled (fun _ _ _ isChild => settled_of_mem_children isChild) inner member

/-- At a settled place, the sibling just before is the one that the parent has there. -/
theorem Settled.previous?_eq_some_iff (settled : place.Settled) {sibling : Node} :
    place.previous? = some sibling ↔ place.Follows sibling := by
  obtain ⟨node, trail⟩ := place
  cases trail with
  | nil => simp [previous?, Follows]
  | cons own up =>
    have whole : own.parent.children = own.before.reverse ++ node :: own.after :=
      settled own up rfl
    simp only [previous?, List.head?_cons, Option.bind_some]
    constructor
    · -- The siblings passed are kept nearest first, so the first of them is the one just before.
      intro first
      obtain ⟨before, passed⟩ := List.head?_eq_some_iff.mp first
      exact ⟨own, up, before.reverse, rfl, by simpa [passed] using whole⟩
    · intro follows
      obtain ⟨_, _, front, same, children⟩ := follows
      cases same
      -- What comes after the node is known, so what comes before it is the same on both sides.
      have split : own.before.reverse ++ (node :: own.after)
          = (front ++ [sibling]) ++ (node :: own.after) := by
        rw [← whole, children]
        simp
      have passed := congrArg List.reverse (List.append_cancel_right split)
      rw [List.reverse_reverse] at passed
      simp [passed]

/-- Where nothing is to be had from some depth on, only the root of a tree gives anything. -/
theorem flatMap_below_of_silent {α : Type} {gather : Cursor → List α}
    (silent : ∀ inner : Cursor, place.depth < inner.depth → gather inner = []) :
    place.below.flatMap gather = gather place := by
  -- Every other place is below a child, and so deeper than the root.
  rw [flatMap_below, List.append_right_eq_self, List.flatMap_eq_nil_iff]
  intro child isChild
  rw [List.flatMap_eq_nil_iff]
  intro inner within
  have deeper := depth_of_mem_children isChild
  have under := depth_le_of_mem_below within
  exact silent inner (by omega)

end Cursor

/-- No two of the places of a tree are the same, even where equal nodes stand in several of them. -/
theorem Cursor.nodup_below (place : Cursor) : place.below.Nodup := by
  -- By the node at the place: it lies above its children, and their trees are apart.
  obtain ⟨node, trail⟩ := place
  induction node using Node.induction generalizing trail with
  | step node ih =>
    rw [below_eq, List.nodup_cons, List.nodup_flatMap]
    refine ⟨?_, ?_, ?_⟩
    · -- The place itself lies above all places of its children.
      intro member
      obtain ⟨child, isChild, within⟩ := List.mem_flatMap.mp member
      have under := depth_le_of_mem_below within
      have deeper := depth_of_mem_children isChild
      omega
    · intro child isChild
      exact ih child.node (node_of_mem_children isChild) child.trail
    · -- A place of two children would be reached on the ways of both, which are equally long.
      have apart : (children ⟨node, trail⟩).Pairwise (fun one other => one.trail ≠ other.trail) :=
        childrenFrom_pairwise_trail node trail [] node.children
      apply apart.imp_of_mem
      intro one other isOne isOther differ
      apply List.disjoint_left.mpr
      intro inner inOne inOther
      apply differ
      have equal : one.trail.length = other.trail.length :=
        (depth_of_mem_children isOne).trans (depth_of_mem_children isOther).symm
      have within := List.suffix_of_suffix_length_le (trail_suffix_of_mem_below inOne)
        (trail_suffix_of_mem_below inOther) (Nat.le_of_eq equal)
      exact within.eq_of_length equal

/-- The walk of a tree has every place once. -/
theorem Node.nodup_places (root : Node) : (root.places []).Nodup :=
  Cursor.nodup_below (Cursor.ofNode root)

/-- No step leads to the root of a tree, so it is settled. -/
theorem Cursor.settled_ofNode (root : Node) : (Cursor.ofNode root).Settled := by
  intro own up trail
  cases trail

/-- All places of a tree are settled. -/
theorem Node.settled_of_mem_places {root : Node} {place : Cursor}
    (member : place ∈ root.places []) : place.Settled :=
  Cursor.settled_of_mem_below (Cursor.settled_ofNode root) member

/-- Above a place of a tree, too, there are only settled places. -/
theorem Node.settled_of_parent? {root : Node} {place : Cursor} (member : place ∈ root.places [])
    {up : Cursor} (found : place.parent? = some up) : up.Settled := by
  let both : Cursor → Prop := fun place =>
    place.Settled ∧ ∀ up, place.parent? = some up → up.Settled
  have start : both (Cursor.ofNode root) :=
    ⟨Cursor.settled_ofNode root, fun up found => by cases found⟩
  -- The parent of a child is the place above, so being settled passes on one step late.
  have step : ∀ above : Cursor, both above → ∀ child ∈ above.children, both child := by
    intro above settled child isChild
    refine ⟨Cursor.settled_of_mem_children isChild, fun up found => ?_⟩
    rw [Cursor.parent?_of_mem_children isChild] at found
    exact Option.some.inj found ▸ settled.1
  exact (Cursor.forall_mem_below start step place member).2 up found

section Chosen

variable {α β : Type} {chosen : α → Prop} [DecidablePred chosen] {relation : α → β → Prop}
  {gather : α → List β}

/-- Where each chosen item gives one result and any other gives none, the results come in order. -/
theorem forall₂_filter_flatMap_of_mem {items : List α}
    (one : ∀ item ∈ items, chosen item → ∃ result, gather item = [result] ∧ relation item result)
    (silent : ∀ item ∈ items, ¬ chosen item → gather item = []) :
    List.Forall₂ relation (items.filter chosen) (items.flatMap gather) := by
  -- Item by item: a chosen one adds to both sides, and any other adds to neither.
  induction items with
  | nil => exact .nil
  | cons item items ih =>
    have later := ih (fun other member => one other (List.mem_cons_of_mem _ member))
      (fun other member => silent other (List.mem_cons_of_mem _ member))
    by_cases isChosen : chosen item
    · obtain ⟨result, given, related⟩ := one item List.mem_cons_self isChosen
      simpa [isChosen, given] using ⟨related, later⟩
    · simpa [isChosen, silent item List.mem_cons_self isChosen] using later

/-- As above, where what an item gives does not depend on the list it is in. -/
theorem forall₂_filter_flatMap
    (one : ∀ item, chosen item → ∃ result, gather item = [result] ∧ relation item result)
    (silent : ∀ item, ¬ chosen item → gather item = []) (items : List α) :
    List.Forall₂ relation (items.filter chosen) (items.flatMap gather) :=
  forall₂_filter_flatMap_of_mem (fun item _ => one item) (fun item _ => silent item)

end Chosen

end Surface
