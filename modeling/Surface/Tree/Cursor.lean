import Surface.Tree.Basic

/-! A place in a syntax tree that can be moved, and the walk that visits every node with it. -/

namespace Surface

/-- What lies around a node: its parent, the siblings before it, nearest first, and those after. -/
structure Crumb where
  parent : Node
  before : List Node
  after : List Node
  deriving Repr

/--
A place in a tree.

The trail leads back to the node the cursor was made on, innermost step first.
A cursor never leaves that node's tree: on the node itself the trail is empty.
-/
structure Cursor where
  node : Node
  trail : List Crumb
  deriving Repr

namespace Cursor

/-- A cursor on a node, confined to its tree. -/
def ofNode (node : Node) : Cursor :=
  ⟨node, []⟩

/-- The place of the first child. -/
def firstChild? (cursor : Cursor) : Option Cursor :=
  match cursor.node.children with
  | [] => none
  | child :: after => some ⟨child, ⟨cursor.node, [], after⟩ :: cursor.trail⟩

/-- The place of the sibling just after. -/
def nextSibling? (cursor : Cursor) : Option Cursor :=
  match cursor.trail with
  | ⟨parent, before, next :: after⟩ :: up =>
    some ⟨next, ⟨parent, cursor.node :: before, after⟩ :: up⟩
  | _ => none

/-- The place of the parent. -/
def parent? (cursor : Cursor) : Option Cursor :=
  match cursor.trail with
  | [] => none
  | crumb :: up => some ⟨crumb.parent, up⟩

/-- The sibling just before. -/
def previous? (cursor : Cursor) : Option Node :=
  cursor.trail.head?.bind fun crumb => crumb.before.head?

/-- The number of nodes that the steps of a trail leave for later. -/
def trailSize : List Crumb → Nat
  | [] => 0
  | crumb :: up => Node.sizeAll crumb.after + trailSize up

/-- The number of nodes from a place on, in the order of the walk. -/
def pending (cursor : Cursor) : Nat :=
  cursor.node.size + trailSize cursor.trail

/-- The place after the tree of the current node: the next sibling of it, or of an ancestor. -/
def onward? (cursor : Cursor) : Option Cursor :=
  match cursor.nextSibling? with
  | some next => some next
  | none =>
    match _climb : cursor.parent? with
    | some up => up.onward?
    | none => none
termination_by cursor.trail.length
decreasing_by
  -- Going up takes one step off the trail.
  cases cursor with
  | mk node trail =>
    cases trail with
    | nil => simp [parent?] at _climb
    | cons crumb rest =>
      simp only [parent?, Option.some.injEq] at _climb
      simp [← _climb]

/-- Without a sibling after it, a place goes on where its parent does. -/
theorem onward?_up {cursor : Cursor} (last : cursor.nextSibling? = none) :
    cursor.onward? = cursor.parent?.bind onward? := by
  rw [onward?, last]
  simp only
  split <;> simp_all

/-- The place the walk visits after this one. -/
def next? (cursor : Cursor) : Option Cursor :=
  match cursor.firstChild? with
  | some child => some child
  | none => cursor.onward?

/-- Past a node's tree, only what the trail leaves for later is left. -/
theorem pending_onward? {cursor next : Cursor} (found : cursor.onward? = some next) :
    next.pending ≤ trailSize cursor.trail := by
  induction cursor using onward?.induct with
  | case1 cursor sibling here =>
    -- The sibling was left for later by the innermost step, together with those after it.
    rw [onward?, here] at found
    cases found
    obtain ⟨node, trail⟩ := cursor
    match trail with
    | [] => simp [nextSibling?] at here
    | ⟨parent, before, []⟩ :: up => simp [nextSibling?] at here
    | ⟨parent, before, sibling :: after⟩ :: up =>
      simp only [nextSibling?, Option.some.injEq] at here
      subst here
      simp only [pending, trailSize, Node.sizeAll]
      omega
  | case2 cursor last up climb ih =>
    -- With no sibling left, what the parent leaves for later is all that is left.
    rw [onward?_up last, climb] at found
    have later := ih found
    obtain ⟨node, trail⟩ := cursor
    match trail with
    | [] => simp [parent?] at climb
    | ⟨parent, before, after⟩ :: rest =>
      simp only [parent?, Option.some.injEq] at climb
      subst climb
      simp only [trailSize] at later ⊢
      omega
  | case3 cursor last climb =>
    rw [onward?_up last, climb] at found
    cases found

/-- Every step of the walk leaves fewer nodes to visit. -/
theorem pending_next? {cursor next : Cursor} (found : cursor.next? = some next) :
    next.pending < cursor.pending := by
  obtain ⟨⟨kind, field, start, stop, row, children⟩, trail⟩ := cursor
  cases children with
  | nil =>
    -- A node without children is done, and one node less is left.
    have later := pending_onward? (by simpa [next?, firstChild?] using found)
    simp only [pending, Node.size] at later ⊢
    omega
  | cons child after =>
    -- Going down leaves the node behind and the other children for later.
    simp only [next?, firstChild?, Option.some.injEq] at found
    subst found
    simp only [pending, trailSize, Node.size, Node.sizeAll]
    omega

/-- The places of the walk from one place on: a node before its children, these in order. -/
def visits (cursor : Cursor) : List Cursor :=
  cursor :: match _found : cursor.next? with
    | some next => next.visits
    | none => []
termination_by cursor.pending
decreasing_by exact pending_next? _found

end Cursor

/-- Every place of a tree, in the order of the walk. -/
def Node.walk (node : Node) : List Cursor :=
  (Cursor.ofNode node).visits

end Surface
