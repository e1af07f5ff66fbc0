import Surface.Tree.Basic

/-! Syntax trees written as a flat list of nodes, each before its children and with its depth. -/

namespace Surface

/-- A node without its children, and how deep it lies. -/
structure ListedNode where
  depth : Nat
  kind : String
  field : Option String
  start : Nat
  stop : Nat
  row : Nat
  deriving DecidableEq, Repr

namespace ListedNode

/-- A node put in front of the trees that follow it; the deeper ones become its children. -/
def plant (listed : ListedNode) (after : List (Nat × Node)) : List (Nat × Node) :=
  let deeper := fun (tree : Nat × Node) => decide (listed.depth < tree.1)
  let children := (after.takeWhile deeper).map (·.2)
  (listed.depth, ⟨listed.kind, listed.field, listed.start, listed.stop, listed.row, children⟩)
    :: after.dropWhile deeper

/-- The trees that a list of nodes describes, each with the depth of its root. -/
def forest (listing : List ListedNode) : List (Nat × Node) :=
  listing.foldr plant []

end ListedNode

/-- The root that a list of nodes describes, with all the nodes that follow it below it. -/
def Node.ofListing? (listing : List ListedNode) : Option Node :=
  (ListedNode.forest listing).head?.map (·.2)

end Surface
