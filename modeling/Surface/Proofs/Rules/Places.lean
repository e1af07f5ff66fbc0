import Surface.Proofs.Tree.Places
import Surface.Rules.Basic

/-! Rules for the nodes right below a root, read as what is gathered from all places of the tree. -/

namespace Surface.Rules

variable {rule : TopRule} {source : Bytes} {root : Node}

/--
Level by level or all over the tree: a rule finds what the places give.

It is enough that this holds for each tree right below the root, and that the root gives nothing.
-/
theorem topLevel_eq_flatMap_places {gather : Cursor → List Symbol}
    (silent : gather ⟨root, []⟩ = [])
    (each : ∀ place : Cursor, place.depth = 1 →
      place.below.flatMap gather = rule source place.previous? place.node) :
    topLevel rule source root = (root.places []).flatMap gather := by
  let top : Cursor := ⟨root, []⟩
  -- Below each child, the places give together what the rule gives at once.
  have children : (top.children.flatMap fun child => child.below.flatMap gather)
      = top.children.flatMap fun child => rule source child.previous? child.node :=
    List.flatMap_congr fun child isChild => each child (Cursor.depth_of_mem_children isChild)
  calc topLevel rule source root
      = top.children.flatMap fun child => rule source child.previous? child.node :=
        (Cursor.flatMap_withPrevious top (rule source)).symm
    _ = gather top ++ top.children.flatMap fun child => child.below.flatMap gather := by
        rw [children, silent, List.nil_append]
    _ = (root.places []).flatMap gather := (Cursor.flatMap_below top _).symm

/-- What a rule finds at a place, which has to be right below the root. -/
def atTop (rule : TopRule) (source : Bytes) (place : Cursor) : List Symbol :=
  if place.depth = 1 then rule source place.previous? place.node else []

/-- A rule finds nothing but what it finds right below the root. -/
theorem topLevel_eq_atTop :
    topLevel rule source root = (root.places []).flatMap (atTop rule source) := by
  refine topLevel_eq_flatMap_places rfl ?_
  intro place top
  -- Deeper places give nothing, so the tree at the place gives what the place itself does.
  have silent : ∀ inner : Cursor, place.depth < inner.depth → atTop rule source inner = [] := by
    intro inner deeper
    exact if_neg (by omega)
  rw [Cursor.flatMap_below_of_silent silent, atTop, if_pos top]

end Surface.Rules
