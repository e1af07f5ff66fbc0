import Surface.Tree.Basic

/-! Trees cut off at a depth: a node keeps what it is, and its children have one level less. -/

namespace Surface.Node

/-- A tree without the nodes that lie deeper than a number of levels below its root. -/
def cut : Nat → Node → Node
  | 0, node => { node with children := [] }
  | depth + 1, node => { node with children := node.children.map (cut depth) }

section Own

variable (depth : Nat) (node : Node)

-- Whatever is cut off below it, a node itself is not changed.

/-- Cutting a tree keeps the kind of its root. -/
@[simp] theorem kind_cut : (node.cut depth).kind = node.kind := by cases depth <;> rfl

/-- Cutting a tree keeps the role of its root. -/
@[simp] theorem field_cut : (node.cut depth).field = node.field := by cases depth <;> rfl

/-- Cutting a tree keeps the row of its root. -/
@[simp] theorem row_cut : (node.cut depth).row = node.row := by cases depth <;> rfl

/-- Cutting a tree keeps the text of its root. -/
@[simp] theorem text_cut (source : Bytes) : (node.cut depth).text source = node.text source := by
  cases depth <;> rfl

/-- Cutting a tree keeps the first line of its root. -/
@[simp] theorem headline_cut (source : Bytes) :
    (node.cut depth).headline source = node.headline source := by
  simp only [headline, text_cut]

end Own

section Below

variable (depth : Nat) (node : Node)

/-- The children of a tree that is cut are its children, cut one level earlier. -/
theorem children_cut : (node.cut (depth + 1)).children = node.children.map (cut depth) := rfl

/-- The first child is found as before, with one level less below it. -/
theorem head?_children_cut :
    (node.cut (depth + 1)).children.head? = node.children.head?.map (cut depth) := by
  rw [children_cut, List.head?_map]

/-- The child in a role is found again, cut. -/
theorem childAt?_cut (field : String) :
    (node.cut (depth + 1)).childAt? field = (node.childAt? field).map (cut depth) := by
  -- Cutting a child keeps its role, so the search stops at the same one.
  simp only [childAt?, children_cut, List.find?_map, Function.comp_def, field_cut]

/-- The child of some kinds is found again, cut. -/
theorem childOf?_cut (kinds : List String) :
    (node.cut (depth + 1)).childOf? kinds = (node.childOf? kinds).map (cut depth) := by
  -- Cutting a child keeps its kind, so the search stops at the same one.
  simp only [childOf?, children_cut, List.find?_map, Function.comp_def, kind_cut]

/-- The text in a role is the same. -/
@[simp] theorem fieldText_cut (field : String) (source : Bytes) :
    (node.cut (depth + 1)).fieldText field source = node.fieldText field source := by
  -- The text of a child is taken from the source, not from what lies below the child.
  simp only [fieldText, childAt?_cut]
  cases node.childAt? field with
  | none => rfl
  | some child => exact text_cut depth child source

/-- Symbols that are gathered child by child are gathered from the children as they are cut. -/
theorem flatMap_children_cut {α : Type} (symbols : Node → List α) :
    (node.cut (depth + 1)).children.flatMap symbols
      = node.children.flatMap fun child => symbols (child.cut depth) := by
  rw [children_cut, List.flatMap_map]

end Below

end Surface.Node
