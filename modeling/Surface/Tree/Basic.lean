import Surface.Text.Line
import Surface.Text.Utf8

/-! Syntax trees over a source, and the text that their nodes cover. -/

namespace Surface

/-- A node of a syntax tree. -/
structure Node where
  /-- What the grammar calls the node. -/
  kind : String
  /-- The role of the node in its parent. -/
  field : Option String
  /-- The offset of the node's first byte. -/
  start : Nat
  /-- The offset after the node's last byte. -/
  stop : Nat
  /-- The line the node starts on, counted from zero. -/
  row : Nat
  children : List Node
  deriving Repr

/-- The syntax tree of a whole source. -/
structure Tree where
  root : Node
  /-- Whether some part of the source did not fit the grammar. -/
  hasError : Bool
  deriving Repr

namespace Node

/-- The bytes a node covers, as far as the source reaches. -/
def bytes (node : Node) (source : Bytes) : Bytes :=
  (source.drop node.start).take (node.stop - node.start)

/-- The text of a node. -/
def text (node : Node) (source : Bytes) : List Char :=
  Utf8.decode (node.bytes source)

/-- The first line of a node's text, without blanks around it. -/
def headline (node : Node) (source : Bytes) : List Char :=
  Text.trim (Text.firstLine (node.text source))

/-- The first child in a role. -/
def childAt? (node : Node) (field : String) : Option Node :=
  node.children.find? fun child => child.field == some field

/-- The first child of one of several kinds. -/
def childOf? (node : Node) (kinds : List String) : Option Node :=
  node.children.find? fun child => kinds.contains child.kind

/-- The text of the first child in a role, empty when there is no such child. -/
def fieldText (node : Node) (field : String) (source : Bytes) : List Char :=
  match node.childAt? field with
  | some child => child.text source
  | none => []

/-- Siblings in order, each with the one just before it. -/
def withPrevious (before : Option Node) : List Node → List (Option Node × Node)
  | [] => []
  | node :: rest => (before, node) :: withPrevious (some node) rest

mutual

/-- The number of nodes of a tree. -/
def size : Node → Nat
  | ⟨_, _, _, _, _, children⟩ => 1 + sizeAll children

/-- The number of nodes of several trees. -/
def sizeAll : List Node → Nat
  | [] => 0
  | node :: rest => node.size + sizeAll rest

end

/-- A tree has its root and the nodes below it. -/
theorem size_eq (node : Node) : node.size = 1 + sizeAll node.children := by
  cases node
  rfl

end Node

end Surface
