import Surface.Symbol.Basic
import Surface.Tree.Basic

/-! What the rules of all languages share: how a declaration becomes a symbol. -/

namespace Surface.Rules

/-- A symbol of a declaration: its signature and line are those of the node. -/
def declare (kind : Kind) (name : List Char) (doc : Option (List Char)) (node : Node)
    (source : Bytes) : Symbol where
  kind := kind
  name := String.ofList name
  signature := String.ofList (node.headline source)
  doc := doc.map String.ofList
  line := node.row + 1

/--
A rule for the nodes right below the root.

It sees the source, the sibling just before the node, and the node.
-/
abbrev TopRule := Bytes → Option Node → Node → List Symbol

/-- The symbols of the nodes right below a root, in order. -/
def topLevel (rule : TopRule) (source : Bytes) (root : Node) : List Symbol :=
  (Node.withPrevious none root.children).flatMap fun (before, node) => rule source before node

/-- The kinds of nodes that are comments. -/
def commentKinds : List String :=
  ["comment", "line_comment", "block_comment", "doc_comment", "statement_comment"]

/-- Whether a node is a comment. -/
def isComment (node : Node) : Bool :=
  commentKinds.contains node.kind

/-- The documentation in front of a declaration: the sibling just before it, if it is a comment. -/
def commentBefore (source : Bytes) (before : Option Node) : Option (List Char) :=
  match before with
  | none => none
  | some node => if isComment node then some (Text.trim (node.text source)) else none

/-- The text of the first child of one of several kinds, empty when there is no such child. -/
def childText (node : Node) (kinds : List String) (source : Bytes) : List Char :=
  match node.childOf? kinds with
  | some child => child.text source
  | none => []

/-- Whether a character is a quotation mark. -/
def isQuote (c : Char) : Bool :=
  c == '"' || c == '\''

/-- The content of a string literal: without quotation marks around it, then without blanks. -/
def unquote (text : List Char) : List Char :=
  Text.trim (Text.dropAround isQuote text)

/-- Whether a node is a string literal, of one piece or of several. -/
def isString (node : Node) : Bool :=
  node.kind == "string" || node.kind == "concatenated_string"

/-- The documentation in a statement that is nothing but a string literal. -/
def statementDoc (statement : Node) (source : Bytes) : Option (List Char) :=
  match statement.children.head? with
  | none => none
  | some literal => if isString literal then some (unquote (literal.text source)) else none

end Surface.Rules
