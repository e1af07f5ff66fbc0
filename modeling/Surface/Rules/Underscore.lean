import Surface.Rules.Basic

/-! Python and Mojo: a definition is private when its name starts with an underscore. -/

namespace Surface.Rules

/-- Whether a name is a private one. -/
def isPrivate (name : List Char) : Bool :=
  name.head? == some '_'

/-- The documentation of a Python definition: a string literal that opens its body. -/
def pythonDoc (node : Node) (source : Bytes) : Option (List Char) :=
  match (node.childAt? "body").bind (·.children.head?) with
  | none => none
  | some first =>
    if first.kind == "expression_statement" then statementDoc first source else none

/-- The public symbol of a Python node, if it is a definition. -/
def pythonDefinition (source : Bytes) (node : Node) : List Symbol :=
  let name := node.fieldText "name" source
  match node.kind with
  | "function_definition" =>
    if isPrivate name then [] else [declare .function name (pythonDoc node source) node source]
  | "class_definition" =>
    if isPrivate name then [] else [declare .classType name (pythonDoc node source) node source]
  | _ => []

/-- The public symbols of a node right below the root of a Python file, decorated or not. -/
def pythonRule : TopRule := fun source _ node =>
  if node.kind == "decorated_definition" then node.children.flatMap (pythonDefinition source)
  else pythonDefinition source node

/-- The name of a Mojo definition. -/
def mojoName (node : Node) (source : Bytes) : List Char :=
  let name := node.fieldText "name" source
  if name.isEmpty then childText node ["identifier"] source else name

/-- A text without a word in front of it, if it starts with that word. -/
def dropStart (word text : List Char) : List Char :=
  if word.isPrefixOf text then text.drop word.length else text

/-- A text without a word at its end, if it ends in that word. -/
def dropEnd (word text : List Char) : List Char :=
  if word.isSuffixOf text then text.take (text.length - word.length) else text

/-- The content of a literal in three double or three single quotation marks, or in both. -/
def untriple (text : List Char) : List Char :=
  let double := ['"', '"', '"']
  let single := ['\'', '\'', '\'']
  Text.trim (dropEnd single (dropStart single (dropEnd double (dropStart double text))))

/--
The documentation of a Mojo function: a string literal that opens its block.

It stands there on its own, or as a statement.
-/
def mojoDoc (node : Node) (source : Bytes) : Option (List Char) :=
  match (node.childOf? ["block"]).bind (·.children.head?) with
  | none => none
  | some first =>
    match first.kind with
    | "string" => some (untriple (first.text source))
    | "expression_statement" => statementDoc first source
    | _ => none

/-- What a Mojo class definition declares, by the keyword it starts with. -/
def mojoClassKind (node : Node) : Kind :=
  match node.children.head?.map (·.kind) with
  | some "struct" => .structType
  | _ => .classType

/-- The public symbols of a node right below the root of a Mojo file. -/
def mojoRule : TopRule := fun source _ node =>
  let name := mojoName node source
  match node.kind with
  | "function_definition" =>
    if isPrivate name then [] else [declare .function name (mojoDoc node source) node source]
  | "class_definition" =>
    if isPrivate name then [] else [declare (mojoClassKind node) name none node source]
  | "trait_definition" => [declare .traitType name none node source]
  | _ => []

end Surface.Rules
