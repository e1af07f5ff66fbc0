import Surface.Rules.Basic

/-! JavaScript and TypeScript: every declaration of a module counts, exported or not. -/

namespace Surface.Rules

/-- The kinds of declarations with one name, and what they declare. -/
def scriptDeclarations : List (String × Kind) :=
  [("function_declaration", .function),
    ("class_declaration", .classType),
    ("interface_declaration", .interfaceType),
    ("type_alias_declaration", .typeAlias),
    ("enum_declaration", .enumType)]

/--
The symbols of a declaration.

The variables of one statement share its signature and its line.
-/
def scriptDeclaration (source : Bytes) (node : Node) : List Symbol :=
  match scriptDeclarations.lookup node.kind with
  | some kind => [declare kind (node.fieldText "name" source) none node source]
  | none =>
    -- The line and the signature are those of the statement, not of the variable in it.
    if node.kind == "lexical_declaration" || node.kind == "variable_declaration" then
      (node.children.filter (·.kind == "variable_declarator")).map fun declarator =>
        declare .constant (declarator.fieldText "name" source) none node source
    else []

/-- The symbols of a node right below the root of a script. -/
def scriptRule : TopRule := fun source _ node =>
  if node.kind == "export_statement" then node.children.flatMap (scriptDeclaration source)
  else scriptDeclaration source node

end Surface.Rules
