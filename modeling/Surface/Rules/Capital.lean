import Surface.Rules.Basic

/-! Go: a declaration is public when its name starts with a capital letter. -/

namespace Surface.Rules

/-- Whether a name starts with a capital from `A` to `Z`. -/
def isCapitalized (name : List Char) : Bool :=
  match name with
  | [] => false
  | c :: _ => c.isUpper

/-- The symbol of a node, if the name it carries is public. -/
def capitalized (kind : Kind) (doc : Option (List Char)) (node : Node) (source : Bytes) :
    List Symbol :=
  let name := node.fieldText "name" source
  if isCapitalized name then [declare kind name doc node source] else []

/-- What a type is, by the node that defines it. -/
def goTypeKind (spec : Node) : Kind :=
  match (spec.childAt? "type").map (·.kind) with
  | some "struct_type" => .structType
  | some "interface_type" => .interfaceType
  | _ => .typeAlias

/-- The types of a declaration, all with the comment in front of it. -/
def goTypes (source : Bytes) (doc : Option (List Char)) (declaration : Node) : List Symbol :=
  declaration.children.flatMap fun spec =>
    if spec.kind == "type_spec" || spec.kind == "type_alias" then
      capitalized (goTypeKind spec) doc spec source
    else []

/-- The constants or variables of a declaration, also those that stand in a list of their own. -/
def goValues (source : Bytes) (kind : Kind) (declaration : Node) : List Symbol :=
  declaration.children.flatMap fun child =>
    if child.kind == "const_spec" || child.kind == "var_spec" then
      capitalized kind none child source
    else if child.kind == "var_spec_list" then
      child.children.flatMap fun spec =>
        if spec.kind == "var_spec" then capitalized kind none spec source else []
    else []

/-- The public symbols of a node right below the root of a Go file. -/
def goRule : TopRule := fun source before node =>
  match node.kind with
  | "function_declaration" => capitalized .function (commentBefore source before) node source
  | "method_declaration" => capitalized .method (commentBefore source before) node source
  | "type_declaration" => goTypes source (commentBefore source before) node
  | "const_declaration" => goValues source .constant node
  | "var_declaration" => goValues source .variable node
  | _ => []

end Surface.Rules
