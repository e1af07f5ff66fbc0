import Surface.Rules.Basic

/-! Rust, Gleam and Zig: a declaration is public when it is marked so. -/

namespace Surface.Rules

/-- Whether a node carries a visibility modifier. -/
def isMarkedPublic (node : Node) : Bool :=
  (node.childOf? ["visibility_modifier"]).isSome

/-- The kinds of Rust items, what they declare, and whether the comment in front documents them. -/
def rustItems : List (String × Kind × Bool) :=
  [("function_item", .function, true),
    ("struct_item", .structType, true),
    ("enum_item", .enumType, true),
    ("trait_item", .traitType, true),
    ("type_item", .typeAlias, false),
    ("const_item", .constant, false),
    ("static_item", .constant, false)]

/-- The public symbols of a node right below the root of a Rust file. -/
def rustRule : TopRule := fun source before node =>
  if isMarkedPublic node then
    match rustItems.lookup node.kind with
    | some (kind, documented) =>
      let doc := if documented then commentBefore source before else none
      [declare kind (node.fieldText "name" source) doc node source]
    | none => []
  else []

/-- The name of a Gleam type, without its parameters. -/
def gleamTypeName (node : Node) (source : Bytes) : List Char :=
  match node.childOf? ["type_name"] with
  | some name => childText name ["type_identifier"] source
  | none => []

/-- The public symbols of a node right below the root of a Gleam file. -/
def gleamRule : TopRule := fun source before node =>
  if isMarkedPublic node then
    match node.kind with
    | "function" =>
      [declare .function (childText node ["identifier"] source) (commentBefore source before) node
        source]
    | "type_definition" =>
      [declare .typeAlias (gleamTypeName node source) (commentBefore source before) node source]
    | "constant" => [declare .constant (childText node ["identifier"] source) none node source]
    | _ => []
  else []

/-- The kinds of Zig declarations. -/
def zigKinds : List String :=
  ["TopLevelDecl", "FnProto", "VarDecl", "function_declaration", "variable_declaration"]

/-- Whether a kind of declaration is one of variables, by the words in it. -/
def isVariable (kind : String) : Bool :=
  Text.occursIn "Var".toList kind.toList || Text.occursIn "variable".toList kind.toList

/-- What a kind of Zig declaration declares. -/
def zigKind (kind : String) : Kind :=
  if isVariable kind then .constant else .function

/-- The text a public Zig declaration starts with. -/
def zigMarker : List Char :=
  "pub ".toList

/-- The name of a Zig declaration. -/
def zigName (node : Node) (source : Bytes) : List Char :=
  let name := node.fieldText "name" source
  if name.isEmpty then childText node ["identifier", "IDENTIFIER"] source else name

/-- The public symbols of a node right below the root of a Zig file. -/
def zigRule : TopRule := fun source _ node =>
  if zigKinds.contains node.kind then
    if zigMarker.isPrefixOf (node.text source) then
      [declare (zigKind node.kind) (zigName node source) none node source]
    else []
  else []

end Surface.Rules
