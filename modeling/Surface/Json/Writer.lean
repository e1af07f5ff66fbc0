import Surface.Json.Basic

/-! JSON values as text, on one line or laid out over several. -/

namespace Surface.Json

/-- A string in its quotation marks. -/
def quote (literal : List Char) : List Char :=
  '"' :: literal ++ ['"']

/-- The word for a truth value. -/
def boolWord (value : Bool) : List Char :=
  if value then "true".toList else "false".toList

mutual

/-- A value on one line, without any space. -/
def compactText : Json → List Char
  | .null => "null".toList
  | .bool value => boolWord value
  | .number literal => literal
  | .string literal => quote literal
  | .array items => '[' :: compactItems items ++ [']']
  | .object members => '\x7b' :: compactMembers members ++ ['\x7d']

/-- Values with commas between them. -/
def compactItems : List Json → List Char
  | [] => []
  | [item] => compactText item
  | item :: rest => compactText item ++ ',' :: compactItems rest

/-- Keys and values with commas between them. -/
def compactMembers : List (List Char × Json) → List Char
  | [] => []
  | [(key, value)] => quote key ++ ':' :: compactText value
  | (key, value) :: rest => quote key ++ ':' :: (compactText value ++ ',' :: compactMembers rest)

end

/-- A line end, and two spaces for each level of nesting. -/
def newline (level : Nat) : List Char :=
  '\n' :: List.replicate (2 * level) ' '

mutual

/-- A value laid out with one item or member a line, at a level of nesting. -/
def prettyText (level : Nat) : Json → List Char
  | .null => "null".toList
  | .bool value => boolWord value
  | .number literal => literal
  | .string literal => quote literal
  | .array [] => ['[', ']']
  | .array (item :: rest) =>
    '[' :: newline (level + 1) ++ prettyText (level + 1) item ++ prettyItems (level + 1) rest
      ++ newline level ++ [']']
  | .object [] => ['\x7b', '\x7d']
  | .object ((key, value) :: rest) =>
    '\x7b' :: newline (level + 1) ++ quote key ++ ':' :: ' ' :: prettyText (level + 1) value
      ++ prettyMembers (level + 1) rest ++ newline level ++ ['\x7d']

/-- Further items, each after a comma and on a line of its own. -/
def prettyItems (level : Nat) : List Json → List Char
  | [] => []
  | item :: rest =>
    ',' :: newline level ++ prettyText level item ++ prettyItems level rest

/-- Further members, each after a comma and on a line of its own. -/
def prettyMembers (level : Nat) : List (List Char × Json) → List Char
  | [] => []
  | (key, value) :: rest =>
    ',' :: newline level ++ quote key ++ ':' :: ' ' :: prettyText level value
      ++ prettyMembers level rest

end

/-- A value on one line. -/
def compact (value : Json) : String :=
  String.ofList value.compactText

/-- A value laid out over several lines. -/
def pretty (value : Json) : String :=
  String.ofList (value.prettyText 0)

end Surface.Json
