import Surface.Json.Token

/-! The JSON value that a text stands for. -/

namespace Surface.Json

/-- An array or object that has been opened; what it holds so far is kept last first. -/
inductive Frame where
  | array (items : List Json)
  | object (members : List (List Char × Json))
  /-- An object that waits for the value of a key. -/
  | member (members : List (List Char × Json)) (key : List Char)
  deriving Repr

/-- Where the reader stands between two tokens, with the innermost open frame first. -/
inductive Reader where
  /-- A value has to follow. -/
  | beforeValue (stack : List Frame)
  /-- An array was opened. -/
  | beforeFirstItem (stack : List Frame)
  /-- An object was opened. -/
  | beforeFirstKey (stack : List Frame)
  /-- A key has to follow. -/
  | beforeKey (members : List (List Char × Json)) (stack : List Frame)
  /-- A colon has to follow. -/
  | beforeColon (members : List (List Char × Json)) (key : List Char) (stack : List Frame)
  /-- A comma has to follow, or the end of the innermost frame. -/
  | afterValue (stack : List Frame)
  /-- The value is complete. -/
  | done (value : Json)
  deriving Repr

namespace Reader

/-- A complete value put where it belongs. -/
def place (value : Json) : List Frame → Option Reader
  | [] => some (.done value)
  | .array items :: up => some (.afterValue (.array (value :: items) :: up))
  | .member members key :: up => some (.afterValue (.object ((key, value) :: members) :: up))
  | .object _ :: _ => none

/-- A token where a value has to follow. -/
def begin (stack : List Frame) : Token → Option Reader
  | .atom value => place value stack
  | .quoted literal => place (.string literal) stack
  | .openArray => some (.beforeFirstItem stack)
  | .openObject => some (.beforeFirstKey stack)
  | _ => none

/-- One more token, unless it cannot stand there. -/
def step : Reader → Token → Option Reader
  | .beforeValue stack, token => begin stack token
  | .beforeFirstItem stack, .closeArray => place (.array []) stack
  | .beforeFirstItem stack, token => begin (.array [] :: stack) token
  | .beforeFirstKey stack, .closeObject => place (.object []) stack
  | .beforeFirstKey stack, .quoted key => some (.beforeColon [] key stack)
  | .beforeKey members stack, .quoted key => some (.beforeColon members key stack)
  | .beforeColon members key stack, .colon => some (.beforeValue (.member members key :: stack))
  | .afterValue (.array items :: up), .comma => some (.beforeValue (.array items :: up))
  | .afterValue (.array items :: up), .closeArray => place (.array items.reverse) up
  | .afterValue (.object members :: up), .comma => some (.beforeKey members up)
  | .afterValue (.object members :: up), .closeObject => place (.object members.reverse) up
  | _, _ => none

/-- The value once the tokens are over. -/
def finish : Reader → Option Json
  | .done value => some value
  | _ => none

end Reader

/-- The value that a list of tokens stands for. -/
def ofTokens? (tokens : List Token) : Option Json :=
  (tokens.foldlM Reader.step (.beforeValue [])).bind Reader.finish

/-- The value that a text stands for. -/
def parse? (text : String) : Option Json :=
  (tokens? text.toList).bind ofTokens?

end Surface.Json
