import Surface.Rules.Basic
import Surface.Tree.Cursor

/-! Elixir: definitions are calls of defining words, at any depth. -/

namespace Surface.Rules

/-- What a call of a defining word declares. -/
def definedKind? (callee : List Char) : Option Kind :=
  if callee = "defmodule".toList then some .module
  else if callee = "def".toList then some .function
  else if callee = "defmacro".toList then some .function
  else none

/-- The symbol of one place in an Elixir file, if it is a public definition. -/
def elixirSymbol (source : Bytes) (place : Cursor) : Option Symbol :=
  if place.node.kind == "call" then
    match place.node.children with
    | [] => none
    | target :: arguments =>
      let callee := target.text source
      (definedKind? callee).map fun kind =>
        -- The defining word is called with what it defines.
        let name := match arguments with
          | [] => callee
          | argument :: _ => argument.headline source
        declare kind name (commentBefore source place.previous?) place.node source
  else none

/-- The public symbols of an Elixir file. -/
def elixirSymbols (source : Bytes) (root : Node) : List Symbol :=
  root.walk.filterMap (elixirSymbol source)

end Surface.Rules
