import Surface.Grammar.Basic
import Surface.Rules.Script
import Surface.Tree.Cursor

/-! Svelte and Astro: component files, whose symbols are those of the scripts embedded in them. -/

namespace Surface.Rules

/-- A symbol found in a text that starts some lines into a document. -/
def shift (offset : Nat) (symbol : Symbol) : Symbol :=
  { symbol with line := symbol.line + offset }

/-- The symbols of a script that starts some lines into a document. -/
def embedded (parsing : Parsing) (code : List Char) (offset : Nat) : List Symbol :=
  let source := Utf8.encode code
  let tree := parsing (.bundled "typescript") source
  (topLevel scriptRule source tree.root).map (shift offset)

/-- How many line numbers there are: they are words of 64 bits. -/
def lineBound : Nat := 18446744073709551616

/--
The symbols of a script that is said to start some lines into a document.

Nothing is known of the document, so line numbers may be used up: after the last one comes zero.
-/
def embeddedAnywhere (parsing : Parsing) (code : List Char) (offset : Nat) : List Symbol :=
  (embedded parsing code offset).map fun symbol =>
    { symbol with line := symbol.line % lineBound }

/-- The symbols of the raw text in a script element, if the node is one. -/
def scriptElement (parsing : Parsing) (source : Bytes) (node : Node) : List Symbol :=
  if node.kind == "script_element" then
    node.children.flatMap fun child =>
      if child.kind == "raw_text" then embedded parsing (child.text source) child.row else []
  else []

/-- The public symbols of a Svelte file: those of its script elements, in order. -/
def svelteSymbols (parsing : Parsing) (source : Bytes) (root : Node) : List Symbol :=
  root.walk.flatMap fun place => scriptElement parsing source place.node

/-- Whether a line is nothing but three dashes. -/
def isFence (line : List Char) : Bool :=
  Text.trim line == ['-', '-', '-']

/-- Whether a line is blank. -/
def isBlankLine (line : List Char) : Bool :=
  (Text.trim line).isEmpty

/--
The search for the fence that opens a document, from a line on.

It counts the bytes and the blank lines that it has passed. What it finds are the bytes up to the
end of the fence, the lines in front of it, and the lines behind it.
-/
def openingFence (consumed row : Nat) :
    List (List Char) → Option (Nat × Nat × List (List Char))
  | [] => none
  | line :: rest =>
    let consumed := consumed + (Utf8.encode line).length
    if isBlankLine line then openingFence consumed (row + 1) rest
    else if isFence line then some (consumed, row, rest)
    else none

/-- The search for the next fence, from a line on: the bytes in front of it. -/
def closingFence (consumed : Nat) : List (List Char) → Option Nat
  | [] => none
  | line :: rest =>
    if isFence line then some consumed
    else closingFence (consumed + (Utf8.encode line).length) rest

/--
The code between the fences that open a document, and the number of lines in front of it.

Only blank lines may stand in front of the first fence, and the second fence has to be there.
-/
def frontmatter (text : List Char) : Option (Nat × List Char) := do
  let (start, row, rest) ← openingFence 0 0 (Text.lines text)
  let stop ← closingFence start rest
  -- Both searches stop between lines, so the code is cut out between characters.
  return (row + 1, Utf8.decode (((Utf8.encode text).drop start).take (stop - start)))

/-- The public symbols of an Astro file: those of its frontmatter. -/
def astroSymbols (parsing : Parsing) (source : Bytes) : List Symbol :=
  match frontmatter (Utf8.decode source) with
  | some (offset, code) => embedded parsing code offset
  | none => []

end Surface.Rules
