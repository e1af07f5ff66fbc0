import Surface.Text.Basic
import Surface.Text.Utf8

/-!
Lines of a text: cutting a text at its line ends, putting it on one line, and reading bytes line by
line.
-/

namespace Surface.Text

/-- The part of a text before its first line end. -/
def firstLine (text : List Char) : List Char :=
  text.takeWhile (· != '\n')

/-- A character put in front of the lines that follow it. -/
def consLine (c : Char) (rest : List (List Char)) : List (List Char) :=
  if c == '\n' then [c] :: rest
  else match rest with
    | [] => [[c]]
    | line :: more => (c :: line) :: more

/--
The lines of a text, each with the line end that closes it.

The last line may have none.
No line is empty, so an empty text has no line.
-/
def lines (text : List Char) : List (List Char) :=
  text.foldr consLine []

/--
What is written for a text behind what is there already, which is kept last character first.

A carriage return with a line end right behind it becomes a space together with that line end.
-/
def replaceReturnsAfter (done : List Char) : List Char → List Char
  | '\r' :: '\n' :: rest => replaceReturnsAfter (' ' :: done) rest
  | c :: rest => replaceReturnsAfter (c :: done) rest
  | [] => done.reverse

/-- A text with a space for every line end. -/
def replaceEnds (text : List Char) : List Char :=
  text.map fun c => if c == '\n' then ' ' else c

/-- A text with every line end, with or without a carriage return, turned into one space. -/
def flatten (text : List Char) : List Char :=
  replaceEnds (replaceReturnsAfter [] text)

/-- A text cut to a number of characters, with three dots in place of what was cut off. -/
def shorten (width : Nat) (text : List Char) : List Char :=
  if text.length ≤ width then text else text.take (width - 3) ++ ['.', '.', '.']

/-- A text on one line of at most a number of characters. -/
def oneLine (width : Nat) (text : List Char) : List Char :=
  shorten width (flatten text)

/-- The byte that ends a line. -/
def lineFeed : UInt8 := 0x0A

/-- A line without the carriage return that belongs to its line end. -/
def dropReturn (line : List Char) : List Char :=
  if line.getLast? == some '\r' then line.dropLast else line

/--
The lines of a file without their line ends, `none` for one that is no well-formed text.

What follows the last line end is a line if it is not empty, and a carriage return there belongs to
the line.
-/
def readLines (bytes : Bytes) : List (Option (List Char)) :=
  let pieces := split lineFeed bytes
  let last := pieces.getLast?.toList.filter fun piece => !piece.isEmpty
  pieces.dropLast.map (fun piece => (Utf8.decode? piece).map dropReturn)
    ++ last.map fun piece => Utf8.decode? piece

end Surface.Text
