import Surface.Path

/-!
Patterns for paths.

A pattern is a list of pieces.
It matches a path when its pieces, one after the other, take up the whole path.
-/

namespace Surface.Glob

/-- A set of bytes: the ones in some ranges, or the ones in none of them. -/
structure ByteSet where
  negated : Bool
  /-- The first and the last byte of each range. -/
  ranges : List (UInt8 × UInt8)
  deriving DecidableEq, Repr

/-- Whether a byte is in a set. -/
def ByteSet.contains (set : ByteSet) (byte : UInt8) : Bool :=
  (set.ranges.any fun range => range.1 ≤ byte && byte ≤ range.2) != set.negated

/-- A piece of a pattern. -/
inductive Piece where
  /-- These bytes. -/
  | literal (bytes : Bytes)
  /-- One byte of a name. -/
  | one
  /-- One byte of a set, which may hold the slash. -/
  | member (set : ByteSet)
  /-- Any part of a name, also none. -/
  | many
  /-- Any directories in front, also none. -/
  | leading
  /-- Anything below a directory. -/
  | trailing
  /-- Any directories between two names, also none. -/
  | between
  /-- One of some patterns; nothing at all if there is none. -/
  | choice (branches : List (List Piece))
  deriving Repr

/-- Whether a piece stands for nothing at all. -/
def Piece.isVoid : Piece → Bool
  | .choice [] => true
  | _ => false

/-- What is left of a path when a part of one name has been taken off its front. -/
def withinName : Bytes → List Bytes
  | [] => [[]]
  | byte :: rest => if byte == slash then [byte :: rest] else (byte :: rest) :: withinName rest

/-- What follows each slash of a path. -/
def afterSlashes : Bytes → List Bytes
  | [] => []
  | byte :: rest => if byte == slash then rest :: afterSlashes rest else afterSlashes rest

/-- Every end of a path. -/
def ends : Bytes → List Bytes
  | [] => [[]]
  | byte :: rest => (byte :: rest) :: ends rest

/-- What is left of a path when a byte that passes a test has been taken off its front. -/
def afterByte (passes : UInt8 → Bool) : Bytes → List Bytes
  | [] => []
  | byte :: rest => if passes byte then [rest] else []

mutual

/-- What can be left of a path when a piece has taken up the front of it. -/
def Piece.rests : Piece → Bytes → List Bytes
  | .literal bytes, path => if bytes.isPrefixOf path then [path.drop bytes.length] else []
  | .one, path => afterByte (· != slash) path
  | .member set, path => afterByte set.contains path
  | .many, path => withinName path
  | .leading, path => path :: afterSlashes path
  | .trailing, path => (afterByte (· == slash) path).flatMap ends
  | .between, path =>
    (afterByte (· == slash) path).flatMap fun rest => rest :: afterSlashes rest
  | .choice [], path => [path]
  | .choice (pieces :: more), path => restsOfAll pieces [path] ++ restsOfAny more path

/-- What can be left of some paths when pieces have taken up the front of one. -/
def restsOfAll : List Piece → List Bytes → List Bytes
  | [], paths => paths
  | piece :: more, paths =>
    restsOfAll more (paths.flatMap fun path => piece.rests path).eraseDups

/-- What can be left of a path when one of some patterns has taken up the front of it. -/
def restsOfAny : List (List Piece) → Bytes → List Bytes
  | [], _ => []
  | pieces :: more, path => restsOfAll pieces [path] ++ restsOfAny more path

end

/-- Whether pieces match a whole path. -/
def matchesPath (pieces : List Piece) (path : Bytes) : Bool :=
  (restsOfAll pieces [path]).any List.isEmpty

end Surface.Glob
