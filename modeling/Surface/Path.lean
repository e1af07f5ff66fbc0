import Surface.Text.Basic
import Surface.Text.Utf8

/-! Paths: how bytes divide into components, how paths join, and what lies below a root. -/

namespace Surface

/-- The byte between the segments of a path. -/
def slash : UInt8 := 0x2F

/-- The byte that divides an extension from the name in front of it. -/
def dot : UInt8 := 0x2E

/-- The bytes of a word in plain letters. -/
def bytesOf (word : String) : Bytes :=
  Utf8.encode word.toList

/-- A path, kept as it is spelled. -/
structure Path where
  bytes : Bytes
  deriving DecidableEq, Repr

/-- One step of a path. -/
inductive Component where
  /-- The slash an absolute path starts with. -/
  | root
  /-- The dot a relative path starts with. -/
  | here
  /-- The directory above. -/
  | above
  /-- A name inside the directory. -/
  | name (bytes : Bytes)
  deriving DecidableEq, Repr

/-- The pieces between slashes, one more than there are slashes. -/
def segmentsOf (bytes : Bytes) : List Bytes :=
  Text.split slash bytes

/-- Segments with slashes between them. -/
def joinSegments (segments : List Bytes) : Bytes :=
  [slash].intercalate segments

/-- The component a segment stands for: an empty segment and a single dot stand for none. -/
def Component.ofSegment? (segment : Bytes) : Option Component :=
  if segment = [] then none
  else if segment = [dot] then none
  else if segment = [dot, dot] then some .above
  else some (.name segment)

namespace Path

/-- A path spelled as a text. -/
def ofString (text : String) : Path :=
  ⟨bytesOf text⟩

/-- The path as text, with what is no well-formed text replaced. -/
def display (path : Path) : String :=
  String.ofList (Utf8.decode path.bytes)

/-- Whether the path starts at the root of the file system. -/
def isAbsolute (path : Path) : Bool :=
  path.bytes.head? == some slash

/-- The component that a path is anchored at, if it starts with a slash or with a single dot. -/
def anchor (path : Path) : Option Component :=
  match path.bytes with
  | [] => none
  | [byte] => if byte == slash then some .root else if byte == dot then some .here else none
  | byte :: next :: _ =>
    if byte == slash then some .root
    else if byte == dot && next == slash then some .here
    else none

/-- The bytes of the anchor. -/
def anchorBytes (path : Path) : Bytes :=
  if path.anchor.isSome then path.bytes.take 1 else []

/-- The segments after the anchor. -/
def body (path : Path) : List Bytes :=
  segmentsOf (path.bytes.drop path.anchorBytes.length)

/--
The components of a path in order.

Paths that differ only in repeated slashes, in a slash at the end or in dots after the first
segment have the same components.
-/
def components (path : Path) : List Component :=
  path.anchor.toList ++ path.body.filterMap Component.ofSegment?

/-- One path after another; an absolute path replaces what stands in front of it. -/
def join (path next : Path) : Path :=
  if next.isAbsolute then next
  else if path.bytes.isEmpty || path.bytes.getLast? == some slash then ⟨path.bytes ++ next.bytes⟩
  else ⟨path.bytes ++ slash :: next.bytes⟩

/-- The name a path ends in, if its last component is a name. -/
def fileName? (path : Path) : Option Bytes :=
  match path.components.getLast? with
  | some (.name bytes) => some bytes
  | _ => none

/-- What follows the last dot of a file name, unless that dot is its first byte. -/
def extension? (path : Path) : Option Bytes :=
  path.fileName?.bind fun name =>
    let after := (name.reverse.takeWhile (· != dot)).reverse
    let before := name.take (name.length - after.length - 1)
    if before.isEmpty then none else some after

/-- The segments left after the given components, passing over segments that are no component. -/
def stripBody : List Component → List Bytes → Option (List Bytes)
  | [], segments => some segments
  | _ :: _, [] => none
  | component :: rest, segment :: more =>
    match Component.ofSegment? segment with
    | none => stripBody (component :: rest) more
    | some found => if found = component then stripBody rest more else none

/-- Whether a segment stands for no component. -/
def isVoid (segment : Bytes) : Bool :=
  (Component.ofSegment? segment).isNone

/-- Segments without those at the end that stand for no component. -/
def dropVoidEnd (segments : List Bytes) : List Bytes :=
  (segments.reverse.dropWhile isVoid).reverse

/--
What is left of a path below a root, if the root's components start the path's.

The rest keeps its spelling, except that segments which stand for no component are cut off at
either end; below the empty root nothing is cut off in front.
-/
def below? (path root : Path) : Option Path :=
  match path.anchor, root.components with
  | _, [] => some ⟨path.anchorBytes ++ joinSegments (dropVoidEnd path.body)⟩
  | none, component :: rest => (stripBody (component :: rest) path.body).map trimmed
  | some start, component :: rest =>
    if start = component then (stripBody rest path.body).map trimmed else none
where
  /-- Segments as a path, without those at either end that stand for no component. -/
  trimmed (segments : List Bytes) : Path :=
    ⟨joinSegments (dropVoidEnd (segments.dropWhile isVoid))⟩

/-- A path as it is shown to someone at a root: relative to it if it lies below it. -/
def displayBelow (path root : Path) : String :=
  ((path.below? root).getD path).display

end Path

end Surface
