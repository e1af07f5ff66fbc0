import Surface.FileSystem.Basic
import Surface.Glob.Reader
import Surface.Text.Line

/-! The rules of an ignore file: which entries below its directory they speak of. -/

namespace Surface

/-- A line of an ignore file. -/
structure IgnoreRule where
  pieces : List Glob.Piece
  verdict : Verdict
  /-- Whether the rule is about directories only. -/
  directoriesOnly : Bool
  deriving Repr

namespace IgnoreRule

/-- The pattern of a rule: one without a slash is about names in any directory. -/
def patternText (anchored : Bool) (text : List Char) : List Char :=
  let anywhere := !anchored && !text.contains '/'
    && !("**/".toList.isPrefixOf text || text == "**".toList)
  let placed := if anywhere then "**/".toList ++ text else text
  if "/**".toList.isSuffixOf placed then placed ++ "/*".toList else placed

/-- The rule of a pattern, which is about directories only if a slash ends it. -/
def ofPattern? (verdict : Verdict) (anchored : Bool) (text : List Char) : Option IgnoreRule :=
  if text.getLast? == some '/' then
    let inner := text.dropLast
    let bare := if inner.getLast? == some '\\' then inner.dropLast else inner
    (Glob.ofText? (patternText anchored bare)).map fun pieces => ⟨pieces, verdict, true⟩
  else (Glob.ofText? (patternText anchored text)).map fun pieces => ⟨pieces, verdict, false⟩

/-- The rule of a pattern that may be anchored by a slash in front. -/
def ofAnchored? (verdict : Verdict) (text : List Char) : Option IgnoreRule :=
  match text with
  | '/' :: rest => ofPattern? verdict true rest
  | _ => ofPattern? verdict false text

/--
The rule of a line.

Blank lines and comments are no rules.
An exclamation mark in front makes a rule that allows, and a backslash in front of it or of a number
sign takes its meaning away.
-/
def ofLine? (line : List Char) : Option IgnoreRule :=
  let text :=
    if "\\ ".toList.isSuffixOf line then line else Text.dropEndWhile Text.isBlank line
  match text with
  | [] => none
  | '#' :: _ => none
  | '\\' :: '!' :: rest => ofPattern? .ignored false ('!' :: rest)
  | '\\' :: '#' :: rest => ofPattern? .ignored false ('#' :: rest)
  | '!' :: rest => ofAnchored? .allowed rest
  | _ => ofAnchored? .ignored text

/-- The mark that some editors put at the start of a file to name its encoding. -/
def encodingMark : Char := Char.ofNat 0xFEFF

/-- The lines of a file without the encoding marks at its start. -/
def dropEncodingMarks : List (List Char) → List (List Char)
  | [] => []
  | line :: rest => line.dropWhile (· == encodingMark) :: rest

/-- The rules of an ignore file, up to the first line that is no well-formed text. -/
def ofFile (bytes : Bytes) : List IgnoreRule :=
  let lines := ((Text.readLines bytes).takeWhile Option.isSome).filterMap id
  (dropEncodingMarks lines).filterMap ofLine?

/-- Whether a rule is about an entry, given the names that lead to it from the rule's directory. -/
def concerns (rule : IgnoreRule) (names : List Name) (isDirectory : Bool) : Bool :=
  (isDirectory || !rule.directoriesOnly) && Glob.matchesPath rule.pieces (joinSegments names)

/-- What rules say of an entry: the last one that is about it decides. -/
def judge (rules : List IgnoreRule) (names : List Name) (isDirectory : Bool) : Option Verdict :=
  (rules.reverse.find? fun rule => rule.concerns names isDirectory).map (·.verdict)

end IgnoreRule

/-- The rules of the ignore file at a path, none when it is not there or cannot be read. -/
def FileSystem.rulesAt (fs : FileSystem) (path : Path) : List IgnoreRule :=
  match fs.read? path with
  | some bytes => IgnoreRule.ofFile bytes
  | none => []

end Surface
