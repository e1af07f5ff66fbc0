import Surface.Glob.Basic

/-!
The marks of a written pattern.

Stars, question marks, slashes, braces and commas have a meaning of their own, brackets hold a set
of characters, and a backslash makes the character after it stand for itself.
A bracket that is never closed stands for itself, and so do all brackets after it.
-/

namespace Surface.Glob

/-- A set of characters as it is written between brackets. -/
structure CharSet where
  negated : Bool
  /-- The first and the last character of each range. -/
  ranges : List (Char × Char)
  deriving DecidableEq, Repr

/-- The bytes of a range: those of its two ends, and those from the last of one to the first of
the other. -/
def CharSet.byteRanges (range : Char × Char) : List (UInt8 × UInt8) :=
  let low := Utf8.encode [range.1]
  let high := Utf8.encode [range.2]
  let single (byte : UInt8) := (byte, byte)
  if range.1 = range.2 then low.map single
  else low.dropLast.map single ++ low.getLast?.toList.zip high.head?.toList
    ++ high.tail.map single

/-- The bytes of a set of characters. -/
def CharSet.bytes (set : CharSet) : ByteSet :=
  ⟨set.negated, set.ranges.flatMap byteRanges⟩

/-- A mark of a written pattern. -/
inductive Mark where
  | star
  | question
  | slash
  | opening
  | closing
  | comma
  /-- A character that stands for itself. -/
  | literal (c : Char)
  | set (set : CharSet)
  deriving DecidableEq, Repr

namespace Mark

/-- The character that a mark ends with. -/
def lastChar : Mark → Char
  | star => '*'
  | question => '?'
  | slash => '/'
  | opening => '\x7b'
  | closing => '\x7d'
  | comma => ','
  | literal c => c
  | set _ => ']'

/-- The mark of a character that no backslash stands in front of. -/
def ofChar (c : Char) : Mark :=
  if c = '*' then star
  else if c = '?' then question
  else if c = '/' then slash
  else if c = '\x7b' then opening
  else if c = '\x7d' then closing
  else if c = ',' then comma
  else literal c

end Mark

/-- How far the reading of a set has come. -/
inductive SetStage where
  /-- Nothing has been read. -/
  | opened
  /-- The sign of negation has been read. -/
  | negated
  /-- A character has been read. -/
  | inside
  /-- A hyphen has been read after a character. -/
  | hyphen
  deriving DecidableEq, Repr

/-- The part of a set that has been read, with its ranges last first. -/
structure SetDraft where
  stage : SetStage
  set : CharSet
  deriving DecidableEq, Repr

namespace SetDraft

/-- A set of which nothing has been read. -/
def empty : SetDraft := ⟨.opened, ⟨false, []⟩⟩

/-- The set with a character of its own. -/
def add (draft : SetDraft) (c : Char) : SetDraft :=
  ⟨.inside, { draft.set with ranges := (c, c) :: draft.set.ranges }⟩

/-- The set with its last range going on to a character, which may not come before its start. -/
def extend? (draft : SetDraft) (c : Char) : Option SetDraft :=
  match draft.set.ranges with
  | [] => none
  | (low, _) :: more =>
    if c < low then none else some ⟨.inside, { draft.set with ranges := (low, c) :: more }⟩

/--
The set when a bracket closes it.

A bracket that comes first does not close the set, and a hyphen that comes last is in it.
-/
def close? (draft : SetDraft) : Option CharSet :=
  let finish (draft : SetDraft) := { draft.set with ranges := draft.set.ranges.reverse }
  match draft.stage with
  | .inside => some (finish draft)
  | .hyphen => some (finish (draft.add '-'))
  | _ => none

/-- The set with the next character. -/
def next? (draft : SetDraft) (c : Char) : Option SetDraft :=
  match draft.stage with
  | .opened =>
    if c = '!' || c = '^' then some ⟨.negated, { draft.set with negated := true }⟩
    else some (draft.add c)
  | .negated => some (draft.add c)
  | .inside => some (if c = '-' then { draft with stage := .hyphen } else draft.add c)
  | .hyphen => draft.extend? c

end SetDraft

/-- What the next character of a pattern belongs to. -/
inductive ScanMode where
  /-- The character is a mark. -/
  | plain
  /-- The character stands for itself. -/
  | escape
  /-- The character belongs to a set, which has been read from this text so far, last first. -/
  | set (draft : SetDraft) (text : List Char)
  deriving DecidableEq, Repr

/-- The part of a pattern that has been read, with its marks last first. -/
structure Scan where
  marks : List Mark
  mode : ScanMode
  deriving DecidableEq, Repr

namespace Scan

/-- A pattern of which nothing has been read. -/
def empty : Scan := ⟨[], .plain⟩

/-- The pattern with the next character; a flag says whether brackets hold sets. -/
def next? (sets : Bool) (scan : Scan) (c : Char) : Option Scan :=
  match scan.mode with
  | .escape => some ⟨.literal c :: scan.marks, .plain⟩
  | .plain =>
    if c = '\\' then some { scan with mode := .escape }
    else if c = '[' && sets then some { scan with mode := .set .empty [] }
    else some ⟨.ofChar c :: scan.marks, .plain⟩
  | .set draft text =>
    match if c = ']' then draft.close? else none with
    | some set => some ⟨.set set :: scan.marks, .plain⟩
    | none => (draft.next? c).map fun draft => { scan with mode := .set draft (c :: text) }

/-- The marks of a whole pattern, which no backslash may end and in which no set may be open. -/
def finish? (scan : Scan) : Option (List Mark) :=
  match scan.mode with
  | .plain => some scan.marks.reverse
  | _ => none

end Scan

/-- The marks of a pattern in which brackets stand for themselves. -/
def plainMarks? (text : List Char) : Option (List Mark) :=
  (text.foldlM (Scan.next? false) .empty).bind Scan.finish?

/-- The marks of a pattern, if it is well written. -/
def marks? (text : List Char) : Option (List Mark) :=
  (text.foldlM (Scan.next? true) .empty).bind fun scan =>
    match scan.mode with
    | .set _ inner =>
      (plainMarks? inner.reverse).map fun marks =>
        scan.marks.reverse ++ .literal '[' :: marks
    | _ => scan.finish?

end Surface.Glob
