import Surface.Glob.Mark

/-!
Reading a written pattern into its pieces.

A star stands for any part of a name and a question mark for one byte of it.
Two stars between slashes stand for any number of directories, and next to anything else for what
one star stands for.
Patterns between braces, with commas between them, stand for any one of them.
-/

namespace Surface.Glob

/-- A group between braces that is still open. -/
structure Group where
  /-- The pieces in front of the group, last first. -/
  before : List Piece
  /-- The branches before the one at hand, last first. -/
  branches : List (List Piece)
  deriving Repr

/-- The part of a pattern that has been read. -/
structure Draft where
  /-- The pieces of the branch at hand, last first. -/
  pieces : List Piece
  /-- The groups that are open, the innermost first. -/
  groups : List Group
  deriving Repr

namespace Draft

/-- A pattern of which nothing has been read. -/
def empty : Draft := ⟨[], []⟩

/-- The pattern with one more piece; two stars in a row stand for what one does. -/
def push (draft : Draft) (piece : Piece) : Draft :=
  match piece, draft.pieces with
  | .many, .many :: _ => draft
  | _, _ => { draft with pieces := piece :: draft.pieces }

/-- The pattern with a new group. -/
def openGroup (draft : Draft) : Draft :=
  ⟨[], ⟨draft.pieces, []⟩ :: draft.groups⟩

/-- The pattern with a new branch in its innermost group; outside of groups a comma is a comma. -/
def nextBranch (draft : Draft) : Draft :=
  match draft.groups with
  | [] => draft.push (.literal (Utf8.encode [',']))
  | group :: outer =>
    ⟨[], { group with branches := draft.pieces.reverse :: group.branches } :: outer⟩

/-- The pattern with its innermost group closed; branches that stand for nothing are left out. -/
def closeGroup? (draft : Draft) : Option Draft :=
  match draft.groups with
  | [] => none
  | group :: outer =>
    let branches := (draft.pieces.reverse :: group.branches).reverse
    let kept := branches.filter fun branch => !branch.all Piece.isVoid
    some ⟨.choice kept :: group.before, outer⟩

/-- The pattern with directories in place of its last piece, unless it stands for some already. -/
def spanDirectories (draft : Draft) (span : Piece) : Draft :=
  match draft.pieces with
  | .leading :: _ => draft
  | .trailing :: _ => draft
  | pieces => { draft with pieces := span :: pieces.tail }

/-- Whether two stars after a character may stand for directories. -/
def admitsSpan (draft : Draft) (previous : Option Char) : Bool :=
  previous == some '/'
    || (!draft.groups.isEmpty && (previous == some ',' || previous == some '\x7b'))

/-- The pattern with two stars at the end of a branch. -/
def endStars (draft : Draft) (previous : Option Char) : Draft :=
  if draft.pieces.isEmpty then draft.push .many
  else if draft.admitsSpan previous then draft.spanDirectories .trailing
  else draft.push .many

/-- The pattern with two stars and the slash after them, if they stand for directories. -/
def spanSlash? (draft : Draft) (previous : Option Char) : Option Draft :=
  if draft.pieces.isEmpty then some (draft.push .leading)
  else if draft.admitsSpan previous then some (draft.spanDirectories .between)
  else none

/-- The pattern with a mark that is not one of two stars. -/
def add? (draft : Draft) : Mark → Option Draft
  | .star => some (draft.push .many)
  | .question => some (draft.push .one)
  | .slash => some (draft.push (.literal [Surface.slash]))
  | .opening => some draft.openGroup
  | .closing => draft.closeGroup?
  | .comma => some draft.nextBranch
  | .literal c => some (draft.push (.literal (Utf8.encode [c])))
  | .set set => some (draft.push (.member set.bytes))

/-- The pattern with more marks, of which the first comes after a given character. -/
def read? (draft : Draft) (previous : Option Char) : List Mark → Option Draft
  | [] => some draft
  | [.star, .star] =>
    some (if draft.pieces.isEmpty then draft.push .leading else draft.endStars previous)
  | .star :: .star :: .slash :: rest =>
    match draft.spanSlash? previous with
    | some spanned => spanned.read? (some '/') rest
    | none => ((draft.push .many).push (.literal [Surface.slash])).read? (some '/') rest
  | .star :: .star :: mark :: rest =>
    let branchEnds := !draft.groups.isEmpty && (mark = .comma || mark = .closing)
    let starred := if branchEnds then draft.endStars previous else draft.push .many
    starred.read? (some '*') (mark :: rest)
  | mark :: rest => (draft.add? mark).bind fun next => next.read? (some mark.lastChar) rest

end Draft

/-- The pieces of a written pattern, if it is well written; two stars alone match everything. -/
def ofText? (text : List Char) : Option (List Piece) :=
  ((marks? text).bind fun marks => Draft.empty.read? none marks).bind fun draft =>
    match draft.groups, draft.pieces with
    | [], [.leading] => some [.leading, .many]
    | [], pieces => some pieces.reverse
    | _ :: _, _ => none

end Surface.Glob
