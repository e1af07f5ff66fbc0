import Surface.Proofs.Text.Blank
import Surface.Proofs.Text.Line
import Surface.Proofs.Text.Utf8
import Surface.Tree.Basic

/-!
The first line of a node, in bytes.
Decoding all of a node and then cutting the text at its first line end comes to the same as cutting
the bytes at the first line feed and then decoding what is left, however ill-formed the bytes are.
-/

namespace Surface.Utf8

open Text (lineFeed)

/-- A plain byte cuts the bytes where its character cuts the decoded text. -/
theorem takeWhile_decode {mark : UInt8} (plain : IsPlain mark) (bytes : Bytes) :
    (decode bytes).takeWhile (· != Char.ofNat mark.toNat)
      = decode (bytes.takeWhile (· != mark)) := by
  by_cases present : mark ∈ bytes
  · -- What is open in front of the first such byte is closed by it, as it would be by the end.
    obtain ⟨front, back, rfl, absent⟩ := List.eq_append_cons_of_mem present
    have missing : Char.ofNat mark.toNat ∉ decode front :=
      (mem_decode_of_isPlain plain).not.mpr absent
    rw [decode_append_cons plain, Text.takeWhile_ne_append_cons missing,
      Text.takeWhile_ne_append_cons absent]
  · -- Decoding does not make the character up, so neither side is cut.
    have missing : Char.ofNat mark.toNat ∉ decode bytes :=
      (mem_decode_of_isPlain plain).not.mpr present
    rw [List.takeWhile_eq_self_iff.mpr (Text.bne_of_mem missing),
      List.takeWhile_eq_self_iff.mpr (Text.bne_of_mem present)]

/-- The first line of a decoded text is decoded from the bytes in front of the first line feed. -/
theorem firstLine_decode (bytes : Bytes) :
    Text.firstLine (decode bytes) = decode (bytes.takeWhile (· != lineFeed)) :=
  takeWhile_decode (show IsPlain lineFeed by decide) bytes

end Surface.Utf8

namespace Surface.Text

/--
The first line of a text as a reader of lines gives it, and nothing if there is no line.

The line end is taken off, and a carriage return in front of it belongs to it.
-/
def openingLine (text : List Char) : List Char :=
  match (lines text).head? with
  | none => []
  | some line => if line.getLast? == some '\n' then dropReturn line.dropLast else line

/-- A carriage return at the end of a line is a blank, so trimming does not miss it. -/
theorem trim_dropReturn (line : List Char) : trim (dropReturn line) = trim line := by
  -- Without a carriage return at its end, the line stays as it is.
  unfold dropReturn
  split
  · rename_i returns
    obtain ⟨front, rfl⟩ := List.getLast?_eq_some_iff.mp (eq_of_beq returns)
    rw [List.dropLast_concat, trim_concat (by decide)]
  · rfl

/-- What a line end is made of makes no difference to a line that is trimmed. -/
theorem trim_openingLine (text : List Char) : trim (openingLine text) = trim (firstLine text) := by
  by_cases empty : text = []
  · subst empty
    rfl
  · obtain ⟨line, more, cut, first⟩ := lines_eq_cons empty
    unfold openingLine
    rw [cut, List.head?_cons]
    dsimp only
    rcases first with rfl | rfl
    · -- Without a line end behind it, the line is all there is and is given as it is.
      have unended : ((firstLine text).getLast? == some '\n') = false := by
        rw [beq_eq_false_iff_ne]
        intro ends
        exact not_mem_firstLine text (List.mem_of_getLast? ends)
      simp [unended]
    · rw [if_pos (by simp), List.dropLast_concat, trim_dropReturn]

end Surface.Text

namespace Surface.Node

open Text (lineFeed)

/--
The bytes of a node in front of its first line feed, or all of them when there is none.

Offsets past the end of the source are taken back to that end, and so is a start past the stop.
-/
def headBytes (node : Node) (source : Bytes) : Bytes :=
  let stop := min node.stop source.length
  let start := min node.start stop
  (source.extract start stop).takeWhile (· != lineFeed)

/-- What a node covers reaches from one offset to the other, both kept inside the source. -/
theorem bytes_eq_extract (node : Node) (source : Bytes) :
    node.bytes source = source.extract (min node.start (min node.stop source.length))
      (min node.stop source.length) := by
  rw [bytes, List.extract_eq_take_drop]
  by_cases inside : node.start ≤ min node.stop source.length
  · -- Only the stop can lie outside, and then both take all that is left.
    rw [Nat.min_eq_left inside, List.take_eq_take_iff, List.length_drop]
    omega
  · -- The node starts behind its stop or behind the source, so it covers nothing.
    have outside : node.stop - node.start = 0 ∨ source.length ≤ node.start := by omega
    rw [Nat.min_eq_right (Nat.le_of_not_le inside), Nat.sub_self, List.take_zero]
    rcases outside with nothing | past
    · rw [nothing, List.take_zero]
    · rw [List.drop_of_length_le past, List.take_nil]

/-- The first line of a node's text is decoded from the first bytes of the node. -/
theorem firstLine_text (node : Node) (source : Bytes) :
    Text.firstLine (node.text source) = Utf8.decode (node.headBytes source) := by
  rw [text, Utf8.firstLine_decode, bytes_eq_extract]
  rfl

/--
The headline of a node is decoded from its bytes in front of the first line feed, and trimmed.

It is the same whether the line is cut before decoding or after it, and whether or not a carriage
return is taken for a part of the line end. So sources that give a node the same first bytes give it
the same headline, whatever follows these bytes.
-/
theorem headline_of_headBytes (node : Node) (source : Bytes) :
    node.headline source = Text.trim (Utf8.decode (node.headBytes source))
      ∧ Text.firstLine (node.text source) = Utf8.decode (node.headBytes source)
      ∧ node.headline source = Text.trim (Text.openingLine (node.text source))
      ∧ ∀ other, node.headBytes other = node.headBytes source →
          node.headline other = node.headline source := by
  -- The bytes of the first line are all that is decoded of the node.
  have decoded : ∀ bytes, node.headline bytes = Text.trim (Utf8.decode (node.headBytes bytes)) := by
    intro bytes
    rw [headline, firstLine_text]
  refine ⟨decoded source, firstLine_text node source, (Text.trim_openingLine _).symm, ?_⟩
  intro other same
  rw [decoded, decoded, same]

/-- A node that reaches past the end of some sources. -/
def reachingNode : Node :=
  ⟨"function_definition", none, 2, 12, 0, []⟩

/-- A source with a character of three bytes that a line end breaks off after the second one. -/
def brokenSource : Bytes :=
  [0x3B, 0x0A, 0x20, 0x66, 0xE2, 0x82, 0x0D, 0x0A, 0xAC, 0x67]

/-- A source that stops in that character, with a carriage return but no line end behind it. -/
def endingSource : Bytes :=
  [0x3B, 0x3B, 0x20, 0x66, 0xE2, 0x82, 0x0D]

/-- A broken character is replaced alike at a line end and at the end of the source. -/
theorem headline_of_headBytes_broken :
    reachingNode.headBytes endingSource = reachingNode.headBytes brokenSource
      ∧ reachingNode.headline brokenSource = ['f', '\uFFFD']
      ∧ reachingNode.headline endingSource = ['f', '\uFFFD'] := by
  -- The first line has the same bytes in both sources, so it is shown the same.
  have same : reachingNode.headBytes endingSource = reachingNode.headBytes brokenSource := by decide
  obtain ⟨decoded, -, -, agree⟩ := headline_of_headBytes reachingNode brokenSource
  have shown : reachingNode.headline brokenSource = ['f', '\uFFFD'] := by
    rw [decoded]
    decide
  exact ⟨same, shown, (agree endingSource same).trans shown⟩

end Surface.Node
