import Surface.Proofs.Rules.Component
import Surface.Proofs.Tree.Span

/-!
Fenced documents.
A document has frontmatter if it can be cut into lines that end in a fence, code without one, and a
rest that starts with one; it can be cut so in one way only, and the code is what the cut encloses.
-/

namespace Surface.Rules

open Text (IsClosed firstLine)

/-- What a line of a fence looks like once it is trimmed. -/
def fence : List Char :=
  ['-', '-', '-']

/-- The lines up to the code: some that are blank, and a fence. -/
def Opens (row : Nat) (front : List Char) : Prop :=
  ∃ blanks opening, front = (blanks ++ [opening]).flatten ∧ row = (blanks ++ [opening]).length
    ∧ (∀ line ∈ blanks ++ [opening], IsClosed line)
    ∧ (∀ line ∈ blanks, Text.trim line = []) ∧ Text.trim opening = fence

/-- Lines of code, none of which is a fence. -/
def Encloses (code : List Char) : Prop :=
  ∃ block : List (List Char), code = block.flatten
    ∧ ∀ line ∈ block, IsClosed line ∧ Text.trim line ≠ fence

/-- What follows the code: its first line is a fence, whether a line end closes it or not. -/
def Closes (rest : List Char) : Prop :=
  rest ≠ [] ∧ Text.trim (firstLine rest) = fence

/-- A cut of a document around its frontmatter. -/
structure Fenced (text : List Char) (row : Nat) (front code rest : List Char) : Prop where
  whole : text = front ++ code ++ rest
  opens : Opens row front
  encloses : Encloses code
  closes : Closes rest

/-- A line is a fence if nothing but three dashes is left of it. -/
theorem isFence_iff {line : List Char} : isFence line = true ↔ Text.trim line = fence := by
  simp [isFence, fence]

/-- A line is blank if nothing is left of it. -/
theorem isBlankLine_iff {line : List Char} : isBlankLine line = true ↔ Text.trim line = [] := by
  simp [isBlankLine]

/-- A fence is not blank. -/
theorem isBlankLine_of_isFence {line : List Char} (isFence : isFence line = true) :
    isBlankLine line = false := by
  simp [isBlankLine, isFence_iff.mp isFence, fence]

/-- The line end behind a line does not matter to whether it is a fence. -/
theorem isFence_concat (line : List Char) : isFence (line ++ ['\n']) = isFence line := by
  rw [isFence, Text.trim_concat (by decide), ← isFence]

/-- The first of the lines that start with a fence is one. -/
theorem closes_iff {rest : List Char} :
    Closes rest ↔ ∃ closing more, Text.lines rest = closing :: more ∧ isFence closing = true := by
  -- The end of a line is a blank, so it makes no difference to a fence.
  by_cases present : rest = []
  · subst present
    simp [Closes, Text.lines]
  · obtain ⟨line, more, cut, first⟩ := Text.lines_eq_cons present
    have same : isFence line = isFence (firstLine rest) := by
      rcases first with first | first
      · rw [first]
      · rw [first, isFence_concat]
    simp [Closes, present, cut, ← isFence_iff, same]

/-- Lines cut around a block between two fences are what the search for frontmatter looks for. -/
theorem frontmatter_of_lines {text : List Char} {blanks block more : List (List Char)}
    {opening closing : List Char}
    (cut : Text.lines text = blanks ++ opening :: (block ++ closing :: more))
    (blank : ∀ line ∈ blanks, isBlankLine line = true) (opens : isFence opening = true)
    (inside : ∀ line ∈ block, isFence line = false) (closes : isFence closing = true) :
    frontmatter text = some (blanks.length + 1, block.flatten) := by
  have notBlank := isBlankLine_of_isFence opens
  -- The first search stops at the opening fence, and the second one at the closing one.
  have before : (Text.lines text).takeWhile isBlankLine = blanks := by
    rw [cut, List.takeWhile_append_of_pos blank, List.takeWhile_cons_of_neg (by simp [notBlank]),
      List.append_nil]
  have behind : (Text.lines text).dropWhile isBlankLine
      = opening :: (block ++ closing :: more) := by
    rw [cut, List.dropWhile_append_of_pos blank, List.dropWhile_cons_of_neg (by simp [notBlank])]
  have code : (block ++ closing :: more).takeWhile (!isFence ·) = block := by
    rw [List.takeWhile_append_of_pos fun line member => by simp [inside line member],
      List.takeWhile_cons_of_neg (by simp [closes]), List.append_nil]
  simp [frontmatter_eq, betweenFences, behind, before, code, opens]

/-- A cut of a document is a cut of its lines. -/
theorem Fenced.lines_eq {text front code rest : List Char} {row : Nat}
    (fenced : Fenced text row front code rest) :
    ∃ blanks opening block closing more,
      Text.lines text = blanks ++ opening :: (block ++ closing :: more)
        ∧ (∀ line ∈ blanks, isBlankLine line = true) ∧ isFence opening = true
        ∧ (∀ line ∈ block, isFence line = false) ∧ isFence closing = true
        ∧ row = blanks.length + 1 ∧ front = (blanks ++ [opening]).flatten
        ∧ code = block.flatten := by
  obtain ⟨whole, ⟨blanks, opening, isFront, counted, closed, blank, opens⟩,
    ⟨block, isCode, inside⟩, closes⟩ := fenced
  obtain ⟨closing, more, cut, ends⟩ := closes_iff.mp closes
  refine ⟨blanks, opening, block, closing, more, ?_, fun line member => ?_, isFence_iff.mpr opens,
    fun line member => ?_, ends, ?_, isFront, isCode⟩
  · -- All lines in front of the rest are closed, so the lines of the parts are put together.
    have lines : Text.lines text = (blanks ++ [opening]) ++ (block ++ Text.lines rest) := by
      rw [whole, isFront, isCode, List.append_assoc, Text.lines_flatten_append closed,
        Text.lines_flatten_append fun line member => (inside line member).1]
    rw [lines, cut]
    simp
  · exact isBlankLine_iff.mpr (blank line member)
  · rw [Bool.eq_false_iff, Ne, isFence_iff]
    exact (inside line member).2
  · simpa using counted

/-- What is between two fences is found as the frontmatter. -/
theorem Fenced.frontmatter_eq {text front code rest : List Char} {row : Nat}
    (fenced : Fenced text row front code rest) : frontmatter text = some (row, code) := by
  -- The cut says of whole lines what the loop asks of them one by one.
  obtain ⟨blanks, opening, block, closing, more, cut, blank, opens, inside, closes, counted, _,
    isCode⟩ := fenced.lines_eq
  rw [counted, isCode]
  exact frontmatter_of_lines cut blank opens inside closes

/-- In front of the code are as many lines as its row says. -/
theorem Fenced.front_eq {text front code rest : List Char} {row : Nat}
    (fenced : Fenced text row front code rest) :
    front = ((Text.lines text).take row).flatten := by
  -- The lines in front are the blank ones and the opening fence.
  obtain ⟨blanks, opening, block, closing, more, cut, _, _, _, _, counted, isFront, _⟩ :=
    fenced.lines_eq
  have lines : Text.lines text = (blanks ++ [opening]) ++ (block ++ closing :: more) := by
    rw [cut]
    simp
  have length : row = (blanks ++ [opening]).length := by simpa using counted
  rw [isFront, lines, length, List.take_left]

/-- Where frontmatter is found, the document can be cut around it. -/
theorem exists_fenced_of_frontmatter {text code : List Char} {row : Nat}
    (found : frontmatter text = some (row, code)) :
    ∃ front rest, Fenced text row front code rest := by
  obtain ⟨blanks, opening, block, closing, more, cut, blank, opens, inside, closes, counted,
    isCode⟩ := lines_of_frontmatter found
  -- The closing fence is the first line that may lack a line end.
  have ahead : Text.lines text = (blanks ++ opening :: block) ++ closing :: more := by
    rw [cut]
    simp
  have closed := Text.isClosed_of_lines ahead
  have whole : text = (blanks ++ opening :: block).flatten ++ (closing :: more).flatten := by
    rw [← List.flatten_append, ← ahead, Text.flatten_lines]
  -- So the lines of what follows the code are those from that fence on.
  have rest : Text.lines (closing :: more).flatten = closing :: more := by
    have lines := Text.lines_flatten_append closed (closing :: more).flatten
    rw [← whole, ahead] at lines
    exact (List.append_cancel_left lines).symm
  refine ⟨(blanks ++ [opening]).flatten, (closing :: more).flatten, ?_, ?_, ?_, ?_⟩
  · rw [whole, isCode]
    simp
  · refine ⟨blanks, opening, rfl, by simpa using counted, fun line member => ?_,
      fun line member => isBlankLine_iff.mp (blank line member), isFence_iff.mp opens⟩
    simp only [List.mem_append, List.mem_singleton] at member
    exact closed line (List.mem_append.mpr (member.imp_right fun same => by simp [same]))
  · refine ⟨block, isCode, fun line member => ⟨closed line (by simp [member]), fun same => ?_⟩⟩
    rw [← isFence_iff, inside line member] at same
    cases same
  · exact closes_iff.mpr ⟨closing, more, rest, closes⟩

/-- A document can be cut around its frontmatter in one way only. -/
theorem Fenced.unique {text front front' code code' rest rest' : List Char} {row row' : Nat}
    (one : Fenced text row front code rest) (other : Fenced text row' front' code' rest') :
    row = row' ∧ front = front' ∧ code = code' ∧ rest = rest' := by
  -- Both cuts are found by the same search, so they agree on the row and on the code.
  have same := one.frontmatter_eq.symm.trans other.frontmatter_eq
  simp only [Option.some.injEq, Prod.mk.injEq] at same
  obtain ⟨rfl, rfl⟩ := same
  have fronts : front = front' := one.front_eq.trans other.front_eq.symm
  subst fronts
  exact ⟨rfl, rfl, rfl, List.append_cancel_left (one.whole.symm.trans other.whole)⟩

/-- In the bytes of a document the code lies between two offsets, both of them at characters. -/
theorem Fenced.slice {text front code rest : List Char} {row : Nat}
    (fenced : Fenced text row front code rest) :
    let bytes := Utf8.encode text
    let start := (Utf8.encode front).length
    let stop := start + (Utf8.encode code).length
    IsBoundary bytes start ∧ IsBoundary bytes stop ∧ stop ≤ bytes.length
      ∧ (bytes.drop start).take (stop - start) = Utf8.encode code := by
  intro bytes start stop
  have parts : bytes = Utf8.encode front ++ (Utf8.encode code ++ Utf8.encode rest) := by
    rw [← Utf8.encode_append, ← Utf8.encode_append, ← List.append_assoc, ← fenced.whole]
  refine ⟨?_, ?_, ?_, ?_⟩
  · have first := isBoundary_encode_append front (code ++ rest)
    rwa [← List.append_assoc, ← fenced.whole] at first
  · -- The code ends where everything up to its end does.
    have second := isBoundary_encode_append (front ++ code) rest
    rwa [← fenced.whole, Utf8.encode_append, List.length_append] at second
  · simp only [parts, stop, start, List.length_append]
    omega
  · rw [parts, List.drop_left, Nat.add_sub_cancel_left, List.take_left]

/--
Frontmatter is what a document encloses between its first two fences.

It is found in exactly the documents that can be cut around it, which none can in two ways, and what
is found is the code and the number of lines in front of it. In the bytes of the document that many
lines lead up to where the code starts, and it starts and ends between characters.
-/
theorem frontmatter_cuts (text : List Char) :
    (∀ row code, frontmatter text = some (row, code) ↔
      ∃ front rest, Fenced text row front code rest) ∧
    (∀ row front code rest row' front' code' rest', Fenced text row front code rest →
      Fenced text row' front' code' rest' →
      row = row' ∧ front = front' ∧ code = code' ∧ rest = rest') ∧
    (frontmatter text = none ↔ ¬ ∃ row front code rest, Fenced text row front code rest) ∧
    (∀ row code, frontmatter text = some (row, code) →
      let bytes := Utf8.encode text
      let start := (Utf8.encode ((Text.lines text).take row).flatten).length
      let stop := start + (Utf8.encode code).length
      IsBoundary bytes start ∧ IsBoundary bytes stop ∧ stop ≤ bytes.length
        ∧ (bytes.drop start).take (stop - start) = Utf8.encode code) := by
  refine ⟨?found, fun _ _ _ _ _ _ _ _ => Fenced.unique, ?absent, ?slice⟩
  case found =>
    intro row code
    exact ⟨exists_fenced_of_frontmatter, fun ⟨front, rest, fenced⟩ => fenced.frontmatter_eq⟩
  -- The loop and the cut agree where there is a cut, so they agree where there is none.
  case absent =>
    constructor
    · rintro missing ⟨row, front, code, rest, fenced⟩
      rw [fenced.frontmatter_eq] at missing
      cases missing
    · intro uncut
      cases answer : frontmatter text with
      | none => rfl
      | some pair =>
        obtain ⟨front, rest, fenced⟩ := exists_fenced_of_frontmatter answer
        exact absurd ⟨_, front, _, rest, fenced⟩ uncut
  case slice =>
    intro row code answer
    obtain ⟨front, rest, fenced⟩ := exists_fenced_of_frontmatter answer
    rw [← fenced.front_eq]
    exact fenced.slice

/-- A document with a wide blank in front, a line of four dashes, and no line end behind it. -/
def wideDocument : List Char :=
  "\u3000\r\n ---\t\nconst é = 1;\r\n----\n--- ".toList

/-- Blanks around a fence do not count, nor does a missing line end, but four dashes are none. -/
theorem frontmatter_cuts_wideDocument :
    let code := "const é = 1;\r\n----\n".toList
    (∃ front rest, Fenced wideDocument 2 front code rest)
      ∧ (∀ row front other rest, Fenced wideDocument row front other rest → other = code)
      ∧ IsBoundary (Utf8.encode wideDocument) 11 ∧ IsBoundary (Utf8.encode wideDocument) 31
      ∧ ((Utf8.encode wideDocument).drop 11).take 20 = Utf8.encode code := by
  intro code
  obtain ⟨found, unique, _, slice⟩ := frontmatter_cuts wideDocument
  have answer : frontmatter wideDocument = some (2, code) := by decide +kernel
  obtain ⟨front, rest, fenced⟩ := (found 2 code).mp answer
  refine ⟨⟨front, rest, fenced⟩, fun row front' other rest' cut => ?_, ?_⟩
  · exact (unique row front' other rest' 2 front code rest cut fenced).2.2.1
  · obtain ⟨first, second, _, same⟩ := slice 2 code answer
    -- One character of the document takes two bytes.
    have start : (Utf8.encode ((Text.lines wideDocument).take 2).flatten).length = 11 := by
      decide +kernel
    have width : (Utf8.encode code).length = 20 := by decide +kernel
    rw [start] at first second same
    rw [width] at second same
    exact ⟨first, second, same⟩

end Surface.Rules
