import Surface.Proofs.Text.Line

/-!
A text on one line: its lines without their line ends, with one space between each two of them.
What is shown of it fits the width, and is not changed by being put on one line again.
-/

namespace Surface.Text

/--
The pieces between the line ends of a text, with one space between each two of them.

A carriage return right in front of a line end belongs to that line end. The last piece has no line
end behind it, so a carriage return there is kept.
-/
def joinLines (text : List Char) : List Char :=
  let pieces := split '\n' text
  [' '].intercalate (pieces.dropLast.map dropReturn ++ pieces.getLast?.toList)

section Return

/-- A line that ends in anything else is kept as it is. -/
theorem dropReturn_of_getLast? {line : List Char} (other : line.getLast? ≠ some '\r') :
    dropReturn line = line := by
  simp [dropReturn, other]

/-- Only the end of a line is looked at, so a character in front of others stays there. -/
theorem dropReturn_cons (c : Char) {line : List Char} (present : line ≠ []) :
    dropReturn (c :: line) = c :: dropReturn line := by
  -- The line and the longer one end in the same character.
  have last : (c :: line).getLast? = line.getLast? := by
    rw [List.getLast?_cons, List.getLast?_eq_some_getLast present]
    rfl
  unfold dropReturn
  rw [last, List.dropLast_cons_of_ne_nil present]
  split <;> rfl

end Return

section Flatten

/--
A character put in front of a text that is already on one line.

The flag says whether that text starts with a space standing for a line end: a carriage return in
front of it belongs to the same line end.
-/
def consFlat (c : Char) (rest : List Char × Bool) : List Char × Bool :=
  if c == '\n' then (' ' :: rest.1, true)
  else if c == '\r' && rest.2 then (rest.1, false)
  else (c :: rest.1, false)

/-- A text put on one line in one pass, from its end. -/
def onePass (text : List Char) : List Char × Bool :=
  text.foldr consFlat ([], false)

/-- The flag of the pass over a text says whether the text starts with a line end. -/
theorem onePass_snd (text : List Char) : (onePass text).2 = (text.head? == some '\n') := by
  cases text with
  | nil => rfl
  | cons c text =>
    rw [onePass, List.foldr_cons, List.head?_cons]
    unfold consFlat
    -- Only a line end raises the flag, and every other character lowers it.
    split
    · rename_i isEnd
      simpa using isEnd
    · rename_i inside
      have differs : c ≠ '\n' := by simpa using inside
      split <;> simp [differs]

/-- One more character in front of a text, in terms of the text itself. -/
theorem onePass_cons (c : Char) (text : List Char) :
    onePass (c :: text) = consFlat c ((onePass text).1, text.head? == some '\n') := by
  rw [← onePass_snd]
  rfl

/-- What both replacements write behind a text is what the pass makes of the rest. -/
theorem replaceEnds_replaceReturnsAfter (done text : List Char) :
    replaceEnds (replaceReturnsAfter done text) = replaceEnds done.reverse ++ (onePass text).1 := by
  -- By the cases of the first replacement, which looks two characters ahead.
  fun_induction replaceReturnsAfter done text with
  | case1 done rest ih =>
    rw [ih, onePass_cons, onePass_cons]
    simp [replaceEnds, consFlat]
  | case2 done c rest alone ih =>
    rw [ih, onePass_cons, consFlat]
    -- A carriage return is kept, since no line end is right behind it.
    have kept : (c == '\r' && rest.head? == some '\n') = false := by
      cases rest with
      | nil => simp
      | cons next rest =>
        simp only [List.head?_cons, Bool.and_eq_false_iff]
        by_cases isReturn : c = '\r'
        · right
          simpa using fun isEnd => alone rest isReturn (by rw [isEnd])
        · left
          simpa using isReturn
    by_cases isEnd : c = '\n'
    · simp [replaceEnds, isEnd]
    · simp [replaceEnds, isEnd, kept]
  | case3 done => simp [onePass]

/-- The two replacements come to one pass from the end. -/
theorem flatten_eq_onePass (text : List Char) : flatten text = (onePass text).1 :=
  replaceEnds_replaceReturnsAfter [] text

/-- One more character in front of a text that is put on one line. -/
theorem flatten_cons (c : Char) (text : List Char) :
    flatten (c :: text) = (consFlat c (flatten text, text.head? == some '\n')).1 := by
  rw [flatten_eq_onePass, flatten_eq_onePass, onePass_cons]

/-- A line end becomes a space. -/
@[simp] theorem flatten_newline (text : List Char) :
    flatten ('\n' :: text) = ' ' :: flatten text := by
  simp [flatten_cons, consFlat]

/-- A carriage return in front of a line end goes with it. -/
@[simp] theorem flatten_return_newline (text : List Char) :
    flatten ('\r' :: '\n' :: text) = flatten ('\n' :: text) := by
  rw [flatten_cons]
  simp [consFlat]

/-- A character that belongs to no line end stays. -/
theorem flatten_cons_of_ne {c : Char} {text : List Char} (inside : c ≠ '\n')
    (alone : c = '\r' → text.head? ≠ some '\n') : flatten (c :: text) = c :: flatten text := by
  rw [flatten_cons, consFlat, if_neg (by simpa using inside), if_neg]
  -- A carriage return would have to stand in front of a line end.
  simpa using alone

/-- A text without line ends is on one line already, whatever carriage returns it has. -/
theorem flatten_of_not_mem {text : List Char} (single : '\n' ∉ text) : flatten text = text := by
  induction text with
  | nil => rfl
  | cons c text ih =>
    rw [List.mem_cons, not_or] at single
    -- No line end is left for a carriage return to belong to.
    have alone : text.head? ≠ some '\n' :=
      fun starts => single.2 (List.mem_of_head? starts)
    rw [flatten_cons_of_ne (Ne.symm single.1) fun _ => alone, ih single.2]

/-- A line in front of a line end is kept but for the carriage return of that line end. -/
theorem flatten_append_newline {line : List Char} (single : '\n' ∉ line) (rest : List Char) :
    flatten (line ++ '\n' :: rest) = dropReturn line ++ ' ' :: flatten rest := by
  -- By the characters of the line, the last of which is the only one that can be lost.
  induction line with
  | nil => exact flatten_newline rest
  | cons c line ih =>
    rw [List.mem_cons, not_or] at single
    by_cases last : line = []
    · subst last
      by_cases isReturn : c = '\r'
      · subst isReturn
        rw [List.singleton_append, flatten_return_newline, flatten_newline]
        rfl
      · have kept : dropReturn [c] = [c] := dropReturn_of_getLast? (by simpa using isReturn)
        rw [List.singleton_append, flatten_cons_of_ne (Ne.symm single.1) (absurd · isReturn),
          flatten_newline, kept, List.singleton_append]
    · -- The next character is of the same line, so it is no line end.
      have alone : (line ++ '\n' :: rest).head? ≠ some '\n' := by
        obtain ⟨next, more, rfl⟩ := List.exists_cons_of_ne_nil last
        intro starts
        have isEnd : next = '\n' := Option.some.inj starts
        exact single.2 (by simp [isEnd])
      rw [List.cons_append, flatten_cons_of_ne (Ne.symm single.1) fun _ => alone, ih single.2,
        dropReturn_cons c last, List.cons_append]

/-- Lines between line ends become lines between spaces. -/
theorem flatten_intercalate {pieces : List (List Char)} (present : pieces ≠ [])
    (single : ∀ piece ∈ pieces, '\n' ∉ piece) :
    flatten (['\n'].intercalate pieces)
      = [' '].intercalate (pieces.dropLast.map dropReturn ++ pieces.getLast?.toList) := by
  induction pieces with
  | nil => exact absurd rfl present
  | cons piece pieces ih =>
    have first := single piece List.mem_cons_self
    cases pieces with
    | nil =>
      -- The last piece has no line end behind it.
      simpa using flatten_of_not_mem first
    | cons next more =>
      have rest := ih (by simp) fun other member => single other (List.mem_cons_of_mem _ member)
      have following : (next :: more).dropLast.map dropReturn ++ (next :: more).getLast?.toList
          ≠ [] := by simp
      rw [intercalate_cons _ _ (List.cons_ne_nil next more), flatten_append_newline first, rest,
        ← intercalate_cons _ _ following]
      rfl

/-- Putting a text on one line joins its lines. -/
theorem flatten_eq_joinLines (text : List Char) : flatten text = joinLines text := by
  -- The text is what its pieces make up, with the line ends between them.
  have pieces := separates_split '\n' text
  have joined := flatten_intercalate pieces.present pieces.whole
  rw [pieces.joined] at joined
  exact joined

end Flatten

section Width

variable {width : Nat}

/-- A text that fits is not cut. -/
theorem shorten_of_length_le {text : List Char} (fits : text.length ≤ width) :
    shorten width text = text :=
  if_pos fits

/-- A text that does not fit loses its end to three dots. -/
theorem shorten_of_lt_length {text : List Char} (long : width < text.length) :
    shorten width text = text.take (width - 3) ++ "...".toList :=
  if_neg (Nat.not_le.mpr long)

/-- A text that was cut fits, if there is room for the dots. -/
theorem length_shorten_le (room : 3 ≤ width) (text : List Char) :
    (shorten width text).length ≤ width := by
  rcases Nat.lt_or_ge width text.length with long | fits
  · -- Three characters less than there is room for are kept, and the dots fill that room.
    have dots : "...".toList.length = 3 := rfl
    rw [shorten_of_lt_length long, List.length_append, List.length_take, dots]
    omega
  · rw [shorten_of_length_le fits]
    exact fits

/-- A text that fits on one line is shown as it is. -/
theorem oneLine_of_fits {text : List Char} (single : '\n' ∉ text) (fits : text.length ≤ width) :
    oneLine width text = text := by
  rw [oneLine, flatten_of_not_mem single, shorten_of_length_le fits]

/--
A text on one line is its lines joined by spaces, or as much of them as there is room for.

Where they do not fit, three dots stand for the rest. So there is no line end in it, it is no longer
than the width, and putting it on one line again changes nothing.
-/
theorem oneLine_joins_lines (room : 3 ≤ width) (text : List Char) :
    ((joinLines text).length ≤ width → oneLine width text = joinLines text)
      ∧ (width < (joinLines text).length →
          oneLine width text = (joinLines text).take (width - 3) ++ "...".toList)
      ∧ '\n' ∉ oneLine width text
      ∧ (oneLine width text).length ≤ width
      ∧ oneLine width (oneLine width text) = oneLine width text := by
  have cut : oneLine width text = shorten width (joinLines text) := by
    rw [oneLine, flatten_eq_joinLines]
  have single := not_mem_oneLine width text
  have fits : (oneLine width text).length ≤ width := by
    rw [cut]
    exact length_shorten_le room (joinLines text)
  -- What is on one line and fits is not changed again.
  refine ⟨?_, ?_, single, fits, oneLine_of_fits single fits⟩
  · intro short
    rw [cut, shorten_of_length_le short]
  · intro long
    rw [cut, shorten_of_lt_length long]

end Width

/-- Two carriage returns, a line of nothing but one, and characters of several bytes. -/
def returningText : List Char :=
  "é\r\r\n\r\nçç\r".toList

/-- Each line end takes one carriage return with it, and the cut is counted in characters. -/
theorem oneLine_joins_lines_returns :
    joinLines returningText = "é\r  çç\r".toList
      ∧ (3 ≤ 7 ∧ oneLine 7 returningText = "é\r  çç\r".toList)
      ∧ (3 ≤ 6 ∧ oneLine 6 returningText = "é\r ...".toList)
      ∧ oneLine 6 "é\r ...".toList = "é\r ...".toList := by
  have joined : joinLines returningText = "é\r  çç\r".toList := by decide
  obtain ⟨whole, -⟩ := oneLine_joins_lines (show 3 ≤ 7 by decide) returningText
  obtain ⟨-, short, -, -, again⟩ := oneLine_joins_lines (show 3 ≤ 6 by decide) returningText
  -- The lines have seven characters, so they fit seven and do not fit six.
  have kept := whole (by rw [joined]; decide)
  have shortened := short (by rw [joined]; decide)
  rw [joined] at kept shortened
  rw [shortened] at again
  exact ⟨joined, ⟨by decide, kept⟩, ⟨by decide, shortened⟩, again⟩

end Surface.Text
