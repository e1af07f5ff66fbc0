import Mathlib.Data.List.TakeWhile
import Surface.Text.Line

/-! Lines of a text: what each of them holds, and where those of a longer text lie. -/

namespace Surface.Text

/-- Separators between a piece and further ones. -/
theorem intercalate_cons {α : Type} (separator : α) (piece : List α)
    {pieces : List (List α)} (more : pieces ≠ []) :
    [separator].intercalate (piece :: pieces)
      = piece ++ separator :: [separator].intercalate pieces := by
  obtain ⟨next, rest, rfl⟩ := List.exists_cons_of_ne_nil more
  rfl

section Split

variable {α : Type} [BEq α]

/-- Nothing at all is one empty piece. -/
@[simp] theorem split_nil (separator : α) : split separator [] = [[]] :=
  rfl

/-- An item goes in front of the first piece, or ends it. -/
theorem split_cons (separator item : α) (items : List α) :
    split separator (item :: items) = consPiece separator item (split separator items) :=
  rfl

variable [LawfulBEq α]

/-- A separator in front opens a piece of its own. -/
@[simp] theorem split_cons_self (separator : α) (items : List α) :
    split separator (separator :: items) = [] :: split separator items := by
  simp [split_cons, consPiece]

/-- The first piece is what stands before the first separator. -/
theorem split_eq_cons (separator : α) (items : List α) :
    ∃ more, split separator items = items.takeWhile (· != separator) :: more := by
  induction items with
  | nil => exact ⟨[], rfl⟩
  | cons item items ih =>
    obtain ⟨more, tail⟩ := ih
    rw [split_cons, tail]
    -- A separator leaves the first piece empty, and any other item goes in front of it.
    by_cases same : item = separator
    · exact ⟨items.takeWhile (· != separator) :: more, by simp [consPiece, same]⟩
    · exact ⟨more, by simp [consPiece, same]⟩

/-- An item that is no separator belongs to the first piece of what follows. -/
theorem split_cons_of_ne {separator item : α} (differs : item ≠ separator) {items piece : List α}
    {more : List (List α)} (tail : split separator items = piece :: more) :
    split separator (item :: items) = (item :: piece) :: more := by
  simp [split_cons, tail, consPiece, differs]

/-- What is not among some items differs from each of them. -/
theorem bne_of_mem {stop : α} {items : List α} (absent : stop ∉ items) :
    ∀ item ∈ items, (item != stop) = true := by
  intro item member
  exact bne_iff_ne.mpr (ne_of_mem_of_not_mem member absent)

/-- Up to an item that they do not hold, the items in front of it are taken. -/
theorem takeWhile_ne_append_cons {stop : α} {items : List α} (absent : stop ∉ items)
    (rest : List α) : (items ++ stop :: rest).takeWhile (· != stop) = items := by
  simp [List.takeWhile_append_of_pos (bne_of_mem absent)]

/-- Up to an item that they do not hold, the items in front of it are dropped. -/
theorem dropWhile_ne_append_cons {stop : α} {items : List α} (absent : stop ∉ items)
    (rest : List α) : (items ++ stop :: rest).dropWhile (· != stop) = stop :: rest := by
  simp [List.dropWhile_append_of_pos (bne_of_mem absent)]

/-- What stands before the last separator and what stands behind it are determined. -/
theorem append_cons_inj_of_last {stop : α} {front back stem ending : List α} (absent : stop ∉ back)
    (missing : stop ∉ ending) :
    front ++ stop :: back = stem ++ stop :: ending ↔ front = stem ∧ back = ending := by
  constructor
  · intro same
    -- Backwards, the last separator is the first one, and what is in front of it can be taken.
    have turned := congrArg (fun items => items.reverse.takeWhile (· != stop)) same
    simp only [List.reverse_append, List.reverse_cons, List.append_assoc,
      List.singleton_append] at turned
    rw [takeWhile_ne_append_cons (by simpa using absent),
      takeWhile_ne_append_cons (by simpa using missing)] at turned
    obtain rfl := List.reverse_inj.mp turned
    exact ⟨List.append_cancel_right same, rfl⟩
  · rintro ⟨rfl, rfl⟩
    rfl

/-- Without a separator there is nothing to cut. -/
theorem split_of_not_mem {separator : α} {items : List α} (whole : separator ∉ items) :
    split separator items = [items] := by
  induction items with
  | nil => rfl
  | cons item items ih =>
    -- The item is no separator, so it goes in front of the only piece.
    simp only [List.mem_cons, not_or] at whole
    exact split_cons_of_ne (Ne.symm whole.1) (ih whole.2)

/-- A separator between two parts keeps their pieces apart. -/
theorem split_append_separator (separator : α) (front back : List α) :
    split separator (front ++ separator :: back)
      = split separator front ++ split separator back := by
  induction front with
  | nil => simp
  | cons item front ih =>
    rw [List.cons_append, split_cons, split_cons, ih]
    -- The item opens a piece, or it goes into the first one, which is of the first part.
    obtain ⟨more, first⟩ := split_eq_cons separator front
    by_cases same : item = separator
    · simp [consPiece, same]
    · simp [consPiece, same, first]

/-- A piece in front of a separator is cut off whole. -/
theorem split_append_cons {separator : α} {piece : List α} (whole : separator ∉ piece)
    (rest : List α) :
    split separator (piece ++ separator :: rest) = piece :: split separator rest := by
  rw [split_append_separator, split_of_not_mem whole, List.singleton_append]

/-- No piece holds a separator. -/
theorem not_mem_of_mem_split {separator : α} {items piece : List α}
    (member : piece ∈ split separator items) : separator ∉ piece := by
  induction items generalizing piece with
  | nil =>
    rw [List.mem_singleton.mp member]
    exact List.not_mem_nil
  | cons item items ih =>
    by_cases same : item = separator
    · subst same
      rw [split_cons_self] at member
      rcases List.mem_cons.mp member with empty | later
      · simp [empty]
      · exact ih later
    · -- Only the first piece has grown, by an item that is no separator.
      obtain ⟨more, first⟩ := split_eq_cons separator items
      rw [split_cons_of_ne same first] at member
      rw [first] at ih
      rcases List.mem_cons.mp member with grown | later
      · have absent := ih List.mem_cons_self
        rw [grown, List.mem_cons, not_or]
        exact ⟨Ne.symm same, absent⟩
      · exact ih (List.mem_cons_of_mem _ later)

/-- Pieces that were put together come apart again. -/
theorem split_intercalate {separator : α} {pieces : List (List α)}
    (whole : ∀ piece ∈ pieces, separator ∉ piece) (present : pieces ≠ []) :
    split separator ([separator].intercalate pieces) = pieces := by
  induction pieces with
  | nil => exact absurd rfl present
  | cons piece pieces ih =>
    have first := whole piece List.mem_cons_self
    by_cases more : pieces = []
    · subst more
      simpa using split_of_not_mem first
    · -- The separator behind the first piece is the first one there is.
      have rest := ih (fun other member => whole other (List.mem_cons_of_mem _ member)) more
      rw [intercalate_cons separator piece more, split_append_cons first, rest]

/-- The pieces between the separators of some items: they hold none, and are all there is else. -/
structure Separates (separator : α) (pieces : List (List α)) (items : List α) : Prop where
  present : pieces ≠ []
  whole : ∀ piece ∈ pieces, separator ∉ piece
  joined : [separator].intercalate pieces = items

/-- Cutting some items at every separator leaves the pieces between the separators. -/
theorem separates_split (separator : α) (items : List α) :
    Separates separator (split separator items) items where
  present := by
    obtain ⟨more, first⟩ := split_eq_cons separator items
    simp [first]
  whole := fun piece member => not_mem_of_mem_split member
  joined := by
    induction items with
    | nil => rfl
    | cons item items ih =>
      obtain ⟨more, first⟩ := split_eq_cons separator items
      by_cases same : item = separator
      · -- The empty piece in front stands for the separator alone.
        subst same
        rw [split_cons_self, intercalate_cons item [] (by simp [first]), ih, List.nil_append]
      · -- The item stands in front of the first piece, and the separators stay where they are.
        rw [first] at ih
        rw [split_cons_of_ne same first]
        cases more with
        | nil => simpa using ih
        | cons next more =>
          rw [intercalate_cons separator _ (by simp)] at ih ⊢
          rw [List.cons_append, ih]

/--
The piece in which a later part starts is the one with as many separators before it.

That piece ends in what the later part holds before its own first separator.
-/
theorem split_append_getElem? (separator : α) (front back : List α) :
    ∃ piece, (split separator (front ++ back))[front.count separator]? = some piece
      ∧ back.takeWhile (· != separator) <:+ piece := by
  -- The piece is known for what follows the first item, so only that item is to be placed.
  induction front with
  | nil =>
    obtain ⟨more, whole⟩ := split_eq_cons separator back
    exact ⟨_, by simp [whole], List.suffix_refl _⟩
  | cons item front ih =>
    obtain ⟨piece, found, ends⟩ := ih
    by_cases same : item = separator
    · -- A separator puts one more piece in front and is one more to count.
      subst same
      exact ⟨piece, by simpa using found, ends⟩
    · obtain ⟨more, tail⟩ := split_eq_cons separator (front ++ back)
      have whole := split_cons_of_ne same tail
      rw [tail] at found
      rw [List.cons_append, whole, List.count_cons_of_ne same]
      -- Only the first piece has grown, and it has grown at its front.
      cases rows : front.count separator with
      | zero =>
        rw [rows] at found
        refine ⟨item :: _, rfl, ?_⟩
        rw [← Option.some.inj found] at ends
        exact ends.trans (List.suffix_cons item _)
      | succ row =>
        rw [rows] at found
        exact ⟨piece, found, ends⟩

end Split

/-- The first line of a text: it holds no line end, and the text stops or goes on with one. -/
def IsFirstLine (text line : List Char) : Prop :=
  '\n' ∉ line ∧ (text = line ∨ ∃ rest, text = line ++ '\n' :: rest)

/-- Nothing on the first line ends it. -/
theorem not_mem_firstLine (text : List Char) : '\n' ∉ firstLine text := by
  intro member
  -- Only characters that are no line end were taken.
  have kept := List.mem_takeWhile_imp member
  simp at kept

/-- The characters up to the first line end are the first line. -/
theorem isFirstLine_firstLine (text : List Char) : IsFirstLine text (firstLine text) := by
  refine ⟨not_mem_firstLine text, ?_⟩
  have whole : firstLine text ++ text.dropWhile (· != '\n') = text :=
    List.takeWhile_append_dropWhile
  -- What is left is empty, or it starts with the line end that stopped the search.
  cases left : text.dropWhile (· != '\n') with
  | nil => exact .inl (by rw [left, List.append_nil] at whole; exact whole.symm)
  | cons c rest =>
    have stopped := List.head?_dropWhile_not (· != '\n') text
    simp only [left, List.head?_cons, bne_eq_false_iff_eq] at stopped
    exact .inr ⟨rest, by rw [← stopped, ← left, whole]⟩

/-- More text behind a text leaves its first line as it is or makes it longer. -/
theorem firstLine_prefix_append (text back : List Char) :
    firstLine text <+: firstLine (text ++ back) := by
  -- A line end in the text ends the line wherever the text ends.
  unfold firstLine
  induction text with
  | nil => simp
  | cons c text ih =>
    simp only [List.cons_append, List.takeWhile_cons]
    split
    · simpa using ih
    · exact List.prefix_refl _

/-- The first line of a text lies on the row on which the text starts in a longer one. -/
theorem firstLine_infix_split (front text back : List Char) :
    ∃ line, (split '\n' (front ++ text ++ back))[front.count '\n']? = some line
      ∧ firstLine text <:+: line := by
  -- That row ends in the first line of the text with all that follows it.
  obtain ⟨line, found, ends⟩ := split_append_getElem? '\n' front (text ++ back)
  refine ⟨line, by rw [List.append_assoc]; exact found, ?_⟩
  have starts := firstLine_prefix_append text back
  exact starts.isInfix.trans ends.isInfix

/-- A line that a line end closes. -/
def IsClosed (line : List Char) : Prop :=
  ∃ body, '\n' ∉ body ∧ line = body ++ ['\n']

/-- A character goes in front of the first line, or ends it. -/
theorem lines_cons (c : Char) (text : List Char) : lines (c :: text) = consLine c (lines text) :=
  rfl

/-- The lines of a text make up the text. -/
theorem flatten_lines (text : List Char) : (lines text).flatten = text := by
  induction text with
  | nil => rfl
  | cons c text ih =>
    -- Whether the character opens a line or joins one, it comes first.
    have joined : (consLine c (lines text)).flatten = c :: (lines text).flatten := by
      unfold consLine
      split
      · rfl
      · cases lines text <;> rfl
    rw [lines_cons, joined, ih]

/-- A closed line in front of a text is its first line. -/
theorem lines_append_of_isClosed {line : List Char} (closed : IsClosed line) (text : List Char) :
    lines (line ++ text) = line :: lines text := by
  obtain ⟨body, whole, rfl⟩ := closed
  -- By the characters in front of the line end, each of which joins the line behind it.
  induction body with
  | nil => rfl
  | cons c body ih =>
    simp only [List.mem_cons, not_or] at whole
    rw [List.cons_append, List.cons_append, lines_cons, ih whole.2]
    simp [consLine, Ne.symm whole.1]

/-- Closed lines in front of a text are its first lines. -/
theorem lines_flatten_append {front : List (List Char)} (closed : ∀ line ∈ front, IsClosed line)
    (text : List Char) : lines (front.flatten ++ text) = front ++ lines text := by
  -- Line by line, each one is closed before the next starts.
  induction front with
  | nil => rfl
  | cons line front ih =>
    have rest := ih fun other member => closed other (List.mem_cons_of_mem _ member)
    rw [List.flatten_cons, List.append_assoc,
      lines_append_of_isClosed (closed line List.mem_cons_self), rest, List.cons_append]

/-- The first line of a text that is not empty, with or without a line end behind it. -/
theorem lines_eq_cons {text : List Char} (present : text ≠ []) :
    ∃ line more, lines text = line :: more
      ∧ (line = firstLine text ∨ line = firstLine text ++ ['\n']) := by
  induction text with
  | nil => exact absurd rfl present
  | cons c text ih =>
    by_cases isEnd : c = '\n'
    · exact ⟨['\n'], lines text, by simp [lines_cons, consLine, isEnd], by simp [firstLine, isEnd]⟩
    · -- Any other character joins the first line of what follows, if anything does.
      have longer : firstLine (c :: text) = c :: firstLine text := by simp [firstLine, isEnd]
      by_cases last : text = []
      · subst last
        exact ⟨[c], [], by simp [lines, consLine, isEnd], .inl longer.symm⟩
      · obtain ⟨line, more, cut, first⟩ := ih last
        refine ⟨c :: line, more, by simp [lines_cons, cut, consLine, isEnd], ?_⟩
        rw [longer]
        exact first.imp (congrArg (c :: ·)) (congrArg (c :: ·))

/-- Every line but the last one is closed. -/
theorem isClosed_of_lines {text line : List Char} {front more : List (List Char)}
    (cut : lines text = front ++ line :: more) : ∀ closed ∈ front, IsClosed closed := by
  -- By the characters of the text: one more of them changes the first line or adds one.
  induction text generalizing front with
  | nil =>
    have empty : lines [] = [] := rfl
    simp [empty] at cut
  | cons c text ih =>
    rw [lines_cons] at cut
    cases front with
    | nil => simp
    | cons head front =>
      unfold consLine at cut
      split at cut
      · -- A line end is a line of its own, in front of all others.
        rename_i isEnd
        simp only [List.cons_append, List.cons.injEq] at cut
        intro closed member
        rcases List.mem_cons.mp member with same | later
        · exact ⟨[], by simp, by rw [same, ← cut.1, eq_of_beq isEnd]; rfl⟩
        · exact ih cut.2 closed later
      · rename_i inside
        have differs : c ≠ '\n' := by simpa using inside
        -- Any other character belongs to the first of the lines that follow.
        cases following : lines text with
        | nil => simp [following] at cut
        | cons first others =>
          simp only [following, List.cons_append, List.cons.injEq] at cut
          have shape : lines text = (first :: front) ++ line :: more := by
            rw [following, cut.2]
            rfl
          have closedThere := ih shape
          intro closed member
          rcases List.mem_cons.mp member with same | later
          · obtain ⟨body, absent, whole⟩ := closedThere first (by simp)
            refine ⟨c :: body, ?_, by rw [same, ← cut.1, whole]; rfl⟩
            simp [absent, Ne.symm differs]
          · exact closedThere closed (by simp [later])

/-- Closed lines have as many line ends as there are lines. -/
theorem count_flatten_of_isClosed {lines : List (List Char)}
    (closed : ∀ line ∈ lines, IsClosed line) : lines.flatten.count '\n' = lines.length := by
  induction lines with
  | nil => rfl
  | cons line lines ih =>
    -- The end of a closed line is the only one in it.
    obtain ⟨body, absent, whole⟩ := closed line (by simp)
    have rest := ih fun other member => closed other (by simp [member])
    rw [List.flatten_cons, List.count_append, rest, whole, List.count_append,
      List.count_eq_zero_of_not_mem absent, List.length_cons]
    simp only [List.count_singleton_self]
    omega

/-- A text put on one line holds no line end. -/
theorem not_mem_flatten (text : List Char) : '\n' ∉ flatten text := by
  intro member
  -- The last replacement leaves no line end, whatever the first one has made of the text.
  obtain ⟨c, _, written⟩ := List.mem_map.mp member
  split at written
  · cases written
  · rename_i inside
    exact inside (by simpa using written)

/-- Cutting a text short adds nothing but dots. -/
theorem not_mem_shorten {c : Char} (width : Nat) {text : List Char} (absent : c ∉ text)
    (noDot : c ≠ '.') : c ∉ shorten width text := by
  -- What is left of the text is a part of it.
  unfold shorten
  split
  · exact absent
  · have cut : c ∉ text.take (width - 3) := fun member => absent (List.mem_of_mem_take member)
    simp [cut, noDot]

/-- A text cut to one line stays on that line. -/
theorem not_mem_oneLine (width : Nat) (text : List Char) : '\n' ∉ oneLine width text :=
  not_mem_shorten width (not_mem_flatten text) (by decide)

end Surface.Text
