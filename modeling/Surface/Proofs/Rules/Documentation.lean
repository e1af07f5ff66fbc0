import Surface.Proofs.Rules.Shown
import Surface.Rules.Underscore

/-!
Where the documentation of a declaration stands, and what it says.
It is a comment just before the declaration, or a string literal that opens its body or its block,
or there is none. What is taken off a literal is said of the text alone.
-/

namespace Surface.Rules

/-- Where the documentation of a declaration stands. -/
inductive Documentation where
  | absent
  /-- In a comment just before the declaration. -/
  | comment
  /-- In a statement that opens the body. -/
  | body
  /-- In a literal or a statement that opens the block. -/
  | block
  deriving DecidableEq, Repr

/-- The content of a literal: without the quotation marks at its ends, then without blanks. -/
def Unquotes (text content : List Char) : Prop :=
  ∃ inner, Text.Strips isQuote text inner ∧ Text.Strips Text.isBlank inner content

/-- What a text is without a word in front of it, if it starts with that word. -/
def LosesStart (word text rest : List Char) : Prop :=
  text = word ++ rest ∨ ¬ word <+: text ∧ rest = text

/-- What a text is without a word at its end, if it ends in that word. -/
def LosesEnd (word text rest : List Char) : Prop :=
  text = rest ++ word ∨ ¬ word <:+ text ∧ rest = text

/-- What a text is without a word at either end, wherever it is there. -/
def LosesMarks (word text rest : List Char) : Prop :=
  ∃ half, LosesStart word text half ∧ LosesEnd word half rest

/-- The content of a literal in three double or three single quotation marks, or in both. -/
def Untriples (text content : List Char) : Prop :=
  ∃ half inner, LosesMarks ['"', '"', '"'] text half
    ∧ LosesMarks ['\'', '\'', '\''] half inner ∧ Text.Strips Text.isBlank inner content

/-- A statement that is nothing but a string literal of some content. -/
def StatesLiteral (source : Bytes) (statement : Node) (content : List Char) : Prop :=
  statement.kind = "expression_statement" ∧ ∃ literal, statement.children.head? = some literal
    ∧ OfKind ["string", "concatenated_string"] literal ∧ Unquotes (literal.text source) content

/-- Documentation that says what stands where it has to stand, and is absent where nothing does. -/
def DocumentedAs (source : Bytes) (place : Cursor) : Documentation → Option String → Prop
  | .absent, doc => doc = none
  | .comment, doc => CommentedAt source place doc
  | .body, doc => ∀ text, doc = some text ↔ ∃ body statement,
      First (InRole "body") place.node.children body ∧ body.children.head? = some statement
        ∧ StatesLiteral source statement text.toList
  | .block, doc => ∀ text, doc = some text ↔ ∃ block first,
      First (OfKind ["block"]) place.node.children block ∧ block.children.head? = some first
        ∧ (first.kind = "string" ∧ Untriples (first.text source) text.toList
          ∨ StatesLiteral source first text.toList)

/-- The documentation that the rules find, by where it stands. -/
def docBy (source : Bytes) (before : Option Node) (node : Node) :
    Documentation → Option (List Char)
  | .absent => none
  | .comment => commentBefore source before
  | .body => pythonDoc node source
  | .block => mojoDoc node source

section Marks

variable {word text rest content : List Char}

/-- All quotation marks at the ends of a literal are taken off, and then all blanks. -/
theorem unquotes_iff : Unquotes text content ↔ content = unquote text := by
  simp only [Unquotes, Text.strips_iff, exists_eq_left]
  rfl

/-- A word in front of a text is taken off. -/
theorem dropStart_append (word text : List Char) : dropStart word (word ++ text) = text := by
  have starts : word.isPrefixOf (word ++ text) = true :=
    List.isPrefixOf_iff_prefix.mpr (List.prefix_append word text)
  rw [dropStart, if_pos starts, List.drop_left]

/-- A word behind a text is taken off. -/
theorem dropEnd_append (word text : List Char) : dropEnd word (text ++ word) = text := by
  have ends : word.isSuffixOf (text ++ word) = true :=
    List.isSuffixOf_iff_suffix.mpr (List.suffix_append text word)
  rw [dropEnd, if_pos ends, List.length_append, Nat.add_sub_cancel, List.take_left]

/-- A word is looked for in front of a text before it is taken off. -/
theorem losesStart_iff : LosesStart word text rest ↔ rest = dropStart word text := by
  constructor
  · rintro (rfl | ⟨other, rfl⟩)
    · exact (dropStart_append word rest).symm
    · exact (if_neg (other ∘ List.isPrefixOf_iff_prefix.mp)).symm
  · rintro rfl
    -- The word is there and comes off, or the text stays as it is.
    by_cases starts : word <+: text
    · obtain ⟨rest, rfl⟩ := starts
      exact .inl (by rw [dropStart_append])
    · exact .inr ⟨starts, if_neg (starts ∘ List.isPrefixOf_iff_prefix.mp)⟩

/-- A word is looked for at the end of a text before it is taken off. -/
theorem losesEnd_iff : LosesEnd word text rest ↔ rest = dropEnd word text := by
  constructor
  · rintro (rfl | ⟨other, rfl⟩)
    · exact (dropEnd_append word rest).symm
    · exact (if_neg (other ∘ List.isSuffixOf_iff_suffix.mp)).symm
  · rintro rfl
    -- As in front.
    by_cases ends : word <:+ text
    · obtain ⟨rest, rfl⟩ := ends
      exact .inl (by rw [dropEnd_append])
    · exact .inr ⟨ends, if_neg (ends ∘ List.isSuffixOf_iff_suffix.mp)⟩

/-- The marks are taken off one after the other, each where it is. -/
theorem untriples_iff : Untriples text content ↔ content = untriple text := by
  -- Each mark that is taken off leaves one text, and the next starts from it.
  simp only [Untriples, LosesMarks, losesStart_iff, losesEnd_iff, Text.strips_iff, exists_eq_left]
  constructor
  · rintro ⟨_, _, rfl, rfl, rfl⟩
    rfl
  · rintro rfl
    exact ⟨_, _, rfl, rfl, rfl⟩

end Marks

section Literals

variable {source : Bytes} {node statement : Node} {content : List Char}

/-- A statement is read as documentation exactly when it is nothing but a literal. -/
theorem statementDoc_eq_some_iff (isStatement : statement.kind = "expression_statement") :
    statementDoc statement source = some content ↔ StatesLiteral source statement content := by
  simp only [StatesLiteral, isStatement, true_and, unquotes_iff]
  unfold statementDoc
  cases statement.children.head? with
  | none => simp
  | some literal =>
    -- The first child is a literal of either kind, or it is something else.
    have kinds : isString literal = true ↔ OfKind ["string", "concatenated_string"] literal := by
      simp [isString, OfKind]
    simp only [Option.some.injEq, exists_eq_left', ← kinds]
    by_cases isLiteral : isString literal = true
    · simp [isLiteral, eq_comm]
    · simp [isLiteral]

/-- The documentation of a body is the literal that its first statement is. -/
theorem pythonDoc_eq_some_iff :
    pythonDoc node source = some content ↔ ∃ body statement,
      First (InRole "body") node.children body ∧ body.children.head? = some statement
        ∧ StatesLiteral source statement content := by
  simp only [← childAt?_eq_some_iff]
  unfold pythonDoc
  -- The look-ups go from the body to its first statement, and from there to the literal.
  constructor
  · intro found
    split at found
    · cases found
    · rename_i statement opening
      obtain ⟨body, isBody, first⟩ := Option.bind_eq_some_iff.mp opening
      split at found
      · rename_i isStatement
        have literal := (statementDoc_eq_some_iff (by simpa using isStatement)).mp found
        exact ⟨body, statement, isBody, first, literal⟩
      · cases found
  · rintro ⟨body, statement, isBody, first, literal⟩
    simp only [isBody, Option.bind_some, first, literal.1, beq_self_eq_true, if_true]
    exact (statementDoc_eq_some_iff literal.1).mpr literal

/-- The documentation of a block is the literal that opens it, on its own or as a statement. -/
theorem mojoDoc_eq_some_iff :
    mojoDoc node source = some content ↔ ∃ block first,
      First (OfKind ["block"]) node.children block ∧ block.children.head? = some first
        ∧ (first.kind = "string" ∧ Untriples (first.text source) content
          ∨ StatesLiteral source first content) := by
  simp only [← childOf?_eq_some_iff, untriples_iff]
  unfold mojoDoc
  constructor
  · intro found
    split at found
    · cases found
    · rename_i first opening
      obtain ⟨block, isBlock, opens⟩ := Option.bind_eq_some_iff.mp opening
      refine ⟨block, first, isBlock, opens, ?_⟩
      split at found
      · exact .inl ⟨‹_›, (Option.some.inj found).symm⟩
      · exact .inr ((statementDoc_eq_some_iff ‹_›).mp found)
      · cases found
  · rintro ⟨block, first, isBlock, opens, either⟩
    simp only [isBlock, Option.bind_some, opens]
    -- The two ways to open a block are told apart by the kind of what opens it.
    rcases either with ⟨isLiteral, rfl⟩ | literal
    · simp [isLiteral]
    · simp only [literal.1]
      exact (statementDoc_eq_some_iff literal.1).mpr literal

end Literals

/-- At a settled place, the rules find the documentation that stands there in the tree. -/
theorem documentedAs_docBy {source : Bytes} {place : Cursor} (settled : place.Settled)
    (documentation : Documentation) :
    DocumentedAs source place documentation
      ((docBy source place.previous? place.node documentation).map String.ofList) := by
  -- Only a comment stands outside of the node, and a settled place knows what does.
  cases documentation with
  | absent => rfl
  | comment => exact commentedAt_of_settled settled
  | body => exact map_ofList_eq_some_iff fun _ => pythonDoc_eq_some_iff
  | block => exact map_ofList_eq_some_iff fun _ => mojoDoc_eq_some_iff

end Surface.Rules
