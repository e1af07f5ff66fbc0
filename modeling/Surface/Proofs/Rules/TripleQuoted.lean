import Surface.Proofs.Rules.Docstring

/-!
Documentation of Mojo functions.
A literal that opens the block stands there on its own or as a statement. The first loses up to four
fixed marks, the second any run of quotation marks. Between triple marks, both leave the same
documentation of every content that has no quotation mark of its own at either end.
-/

namespace Surface.Rules

/-- The marks of three quotation marks that string literals stand between. -/
def tripleMarks : List (List Char) :=
  [['"', '"', '"'], ['\'', '\'', '\'']]

/-- A function with a block that a string literal of some text opens, on its own. -/
def OpensBare (source : Bytes) (node : Node) (text : List Char) : Prop :=
  ∃ block literal, node.childOf? ["block"] = some block
    ∧ block.children.head? = some literal ∧ literal.kind = "string" ∧ literal.text source = text

/-- A function with a block that a statement opens, and that statement a literal of some text. -/
def OpensInStatement (source : Bytes) (node : Node) (text : List Char) : Prop :=
  ∃ block statement literal, node.childOf? ["block"] = some block
    ∧ block.children.head? = some statement ∧ statement.kind = "expression_statement"
    ∧ statement.children.head? = some literal
    ∧ (literal.kind = "string" ∨ literal.kind = "concatenated_string")
    ∧ literal.text source = text

section Affixes

variable {word text : List Char}

/-- A text that starts with no character of a word is left alone. -/
theorem dropStart_of_head? (present : word ≠ []) (apart : ∀ c ∈ text.head?, c ∉ word) :
    dropStart word text = text := by
  apply if_neg
  intro starts
  obtain ⟨first, more, rfl⟩ := List.exists_cons_of_ne_nil present
  obtain ⟨rest, rfl⟩ := List.isPrefixOf_iff_prefix.mp starts
  -- The text would start with the first character of the word.
  exact apart first rfl List.mem_cons_self

/-- A text that ends in no character of a word is left alone. -/
theorem dropEnd_of_getLast? (present : word ≠ []) (apart : ∀ c ∈ text.getLast?, c ∉ word) :
    dropEnd word text = text := by
  apply if_neg
  intro ends
  obtain ⟨rest, rfl⟩ := List.isSuffixOf_iff_suffix.mp ends
  -- The text would end in the last character of the word.
  have last : (rest ++ word).getLast? = some (word.getLast present) := by
    rw [List.getLast?_append, List.getLast?_eq_some_getLast present, Option.some_or]
  exact apart _ last (List.getLast_mem present)

/-- A text with no character of a word at either end is left alone at both. -/
theorem dropMarks_of_apart (present : word ≠ []) (before : ∀ c ∈ text.head?, c ∉ word)
    (behind : ∀ c ∈ text.getLast?, c ∉ word) : dropEnd word (dropStart word text) = text := by
  rw [dropStart_of_head? present before, dropEnd_of_getLast? present behind]

/-- A word around a text is taken off at both ends. -/
theorem dropMarks_marked (word text : List Char) :
    dropEnd word (dropStart word (word ++ text ++ word)) = text := by
  rw [List.append_assoc, dropStart_append, dropEnd_append]

end Affixes

section Content

variable {mark content : List Char}

/-- The triple marks come first among those that literals stand between. -/
theorem mem_delimiters_of_mem_tripleMarks (triple : mark ∈ tripleMarks) : mark ∈ delimiters :=
  List.mem_append_left [['"'], ['\'']] triple

/-- A content without a quotation mark at its ends loses no triple mark, whichever it is. -/
theorem Unquoted.dropMarks_eq (free : Unquoted content) (triple : mark ∈ tripleMarks) :
    dropEnd mark (dropStart mark content) = content := by
  have present : mark ≠ [] := by
    rintro rfl
    simp [tripleMarks] at triple
  have quotes := isQuote_of_mem_delimiters mark (mem_delimiters_of_mem_tripleMarks triple)
  -- The characters of a mark are quotation marks, and those at the ends of the content are not.
  have apart : ∀ c, isQuote c = false → c ∉ mark := by
    intro c other member
    rw [quotes c member] at other
    cases other
  exact dropMarks_of_apart present (fun c starts => apart c (free.1 c starts))
    fun c ends => apart c (free.2 c ends)

/-- A triple mark around a content is taken off, and the other sort finds nothing to take off. -/
theorem untriple_marked (triple : mark ∈ tripleMarks) (free : Unquoted content) :
    untriple (mark ++ content ++ mark) = Text.trim content := by
  unfold untriple
  dsimp only
  simp only [tripleMarks, List.mem_cons, List.not_mem_nil, or_false] at triple
  rcases triple with rfl | rfl
  · -- The double marks go first, and leave the content for the single ones to pass over.
    rw [dropMarks_marked, free.dropMarks_eq (by decide)]
  · -- The literal starts and ends in single marks, which the search for double ones passes over.
    have before : ∀ c ∈ (['\'', '\'', '\''] ++ content ++ ['\'', '\'', '\'']).head?,
        c ∉ ['"', '"', '"'] := by simp
    have behind : ∀ c ∈ (['\'', '\'', '\''] ++ content ++ ['\'', '\'', '\'']).getLast?,
        c ∉ ['"', '"', '"'] := by
      rw [List.getLast?_append]
      simp
    rw [dropMarks_of_apart (by decide) before behind, dropMarks_marked]

/-- Where all quotation marks around a literal are taken off, no others are lost with them. -/
theorem unquote_marked (triple : mark ∈ tripleMarks) (free : Unquoted content) :
    unquote (mark ++ content ++ mark) = Text.trim content := by
  rw [unquote_delimited (mem_delimiters_of_mem_tripleMarks triple), free.dropAround_eq]

end Content

section Functions

variable {source : Bytes} {node : Node} {text : List Char}

/-- A literal on its own loses its triple marks. -/
theorem mojoDoc_of_opensBare (opens : OpensBare source node text) :
    mojoDoc node source = some (untriple text) := by
  obtain ⟨block, literal, found, first, isLiteral, rfl⟩ := opens
  simp [mojoDoc, found, first, isLiteral]

/-- A literal that is a statement loses all quotation marks at its ends. -/
theorem mojoDoc_of_opensInStatement (opens : OpensInStatement source node text) :
    mojoDoc node source = some (unquote text) := by
  obtain ⟨block, statement, literal, found, first, isStatement, inner, isLiteral, rfl⟩ := opens
  have literalKind : isString literal = true := by
    simpa [isString] using isLiteral
  simp [mojoDoc, found, first, isStatement, statementDoc, inner, literalKind]

/-- Every public function has the documentation of its block. -/
theorem Declared.documentation_eq_block {kind : Kind} {name : List Char}
    {documentation : Documentation} (holds : Declared source node .mojo kind name documentation)
    (isFunction : node.kind = "function_definition") : documentation = .block := by
  -- What else is declared in public is of another kind.
  cases holds with
  | mojoFunction => rfl
  | mojoStruct isClass => exact absurd (isFunction.symm.trans isClass) (by decide)
  | mojoClass isClass => exact absurd (isFunction.symm.trans isClass) (by decide)
  | mojoTrait isTrait => exact absurd (isFunction.symm.trans isTrait) (by decide)

end Functions

end Surface.Rules

namespace Surface.Language

open Rules

/--
A literal between triple marks documents a Mojo function alike on its own and as a statement.

The content has no quotation mark at either end, or is empty. Then both ways to take off the marks
leave the content without blanks around it, and that is the documentation of every public function
whose block such a literal opens.
-/
theorem mojo_docs_agree (parsing : Parsing) (source : Bytes) (root : Node) :
    (∀ mark ∈ tripleMarks, ∀ content, Unquoted content →
        untriple (mark ++ content ++ mark) = unquote (mark ++ content ++ mark)
          ∧ unquote (mark ++ content ++ mark) = Text.trim content)
      ∧ List.Forall₂
        (fun place symbol => place.node.kind = "function_definition" →
          ∀ mark ∈ tripleMarks, ∀ content, Unquoted content →
          OpensBare source place.node (mark ++ content ++ mark)
            ∨ OpensInStatement source place.node (mark ++ content ++ mark) →
          symbol.doc = some (String.ofList (Text.trim content)))
        ((root.places []).filter (IsPublic source .mojo))
        (Language.mojo.symbols parsing source root) := by
  constructor
  · intro mark triple content free
    exact ⟨(untriple_marked triple free).trans (unquote_marked triple free).symm,
      unquote_marked triple free⟩
  · rw [symbols_eq_ownSymbols (by decide)]
    refine forall₂_filter_flatMap ?_ (fun _ => ownSymbols_of_not_isPublic) (root.places [])
    intro place shown
    obtain ⟨kind, name, documentation, holds, given⟩ := ownSymbols_of_isPublic shown
    refine ⟨_, given, ?_⟩
    intro isFunction mark triple content free opens
    -- Either way the block is opened, its literal is taken for the documentation.
    have text : mojoDoc place.node source = some (Text.trim content) := by
      rcases opens with bare | inStatement
      · rw [mojoDoc_of_opensBare bare, untriple_marked triple free]
      · rw [mojoDoc_of_opensInStatement inStatement, unquote_marked triple free]
    rw [declare, holds.documentation_eq_block isFunction, docBy, text]
    rfl

end Surface.Language

namespace Surface

/-- A content with blanks around it and the other triple mark right inside of them. -/
def blankedContent : List Char :=
  " ''' b ''' ".toList

/-- A literal of that content. -/
def blankedLiteral : List Char :=
  ['"', '"', '"'] ++ blankedContent ++ ['"', '"', '"']

/-- Two functions with that literal in their blocks: `fn a():⏎  """…"""⏎fn c():⏎  """…"""⏎`. -/
def blankedSource : Bytes :=
  Utf8.encode ("fn a():\n  ".toList ++ blankedLiteral ++ "\nfn c():\n  ".toList ++ blankedLiteral
    ++ ['\n'])

/-- The first function, with the literal on its own. -/
def bareFunction : Node :=
  ⟨"function_definition", none, 0, 27, 0,
    [⟨"fn", none, 0, 2, 0, []⟩, ⟨"identifier", some "name", 3, 4, 0, []⟩,
      ⟨"block", none, 10, 27, 1, [⟨"string", none, 10, 27, 1, []⟩]⟩]⟩

/-- The second function, with the literal as a statement. -/
def statementFunction : Node :=
  ⟨"function_definition", none, 28, 55, 2,
    [⟨"fn", none, 28, 30, 2, []⟩, ⟨"identifier", some "name", 31, 32, 2, []⟩,
      ⟨"block", none, 38, 55, 3,
        [⟨"expression_statement", none, 38, 55, 3,
          [⟨"concatenated_string", none, 38, 55, 3, [⟨"string", none, 38, 55, 3, []⟩]⟩]⟩]⟩]⟩

/-- The tree of both. -/
def blankedRoot : Node :=
  ⟨"module", none, 0, 56, 0, [bareFunction, statementFunction]⟩

/-- Parsing of every text to that tree. -/
def blankedParsing : Parsing := fun _ _ => ⟨blankedRoot, false⟩

/-- Blanks shield the marks inside the content, whichever way the literal stands in the block. -/
theorem Language.mojo_docs_agree_shielded :
    Rules.Unquoted blankedContent
      ∧ Rules.OpensBare blankedSource bareFunction blankedLiteral
      ∧ Rules.OpensInStatement blankedSource statementFunction blankedLiteral
      ∧ (Language.mojo.symbols blankedParsing blankedSource blankedRoot).map (·.doc)
        = [some "''' b '''", some "''' b '''"] := by
  have free : Rules.Unquoted blankedContent := by decide
  have bare : Rules.OpensBare blankedSource bareFunction blankedLiteral :=
    ⟨_, _, rfl, rfl, rfl, by decide⟩
  have inStatement : Rules.OpensInStatement blankedSource statementFunction blankedLiteral :=
    ⟨_, _, _, rfl, rfl, rfl, rfl, .inr rfl, by decide⟩
  refine ⟨free, bare, inStatement, ?_⟩
  obtain ⟨-, each⟩ := mojo_docs_agree blankedParsing blankedSource blankedRoot
  -- The functions are the only public places, the second and the seventh one of the walk.
  have places : (blankedRoot.places []).filter (Rules.IsPublic blankedSource .mojo)
      = [(blankedRoot.places []).get ⟨1, by decide⟩,
        (blankedRoot.places []).get ⟨6, by decide⟩] := by rfl
  rw [places] at each
  obtain ⟨first, rest, onItsOwn, others, shown⟩ := List.forall₂_cons_left_iff.mp each
  obtain ⟨second, further, asStatement, last, same⟩ := List.forall₂_cons_left_iff.mp others
  rw [shown, same, List.forall₂_nil_left_iff.mp last, List.map_cons, List.map_singleton,
    onItsOwn rfl _ (by decide) blankedContent free (.inl bare),
    asStatement rfl _ (by decide) blankedContent free (.inr inStatement)]
  decide

end Surface
