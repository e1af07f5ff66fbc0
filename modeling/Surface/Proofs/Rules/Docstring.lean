import Surface.Proofs.Rules.Public

/-!
Documentation of Python definitions.
A string literal that opens the body is shown without the quotation marks at its ends, of either
sort and however many there are. So the content is shown whole, but for blanks around it, if and
only if it has no quotation mark of its own at either end.
-/

namespace Surface.Rules

/-- The marks that string literals stand between. -/
def delimiters : List (List Char) :=
  [['"', '"', '"'], ['\'', '\'', '\''], ['"'], ['\'']]

/-- A definition with a body that a string literal of some text opens. -/
def OpensWith (source : Bytes) (node : Node) (text : List Char) : Prop :=
  ∃ body statement literal, node.childAt? "body" = some body
    ∧ body.children.head? = some statement ∧ statement.kind = "expression_statement"
    ∧ statement.children.head? = some literal ∧ literal.kind = "string"
    ∧ literal.text source = text

/-- A content without a quotation mark at either end. -/
def Unquoted (content : List Char) : Prop :=
  (∀ c ∈ content.head?, isQuote c = false) ∧ ∀ c ∈ content.getLast?, isQuote c = false

instance (content : List Char) : Decidable (Unquoted content) :=
  decidable_of_iff
    (content.head?.all (!isQuote ·) = true ∧ content.getLast?.all (!isQuote ·) = true)
    (by simp [Unquoted, Option.all_eq_true])

section Content

variable {content : List Char}

/-- No quotation mark is a blank, so trimming loses none of them. -/
theorem countP_isQuote_trim (text : List Char) :
    (Text.trim text).countP isQuote = text.countP isQuote := by
  apply Text.countP_dropAround
  intro c blank
  by_contra quote
  -- There are two quotation marks, and each is looked at.
  rw [Bool.not_eq_false, isQuote, Bool.or_eq_true, beq_iff_eq, beq_iff_eq] at quote
  rcases quote with rfl | rfl
  · exact absurd blank (by decide)
  · exact absurd blank (by decide)

/-- A content that has no quotation mark at either end is left alone. -/
theorem Unquoted.dropAround_eq (free : Unquoted content) :
    Text.dropAround isQuote content = content :=
  Text.dropAround_eq_self free.1 free.2

/-- Of a text between quotation marks, no more of these are left than the text has itself. -/
theorem countP_isQuote_dropAround_le (front text back : List Char)
    (quotes : ∀ c ∈ front ++ back, isQuote c = true) :
    (Text.dropAround isQuote (front ++ text ++ back)).countP isQuote ≤ text.countP isQuote := by
  rw [Text.dropAround_append (fun c member => quotes c (List.mem_append_left back member))
    (fun c member => quotes c (List.mem_append_right front member))]
  exact (Text.dropAround_infix isQuote text).sublist.countP_le

/-- A content that has a quotation mark at one of its ends loses it, whatever else it has. -/
theorem Unquoted.of_trim_eq
    (same : Text.trim (Text.dropAround isQuote content) = Text.trim content) :
    Unquoted content := by
  -- All quotation marks of the content are still there, so none was cut off at either end.
  have equal : (Text.dropAround isQuote content).countP isQuote = content.countP isQuote := by
    rw [← countP_isQuote_trim, same, countP_isQuote_trim]
  constructor
  · intro c starts
    by_contra quote
    rw [Bool.not_eq_false] at quote
    obtain ⟨rest, rfl⟩ := List.head?_eq_some_iff.mp starts
    have fewer := countP_isQuote_dropAround_le [c] rest [] (by simpa using quote)
    rw [List.append_nil, List.singleton_append, equal, List.countP_cons_of_pos quote] at fewer
    omega
  · intro c ends
    by_contra quote
    rw [Bool.not_eq_false] at quote
    obtain ⟨rest, rfl⟩ := List.getLast?_eq_some_iff.mp ends
    have fewer := countP_isQuote_dropAround_le [] rest [c] (by simpa using quote)
    rw [List.nil_append, equal, List.countP_append, List.countP_cons_of_pos quote] at fewer
    omega

/-- The content of a literal is shown whole if and only if it has no quotation mark at its ends. -/
theorem trim_dropAround_eq_iff :
    Text.trim (Text.dropAround isQuote content) = Text.trim content ↔ Unquoted content :=
  ⟨Unquoted.of_trim_eq, fun free => by rw [free.dropAround_eq]⟩

/-- Literals stand between nothing but quotation marks. -/
theorem isQuote_of_mem_delimiters : ∀ mark ∈ delimiters, ∀ c ∈ mark, isQuote c = true := by
  simp [delimiters, isQuote]

/-- The marks of a literal are taken off, and with them those at the ends of its content. -/
theorem unquote_delimited {mark : List Char} (delimits : mark ∈ delimiters) (content : List Char) :
    unquote (mark ++ content ++ mark) = Text.trim (Text.dropAround isQuote content) := by
  have quotes := isQuote_of_mem_delimiters mark delimits
  rw [unquote, Text.dropAround_append quotes quotes]

end Content

section Definitions

variable {source : Bytes} {node : Node}

/-- The literal that opens the body is the documentation. -/
theorem pythonDoc_of_opensWith {text : List Char} (opens : OpensWith source node text) :
    pythonDoc node source = some (unquote text) := by
  obtain ⟨body, statement, literal, found, first, isStatement, inner, isLiteral, rfl⟩ := opens
  simp [pythonDoc, found, first, isStatement, statementDoc, inner, isString, isLiteral]

/-- Every public definition has the documentation of its body. -/
theorem Declared.documentation_eq_body {kind : Kind} {name : List Char}
    {documentation : Documentation} (holds : Declared source node .python kind name documentation) :
    documentation = .body := by
  cases holds with
  | pythonFunction => rfl
  | pythonClass => rfl

end Definitions

end Surface.Rules

namespace Surface.Language

open Rules

/--
The documentation of a Python definition is the content of the literal that opens its body.

It is shown without the quotation marks and then without the blanks at its ends. So nothing but
blanks is lost if and only if the content has no quotation mark of its own at either end.
-/
theorem python_docs_whole_iff (parsing : Parsing) (source : Bytes) (root : Node) :
    List.Forall₂
      (fun place symbol => ∀ mark ∈ delimiters, ∀ content,
        OpensWith source place.node (mark ++ content ++ mark) →
        symbol.doc = some (String.ofList (Text.trim (Text.dropAround isQuote content)))
          ∧ (symbol.doc = some (String.ofList (Text.trim content)) ↔ Unquoted content))
      ((root.places []).filter (IsPublic source .python))
      (Language.python.symbols parsing source root) := by
  rw [symbols_eq_ownSymbols (by decide)]
  refine forall₂_filter_flatMap ?_ (fun _ => ownSymbols_of_not_isPublic) (root.places [])
  intro place shown
  obtain ⟨kind, name, documentation, holds, given⟩ := ownSymbols_of_isPublic shown
  refine ⟨_, given, ?_⟩
  intro mark delimits content opens
  -- What the symbol says is what the literal holds, without its marks.
  have text : (declare kind name (docBy source place.previous? place.node documentation) place.node
      source).doc = some (String.ofList (Text.trim (Text.dropAround isQuote content))) := by
    rw [declare, holds.documentation_eq_body, docBy, pythonDoc_of_opensWith opens,
      unquote_delimited delimits]
    rfl
  refine ⟨text, ?_⟩
  rw [text, Option.some.injEq, String.ofList_inj]
  exact trim_dropAround_eq_iff

end Surface.Language

namespace Surface

/-- The text `def f():⏎    """…"""⏎` for some content of the literal. -/
def documentedSource (content : List Char) : Bytes :=
  Utf8.encode ("def f():\n    \"\"\"".toList ++ content ++ "\"\"\"\n".toList)

/-- The definition in it, for a content of so many bytes. -/
def documentedNode (length : Nat) : Node :=
  ⟨"function_definition", none, 0, 19 + length, 0,
    [⟨"def", none, 0, 3, 0, []⟩, ⟨"identifier", some "name", 4, 5, 0, []⟩,
      ⟨"parameters", some "parameters", 5, 7, 0,
        [⟨"(", none, 5, 6, 0, []⟩, ⟨")", none, 6, 7, 0, []⟩]⟩,
      ⟨":", none, 7, 8, 0, []⟩,
      ⟨"block", some "body", 13, 19 + length, 1,
        [⟨"expression_statement", none, 13, 19 + length, 1,
          [⟨"string", none, 13, 19 + length, 1,
            [⟨"string_start", none, 13, 16, 1, []⟩,
              ⟨"string_content", none, 16, 16 + length, 1, []⟩,
              ⟨"string_end", none, 16 + length, 19 + length, 1, []⟩]⟩]⟩]⟩]⟩

/-- The tree of that text. -/
def documentedRoot (length : Nat) : Node :=
  ⟨"module", none, 0, 20 + length, 0, [documentedNode length]⟩

/-- Parsing of every text to that tree. -/
def documentedParsing (length : Nat) : Parsing := fun _ _ => ⟨documentedRoot length, false⟩

/-- A content with quotation marks inside, and none at its ends. -/
def quotingContent : List Char :=
  "It's \"quoted\".".toList

/-- Quotation marks inside the content are kept, of the sort of its delimiters too. -/
theorem Language.python_docs_whole_iff_inside :
    Rules.OpensWith (documentedSource quotingContent) (documentedNode 14)
        (['"', '"', '"'] ++ quotingContent ++ ['"', '"', '"'])
      ∧ (Language.python.symbols (documentedParsing 14) (documentedSource quotingContent)
          (documentedRoot 14)).map (·.doc) = [some (String.ofList quotingContent)] := by
  have opens : Rules.OpensWith (documentedSource quotingContent) (documentedNode 14)
      (['"', '"', '"'] ++ quotingContent ++ ['"', '"', '"']) :=
    ⟨_, _, _, rfl, rfl, rfl, rfl, rfl, by decide⟩
  refine ⟨opens, ?_⟩
  have each := python_docs_whole_iff (documentedParsing 14) (documentedSource quotingContent)
    (documentedRoot 14)
  -- The definition is the only public place, the second one of the walk.
  have places : ((documentedRoot 14).places []).filter
      (Rules.IsPublic (documentedSource quotingContent) .python)
        = [((documentedRoot 14).places []).get ⟨1, by decide⟩] := by rfl
  rw [places] at each
  obtain ⟨symbol, rest, holds, others, shown⟩ := List.forall₂_cons_left_iff.mp each
  rw [shown, List.forall₂_nil_left_iff.mp others, List.map_singleton]
  have whole := (holds _ (by decide) quotingContent opens).2.mpr (by decide)
  rw [whole]
  decide

/-- A content with a quotation at its end, of the other sort than the delimiters. -/
def endingContent : List Char :=
  "It's \"quoted\" 'x'".toList

/-- The last mark of such a content is lost, although its delimiters do not occur in it. -/
theorem Language.exists_docs_cut :
    Rules.OpensWith (documentedSource endingContent) (documentedNode 17)
        (['"', '"', '"'] ++ endingContent ++ ['"', '"', '"'])
      ∧ ¬ ['"', '"', '"'] <:+: endingContent ∧ Text.trim endingContent = endingContent
      ∧ Language.python.symbols (documentedParsing 17) (documentedSource endingContent)
          (documentedRoot 17)
        = [⟨.function, "f", "def f():", some "It's \"quoted\" 'x", 1⟩] := by
  refine ⟨⟨_, _, _, rfl, rfl, rfl, rfl, rfl, by decide⟩, ?_, by decide, by decide⟩
  -- The content has two double quotation marks, and its delimiters have three.
  intro inside
  exact absurd (inside.sublist.count_le '"') (by decide)

end Surface
