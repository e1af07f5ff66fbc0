import Surface.Proofs.Rules.Component
import Surface.Proofs.Tree.Span

/-! Line numbers: each of them leads to the line of the document on which the signature stands. -/

namespace Surface

/-- A symbol whose number names a line of a text, and whose signature stands on that line. -/
def Symbol.StandsIn (text : List Char) (symbol : Symbol) : Prop :=
  ∃ row line, symbol.line = row + 1 ∧ (Text.split '\n' text)[row]? = some line
    ∧ symbol.signature.toList <:+: line

namespace Rules

/-- A block that stands in a text as it is, behind as many line ends as its offset says. -/
def Block.StandsIn (text : List Char) (block : Block) : Prop :=
  ∃ front back, text = front ++ block.code ++ back ∧ block.offset = front.count '\n'

/-- The first line of a node's text lies on the row on which that text starts. -/
theorem headline_infix_split (node : Node) (source : Bytes) (front back : List Char) :
    ∃ line, (Text.split '\n' (front ++ node.text source ++ back))[front.count '\n']? = some line
      ∧ node.headline source <:+: line := by
  obtain ⟨line, found, holds⟩ := Text.firstLine_infix_split front (node.text source) back
  -- Trimming leaves a part of the first line.
  have trimmed := Text.trim_infix (Text.firstLine (node.text source))
  exact ⟨line, found, trimmed.trans holds⟩

/-- A declaration stands in the text around its node. -/
theorem declare_standsIn {source : Bytes} {text : List Char}
    (valid : Utf8.decode? source = some text) {node : Node} (covers : node.Covers source)
    (kind : Kind) (name : List Char) (doc : Option (List Char)) :
    (declare kind name doc node source).StandsIn text := by
  -- The row of the node is the number of line ends in front of its text.
  obtain ⟨front, back, whole, row, _⟩ := covers.text_split valid
  obtain ⟨line, found, holds⟩ := headline_infix_split node source front back
  refine ⟨node.row, line, rfl, ?_, ?_⟩
  · rw [whole, row]
    exact found
  · simpa [declare] using holds

/-- A declaration in a block stands in the text around the block. -/
theorem shift_declare_standsIn {text : List Char} {block : Block} (stands : block.StandsIn text)
    {node : Node} (covers : node.Covers (Utf8.encode block.code)) (kind : Kind)
    (name : List Char) (doc : Option (List Char)) :
    (shift block.offset (declare kind name doc node (Utf8.encode block.code))).StandsIn text := by
  have valid : Utf8.decode? (Utf8.encode block.code) = some block.code :=
    Utf8.decode?_eq_some_iff.mpr rfl
  obtain ⟨front, back, whole, offset⟩ := stands
  obtain ⟨inner, behind, code, row, _⟩ := covers.text_split valid
  -- What stands in front of the node is what stands in front of the block, then a part of it.
  obtain ⟨line, found, holds⟩ :=
    headline_infix_split node (Utf8.encode block.code) (front ++ inner) (behind ++ back)
  have same : text
      = (front ++ inner) ++ node.text (Utf8.encode block.code) ++ (behind ++ back) := by
    rw [whole]
    conv_lhs => rw [code]
    simp only [List.append_assoc]
  refine ⟨node.row + block.offset, line, ?_, ?_, ?_⟩
  · simp only [shift, declare]
    omega
  · rw [same, row, offset, Nat.add_comm, ← List.count_append]
    exact found
  · simpa [shift, declare] using holds

/-- The raw texts of a document stand in it as blocks. -/
theorem svelteBlocks_standsIn {source : Bytes} {text : List Char}
    (valid : Utf8.decode? source = some text) {root : Node}
    (covers : ∀ node ∈ root.nodes, node.Covers source) {block : Block}
    (member : block ∈ svelteBlocks source root) : block.StandsIn text := by
  obtain ⟨raw, found, same⟩ := List.mem_map.mp member
  -- A raw text is a node of the tree, so it covers the code it holds, from any column on.
  have inTree := mem_nodes_of_mem_rawTexts found
  obtain ⟨front, back, whole, row, _⟩ := (covers raw inTree).text_split valid
  subst same
  exact ⟨front, back, whole, row⟩

/-- The frontmatter of a document stands in it as a block. -/
theorem astroBlocks_standsIn {source : Bytes} {text : List Char}
    (valid : Utf8.decode? source = some text) {block : Block}
    (member : block ∈ astroBlocks source) : block.StandsIn text := by
  -- Of well-formed bytes, the lossy decoding is the text itself.
  have decoded : Utf8.decode source = text := by
    rw [← Utf8.decode?_eq_some_iff.mp valid, Utf8.decode_encode]
  unfold astroBlocks at member
  rw [decoded] at member
  obtain ⟨⟨offset, code⟩, found, same⟩ := List.mem_map.mp member
  subst same
  exact frontmatter_split (Option.mem_toList.mp found)

end Rules

/--
Every line number leads to the line of the document on which the signature stands.

This holds for the declarations of a tree that covers the document, and for those of embedded
scripts, wherever in the document the scripts start.
-/
theorem Language.symbols_standsIn {language : Language} {parsing : Parsing} {source : Bytes}
    {root : Node} {text : List Char} (valid : Utf8.decode? source = some text)
    (covers : ∀ node ∈ root.nodes, node.Covers source)
    (scripts : ∀ block ∈ language.blocks source root, ∀ node ∈ (block.root parsing).nodes,
      node.Covers (Utf8.encode block.code)) :
    ∀ symbol ∈ language.symbols parsing source root, symbol.StandsIn text := by
  intro symbol member
  rcases mem_symbols_cases member with ⟨component, block, among, found⟩ | ⟨_, node, among, declared⟩
  · -- The block stands in the document, by its tree or by its fences.
    have stands : block.StandsIn text := by
      cases language with
      | svelte => exact Rules.svelteBlocks_standsIn valid covers among
      | astro => exact Rules.astroBlocks_standsIn valid among
      | _ => cases component
    obtain ⟨node, inScript, kind, name, same⟩ := Rules.exists_of_mem_embedded found
    rw [same]
    exact Rules.shift_declare_standsIn stands (scripts block among node inScript) kind name none
  · obtain ⟨kind, name, doc, _, same⟩ := declared
    rw [same]
    exact Rules.declare_standsIn valid (covers node among) kind name doc

/-- A document whose script starts in the middle of a line, behind a character of two bytes. -/
def midLineText : List Char :=
  "é<s>let a\n  let b".toList

/-- The tree of that document. -/
def midLineRoot : Node :=
  ⟨"document", none, 0, 18, 0,
    [⟨"script_element", none, 2, 18, 0,
      [⟨"start_tag", none, 2, 5, 0, []⟩, ⟨"raw_text", none, 5, 18, 0, []⟩]⟩]⟩

/-- The tree of its script: one constant on each line. -/
def midLineParsing : Parsing := fun _ _ =>
  let constant (start row : Nat) : Node :=
    ⟨"lexical_declaration", none, start, start + 5, row,
      [⟨"variable_declarator", none, start + 4, start + 5, row,
        [⟨"identifier", some "name", start + 4, start + 5, row, []⟩]⟩]⟩
  ⟨⟨"program", none, 0, 13, 0, [constant 0 0, constant 8 1]⟩, false⟩

/-- The constant on the second line of the script stands on the second line of the document. -/
theorem Language.symbols_standsIn_midLine :
    ⟨.constant, "b", "let b", none, 2⟩
        ∈ Language.svelte.symbols midLineParsing (Utf8.encode midLineText) midLineRoot
      ∧ Symbol.StandsIn midLineText ⟨.constant, "b", "let b", none, 2⟩ := by
  have member : ⟨.constant, "b", "let b", none, 2⟩
      ∈ Language.svelte.symbols midLineParsing (Utf8.encode midLineText) midLineRoot := by
    rw [symbols_eq_blocks rfl]
    decide
  have valid : Utf8.decode? (Utf8.encode midLineText) = some midLineText := by decide
  -- The script starts in the middle of a line, and its rows are counted from there.
  have covers : ∀ node ∈ midLineRoot.nodes, node.Covers (Utf8.encode midLineText) := by decide
  have scripts : ∀ block ∈ Language.svelte.blocks (Utf8.encode midLineText) midLineRoot,
      ∀ node ∈ (block.root midLineParsing).nodes, node.Covers (Utf8.encode block.code) := by
    decide
  exact ⟨member, symbols_standsIn valid covers scripts _ member⟩

end Surface
