import Surface.Proofs.Rules.Component
import Surface.Proofs.Text.Line

/-! Symbols are tidy by every rule and on every tree, so that each fits on a line of its own. -/

namespace Surface

/-- A symbol that can be shown as it is: one trimmed line, trimmed documentation, a line number. -/
structure Symbol.Tidy (symbol : Symbol) : Prop where
  oneLine : '\n' ∉ symbol.signature.toList
  trimmed : Text.IsTrimmed symbol.signature.toList
  docTrimmed : ∀ doc ∈ symbol.doc, Text.IsTrimmed doc.toList
  numbered : 1 ≤ symbol.line

/-- The first line of a node's text holds no line end, wherever the node lies. -/
theorem Node.not_mem_headline (node : Node) (source : Bytes) : '\n' ∉ node.headline source := by
  intro member
  -- Trimming keeps characters of the line and adds none.
  have kept := (Text.trim_infix (Text.firstLine (node.text source))).subset member
  exact Text.not_mem_firstLine _ kept

namespace Rules

/-- A declaration with trimmed documentation is a tidy symbol. -/
theorem declare_tidy (kind : Kind) (name : List Char) {doc : Option (List Char)} (node : Node)
    (source : Bytes) (trimmed : ∀ text ∈ doc, Text.IsTrimmed text) :
    (declare kind name doc node source).Tidy where
  oneLine := by simpa [declare] using node.not_mem_headline source
  trimmed := by simpa [declare, Node.headline] using Text.isTrimmed_trim _
  docTrimmed := by
    intro shown member
    obtain ⟨text, present, same⟩ := Option.map_eq_some_iff.mp member
    subst same
    simpa using trimmed text present
  numbered := Nat.le_add_left 1 node.row

/-- A tidy symbol stays tidy further down in a document. -/
theorem shift_tidy {symbol : Symbol} (tidy : symbol.Tidy) (offset : Nat) :
    (shift offset symbol).Tidy where
  oneLine := tidy.oneLine
  trimmed := tidy.trimmed
  docTrimmed := tidy.docTrimmed
  numbered := Nat.le_trans tidy.numbered (Nat.le_add_right _ offset)

/-- A symbol of an embedded script is tidy, undocumented, and behind the lines in front of it. -/
theorem embedded_tidy {parsing : Parsing} {block : Block} {symbol : Symbol}
    (member : symbol ∈ embedded parsing block.code block.offset) :
    symbol.Tidy ∧ symbol.doc = none ∧ block.offset + 1 ≤ symbol.line := by
  -- Whatever the script is, the symbol is a declaration that was moved down.
  obtain ⟨node, _, kind, name, same⟩ := exists_of_mem_embedded member
  subst same
  refine ⟨shift_tidy (declare_tidy kind name node _ (by simp)) block.offset, rfl, ?_⟩
  simp only [shift, declare]
  omega

/-- Rows are below this number wherever line numbers are not to be used up. -/
def rowBound : Nat := 4611686018427387904

/-- A block that starts and lies on rows below the bound, by the tree it is parsed to. -/
def Block.RowsBounded (parsing : Parsing) (block : Block) : Prop :=
  block.offset < rowBound ∧ ∀ node ∈ (block.root parsing).nodes, node.row < rowBound

/-- With bounded rows, the lines of an embedded script are within the line numbers. -/
theorem embedded_line_lt {parsing : Parsing} {block : Block} (bounded : block.RowsBounded parsing)
    {symbol : Symbol} (member : symbol ∈ embedded parsing block.code block.offset) :
    symbol.line < lineBound := by
  -- The line is the sum of two rows and one, and the bound leaves room for twice a row.
  obtain ⟨node, among, kind, name, same⟩ := exists_of_mem_embedded member
  have row := bounded.2 node among
  have offset := bounded.1
  subst same
  simp only [shift, declare, rowBound, lineBound] at *
  omega

end Rules

/-- The languages whose rules never look for documentation. -/
def Language.undocumented : List Language :=
  [.javascript, .typescript, .tsx, .zig, .svelte, .astro]

/-- Where the rules look for no documentation, no symbol has any. -/
theorem Language.doc_eq_none {language : Language} (silent : language ∈ undocumented)
    {parsing : Parsing} {source : Bytes} {root : Node} {symbol : Symbol}
    (member : symbol ∈ language.symbols parsing source root) : symbol.doc = none := by
  -- A symbol that may only carry documentation of no sort carries none.
  have bare : ∀ {symbols : List Symbol},
      Rules.Declares (fun _ => False) source root.nodes symbols → symbol ∈ symbols →
        symbol.doc = none := by
    intro symbols declares among
    obtain ⟨node, _, kind, name, same⟩ := declares.exists_of_mem_undocumented among
    rw [same]
    rfl
  cases language with
  | javascript | typescript | tsx =>
    exact bare (Rules.topLevel_declares (Rules.scriptRule_declares source) root) member
  | zig => exact bare (Rules.topLevel_declares (Rules.zigRule_declares source) root) member
  | svelte | astro =>
    -- Their symbols are those of scripts, which are moved down but not documented.
    rw [symbols_eq_blocks rfl] at member
    obtain ⟨block, _, found⟩ := List.mem_flatMap.mp member
    exact (Rules.embedded_tidy found).2.1
  | _ => exact absurd silent (by decide)

/-- A symbol of any language is tidy. -/
theorem Language.tidy_of_mem {language : Language} {parsing : Parsing} {source : Bytes}
    {root : Node} {symbol : Symbol} (member : symbol ∈ language.symbols parsing source root) :
    symbol.Tidy := by
  -- A symbol comes from a block, or is that of a node of the tree.
  rcases mem_symbols_cases member with ⟨_, block, _, found⟩ | ⟨_, node, _, declared⟩
  · exact (Rules.embedded_tidy found).1
  · obtain ⟨kind, name, doc, trimmed, same⟩ := declared
    rw [same]
    exact Rules.declare_tidy kind name node source trimmed

/-- With bounded rows, a symbol of any language lies within the line numbers. -/
theorem Language.line_lt_of_mem {language : Language} {parsing : Parsing} {source : Bytes}
    {root : Node} (rows : ∀ node ∈ root.nodes, node.row < Rules.rowBound)
    (blocks : ∀ block ∈ language.blocks source root, block.RowsBounded parsing)
    {symbol : Symbol} (member : symbol ∈ language.symbols parsing source root) :
    symbol.line < Rules.lineBound := by
  -- Lines are counted from one and rows from zero.
  rcases mem_symbols_cases member with ⟨_, block, among, found⟩ | ⟨_, node, among, declared⟩
  · exact Rules.embedded_line_lt (blocks block among) found
  · obtain ⟨kind, name, doc, _, same⟩ := declared
    have row := rows node among
    subst same
    simp only [Rules.declare, Rules.rowBound, Rules.lineBound] at *
    omega

/--
Symbols are tidy by the rules of every language, on every tree and whatever the bytes are.

Symbols of embedded scripts lie behind the lines in front of the script, some languages have no
documentation, and bounded rows use up no line number.
-/
theorem Language.symbols_tidy (parsing : Parsing) :
    (∀ (language : Language) (source : Bytes) (root : Node),
      ∀ symbol ∈ language.symbols parsing source root,
        symbol.Tidy
          ∧ (language ∈ undocumented → symbol.doc = none)
          ∧ (language.isComponent = true → ∃ block ∈ language.blocks source root,
              symbol ∈ Rules.embedded parsing block.code block.offset
                ∧ block.offset + 1 ≤ symbol.line)
          ∧ ((∀ node ∈ root.nodes, node.row < Rules.rowBound) →
              (∀ block ∈ language.blocks source root, block.RowsBounded parsing) →
                symbol.line < Rules.lineBound))
      ∧ ∀ block : Rules.Block, block.RowsBounded parsing →
        ∀ symbol ∈ Rules.embeddedAnywhere parsing block.code block.offset,
          symbol.Tidy ∧ symbol.doc = none ∧ block.offset + 1 ≤ symbol.line := by
  constructor
  · intro language source root symbol member
    -- The four facts of a symbol are known apart, but for the block it comes from.
    refine ⟨tidy_of_mem member, fun silent => doc_eq_none silent member, ?_,
      fun rows blocks => line_lt_of_mem rows blocks member⟩
    intro component
    rw [symbols_eq_blocks component] at member
    obtain ⟨block, among, found⟩ := List.mem_flatMap.mp member
    exact ⟨block, among, found, (Rules.embedded_tidy found).2.2⟩
  · intro block bounded symbol member
    -- Nothing wraps around, so the script is embedded as in a known document.
    rw [Rules.embeddedAnywhere_eq fun _ found => Rules.embedded_line_lt bounded found] at member
    exact Rules.embedded_tidy member

/-- A tree that fits no source: nodes end before they start or past the end, on any row. -/
def strayRoot : Node :=
  ⟨"ERROR", none, 0, 0, 7,
    [⟨"script_element", none, 90, 10, 5, [⟨"raw_text", some "x", 1, 999, 3, []⟩]⟩]⟩

/-- Parsing of scripts to a tree that fits none of them. -/
def strayParsing : Parsing := fun _ _ =>
  ⟨⟨"program", none, 0, 0, 0,
    [⟨"lexical_declaration", none, 0, 999, 2, [⟨"variable_declarator", none, 5, 5, 0, []⟩]⟩]⟩, true⟩

/-- A source with a byte that belongs to no character. -/
def straySource : Bytes :=
  [0x20, 0xFF, 0x20, 0x0A, 0x61]

/-- The block that the stray tree cuts out of the source. -/
def strayBlock : Rules.Block :=
  ⟨3, [Utf8.replacement, ' ', '\n', 'a']⟩

/-- The symbol that comes of it. -/
def straySymbol : Symbol :=
  ⟨.constant, "", "\uFFFD", none, 6⟩

/-- Stray trees over stray bytes yield tidy symbols, too. -/
theorem Language.symbols_tidy_stray :
    straySymbol ∈ Language.svelte.symbols strayParsing straySource strayRoot
      ∧ straySymbol.Tidy
      ∧ straySymbol.line < Rules.lineBound
      ∧ straySymbol ∈ Rules.embeddedAnywhere strayParsing strayBlock.code strayBlock.offset
      ∧ straySymbol.doc = none
      ∧ strayBlock.offset + 1 ≤ straySymbol.line := by
  have member : straySymbol ∈ Language.svelte.symbols strayParsing straySource strayRoot := by
    rw [symbols_eq_blocks rfl]
    decide
  -- The tree is no tree of the source, but its rows are bounded.
  have rows : ∀ node ∈ strayRoot.nodes, node.row < Rules.rowBound := by decide
  have bounded : strayBlock.RowsBounded strayParsing := by
    unfold Rules.Block.RowsBounded
    decide
  have blocks : ∀ block ∈ Language.svelte.blocks straySource strayRoot,
      block.RowsBounded strayParsing := by
    have only : Language.svelte.blocks straySource strayRoot = [strayBlock] := by decide
    simpa [only] using bounded
  have anywhere : straySymbol ∈ Rules.embeddedAnywhere strayParsing strayBlock.code
      strayBlock.offset := by decide
  obtain ⟨known, unknown⟩ := symbols_tidy strayParsing
  obtain ⟨tidy, _, _, small⟩ := known .svelte straySource strayRoot straySymbol member
  obtain ⟨_, silent, behind⟩ := unknown strayBlock bounded straySymbol anywhere
  exact ⟨member, tidy, small rows blocks, anywhere, silent, behind⟩

end Surface
