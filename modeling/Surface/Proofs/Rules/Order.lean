import Surface.Proofs.Rules.Component
import Surface.Proofs.Tree.Span

/-! Symbols come in the order of the source, also across the scripts of a component file. -/

namespace Surface

open Text (lineFeed)

namespace Rules

/-- Declarations of nodes on rising rows are on rising lines. -/
theorem Declares.pairwise_line {sort : List Char → Prop} {source : Bytes} {nodes : List Node}
    {symbols : List Symbol} (declares : Declares sort source nodes symbols)
    (rows : nodes.Pairwise fun earlier later => earlier.row ≤ later.row) :
    symbols.Pairwise fun earlier later => earlier.line ≤ later.line := by
  induction declares with
  | done nodes => exact .nil
  | skip node _ ih => exact ih rows.of_cons
  | @here kind name doc node nodes symbols sorted rest ih =>
    -- The node stays in the list, since it may be declared again.
    refine List.pairwise_cons.mpr ⟨?_, ih rows⟩
    -- What comes later declares the same node or one further on.
    intro symbol member
    obtain ⟨other, among, _, _, _, _, same⟩ := rest.exists_of_mem member
    rw [same]
    simp only [declare]
    rcases List.mem_cons.mp among with equal | further
    · rw [equal]
    · have row := List.rel_of_pairwise_cons rows further
      omega

/-- The declaration of a node of an ordered tree is on a line of the source. -/
theorem declare_line_le {source : Bytes} {node : Node} (ordered : node.Ordered source)
    (kind : Kind) (name : List Char) (doc : Option (List Char)) :
    1 ≤ (declare kind name doc node source).line
      ∧ (declare kind name doc node source).line ≤ 1 + source.count lineFeed := by
  -- Lines are counted from one and rows from zero.
  have row := ordered.row_eq
  have last := rowAt_le_count source node.start
  simp only [declare]
  omega

/-- A block whose tree is ordered. -/
def Block.Ordered (parsing : Parsing) (block : Block) : Prop :=
  ∀ node ∈ (block.root parsing).nodes, node.Ordered (Utf8.encode block.code)

/-- The row of the document on which a block ends. -/
def Block.lastRow (block : Block) : Nat :=
  block.offset + block.code.count '\n'

/-- The symbols of an ordered block are on rising lines. -/
theorem embedded_pairwise_line {parsing : Parsing} {block : Block}
    (ordered : block.Ordered parsing) :
    (embedded parsing block.code block.offset).Pairwise
      fun earlier later => earlier.line ≤ later.line := by
  have own := (block.declares parsing).pairwise_line (Node.nodes_pairwise_row ordered)
  -- All of them are moved down by the same number of lines.
  refine List.pairwise_map.mpr (own.imp ?_)
  intro earlier later rises
  exact Nat.add_le_add_right rises block.offset

/-- The symbols of an ordered block are on lines of the block. -/
theorem line_add_offset_le {parsing : Parsing} {block : Block} (ordered : block.Ordered parsing)
    {symbol : Symbol}
    (member : symbol ∈ topLevel scriptRule (Utf8.encode block.code) (block.root parsing)) :
    block.offset + 1 ≤ symbol.line + block.offset
      ∧ symbol.line + block.offset ≤ block.lastRow + 1 := by
  obtain ⟨node, among, kind, name, doc, _, same⟩ := (block.declares parsing).exists_of_mem member
  have own := declare_line_le (ordered node among) kind name doc
  -- The code was encoded for the parser, which left its line ends as they are.
  rw [← same, Utf8.count_encode] at own
  unfold Block.lastRow
  omega

/-- The symbols of a block are on its lines. -/
theorem embedded_line_le {parsing : Parsing} {block : Block} (ordered : block.Ordered parsing)
    {symbol : Symbol} (member : symbol ∈ embedded parsing block.code block.offset) :
    block.offset + 1 ≤ symbol.line ∧ symbol.line ≤ block.lastRow + 1 := by
  obtain ⟨inner, found, same⟩ := List.mem_map.mp member
  rw [← same]
  exact line_add_offset_le ordered found

/-- A tree in which no script element lies in another one. -/
def ScriptsApart (root : Node) : Prop :=
  ∀ node ∈ root.nodes, node.kind = "script_element" →
    ∀ child ∈ node.children, ∀ inner ∈ child.nodes, inner.kind ≠ "script_element"

/-- Only script elements have raw texts that count. -/
theorem rawTexts_eq_nil {node : Node} (other : node.kind ≠ "script_element") :
    rawTexts node = [] := by
  simp [rawTexts, other]

/-- The raw texts of an ordered tree stand one behind the other, unless script elements nest. -/
theorem rawTexts_pairwise {source : Bytes} {root : Node}
    (ordered : ∀ node ∈ root.nodes, node.Ordered source) (apart : ScriptsApart root) :
    (root.nodes.flatMap rawTexts).Pairwise fun earlier later => earlier.stop ≤ later.start := by
  induction root using Node.induction with
  | step root ih =>
    rw [Node.nodes_eq, List.flatMap_cons, List.flatMap_assoc]
    by_cases script : root.kind = "script_element"
    · -- Below a script element there is no other one, so its own raw texts are all there are.
      have none : (root.children.flatMap fun child => child.nodes.flatMap rawTexts) = [] := by
        refine List.flatMap_eq_nil_iff.mpr fun child isChild => ?_
        refine List.flatMap_eq_nil_iff.mpr fun inner below => ?_
        exact rawTexts_eq_nil (apart root root.self_mem_nodes script child isChild inner below)
      have own : (rawTexts root).Sublist root.children := by
        rw [rawTexts, if_pos (by simpa using script)]
        exact List.filter_sublist
      rw [none, List.append_nil]
      exact (Node.children_pairwise ordered).sublist own
    · -- Elsewhere they are those of the children, and these stand one behind the other.
      rw [rawTexts_eq_nil script, List.nil_append, List.pairwise_flatMap]
      constructor
      · intro child isChild
        refine ih child isChild (Node.ordered_child ordered isChild) ?_
        exact fun node below => apart node (Node.mem_nodes_of_child isChild below)
      · refine (Node.children_pairwise ordered).imp_of_mem ?_
        intro earlier later isEarlier isLater behind first inEarlier second inLater
        have front := Node.nodes_within (Node.ordered_child ordered isEarlier) first
          (mem_nodes_of_mem_rawTexts inEarlier)
        have back := Node.nodes_within (Node.ordered_child ordered isLater) second
          (mem_nodes_of_mem_rawTexts inLater)
        omega

/-- The block of a raw text ends on the row on which the raw text ends. -/
theorem lastRow_ofRawText {source : Bytes} {raw : Node} (ordered : raw.Ordered source) :
    (Block.ofRawText source raw).lastRow = rowAt source raw.stop := by
  -- Decoding keeps the line ends, however ill-formed the bytes are.
  have kept : (raw.text source).count '\n' = (raw.bytes source).count lineFeed :=
    Utf8.count_decode _
  simp only [Block.lastRow, Block.ofRawText]
  rw [kept, ordered.row_eq, rowAt_stop source ordered.start_le_stop]

end Rules

namespace Language

/-- No block of a file reaches past its last row. -/
theorem lastRow_le_count {language : Language} {source : Bytes} {root : Node}
    (ordered : ∀ node ∈ root.nodes, node.Ordered source) {block : Rules.Block}
    (member : block ∈ language.blocks source root) :
    block.lastRow ≤ source.count lineFeed := by
  cases language with
  | svelte =>
    obtain ⟨raw, found, same⟩ := List.mem_map.mp member
    have ends := Rules.lastRow_ofRawText (ordered raw (Rules.mem_nodes_of_mem_rawTexts found))
    rw [← same, ends]
    exact rowAt_le_count source raw.stop
  | astro =>
    obtain ⟨⟨offset, code⟩, found, same⟩ := List.mem_map.mp member
    -- The line ends in front of the code and those in it are all in the document.
    obtain ⟨front, back, whole, counted⟩ := Rules.frontmatter_split (Option.mem_toList.mp found)
    subst same
    rw [← Utf8.count_decode, whole, List.count_append, List.count_append]
    simp only [Rules.Block.lastRow]
    omega
  | _ => cases member

/-- A block of a file ends above the next one, or on the row on which that one starts. -/
theorem blocks_pairwise {language : Language} {source : Bytes} {root : Node}
    (ordered : ∀ node ∈ root.nodes, node.Ordered source)
    (apart : language = .svelte → Rules.ScriptsApart root) :
    (language.blocks source root).Pairwise
      fun earlier later => earlier.lastRow ≤ later.offset := by
  cases language with
  | svelte =>
    -- Blocks are those of raw texts, and these stand one behind the other.
    refine List.pairwise_map.mpr ((Rules.rawTexts_pairwise ordered (apart rfl)).imp_of_mem ?_)
    intro first second isFirst isSecond behind
    have ends := Rules.lastRow_ofRawText (ordered first (Rules.mem_nodes_of_mem_rawTexts isFirst))
    have starts := (ordered second (Rules.mem_nodes_of_mem_rawTexts isSecond)).row_eq
    -- What ends before another part starts is not below it.
    rw [ends]
    exact Nat.le_trans (rowAt_mono source behind) (Nat.le_of_eq starts.symm)
  | astro =>
    -- There is one frontmatter at most.
    refine List.pairwise_map.mpr ?_
    cases Rules.frontmatter (Utf8.decode source) with
    | none => exact .nil
    | some found => exact List.pairwise_singleton _ found
  | _ => exact .nil

section Lines

variable {language : Language} {parsing : Parsing} {source : Bytes} {root : Node}
  (ordered : ∀ node ∈ root.nodes, node.Ordered source)
  (scripts : ∀ block ∈ language.blocks source root, block.Ordered parsing)

include ordered scripts

/-- In an ordered file, the symbols of a block are on lines of the file. -/
theorem embedded_line_le_count {block : Rules.Block} (among : block ∈ language.blocks source root)
    {symbol : Symbol} (member : symbol ∈ Rules.embedded parsing block.code block.offset) :
    1 ≤ symbol.line ∧ symbol.line ≤ 1 + source.count lineFeed := by
  have bounds := Rules.embedded_line_le (scripts block among) member
  have ends := lastRow_le_count ordered among
  omega

/-- In an ordered file, all symbols are on lines of the file. -/
theorem line_le_count {symbol : Symbol} (member : symbol ∈ language.symbols parsing source root) :
    1 ≤ symbol.line ∧ symbol.line ≤ 1 + source.count lineFeed := by
  -- A symbol comes from a block, or is that of a node of the tree.
  rcases mem_symbols_cases member with ⟨_, block, among, found⟩ | ⟨_, node, among, declared⟩
  · exact embedded_line_le_count ordered scripts among found
  · obtain ⟨kind, name, doc, _, same⟩ := declared
    rw [same]
    exact Rules.declare_line_le (ordered node among) kind name doc

/-- In an ordered file whose script elements do not nest, the symbols are on rising lines. -/
theorem pairwise_line (apart : language = .svelte → Rules.ScriptsApart root) :
    (language.symbols parsing source root).Pairwise
      fun earlier later => earlier.line ≤ later.line := by
  cases component : language.isComponent with
  | false =>
    have declares := symbols_declares component parsing source root
    exact declares.pairwise_line (Node.nodes_pairwise_row ordered)
  | true =>
    rw [symbols_eq_blocks component, List.pairwise_flatMap]
    constructor
    · intro block among
      exact Rules.embedded_pairwise_line (scripts block among)
    · -- Across two blocks, the row on which the first one ends lies between the lines.
      refine (blocks_pairwise ordered apart).imp_of_mem ?_
      intro first second isFirst isSecond above early inFirst late inSecond
      have high := (Rules.embedded_line_le (scripts first isFirst) inFirst).2
      have low := (Rules.embedded_line_le (scripts second isSecond) inSecond).1
      omega

end Lines

/--
Symbols come in the order of the source, and all of them are on its lines.

So no line of an embedded script goes past them, and none is lost to the size of a line number.
-/
theorem symbols_pairwise_line {language : Language} {parsing : Parsing} {source : Bytes}
    {root : Node} (ordered : ∀ node ∈ root.nodes, node.Ordered source)
    (apart : language = .svelte → Rules.ScriptsApart root)
    (scripts : ∀ block ∈ language.blocks source root, block.Ordered parsing) :
    (language.symbols parsing source root).Pairwise
        (fun earlier later => earlier.line ≤ later.line)
      ∧ (∀ symbol ∈ language.symbols parsing source root,
          1 ≤ symbol.line ∧ symbol.line ≤ 1 + source.count lineFeed)
      ∧ ∀ block ∈ language.blocks source root,
          (∀ symbol ∈ Rules.topLevel Rules.scriptRule (Utf8.encode block.code) (block.root parsing),
            symbol.line + block.offset ≤ 1 + source.count lineFeed)
          ∧ (source.length + 1 < Rules.lineBound →
              Rules.embeddedAnywhere parsing block.code block.offset
                = Rules.embedded parsing block.code block.offset) := by
  refine ⟨pairwise_line ordered scripts apart,
    fun symbol member => line_le_count ordered scripts member, ?_⟩
  intro block among
  constructor
  · intro symbol member
    have bounds := Rules.line_add_offset_le (scripts block among) member
    have ends := lastRow_le_count ordered among
    omega
  · -- A source has no more line feeds than bytes, so its line numbers do not run out.
    intro short
    refine Rules.embeddedAnywhere_eq fun symbol member => ?_
    have bounds := embedded_line_le_count ordered scripts among member
    have few : source.count lineFeed ≤ source.length := List.count_le_length
    omega

end Language

/-- The bytes of `<s>?⏎let a</s><s>⏎let b</s>`, where `?` belongs to no character. -/
def twoScriptsSource : Bytes :=
  Utf8.encode "<s>".toList ++ 0xFF :: Utf8.encode "\nlet a</s><s>\nlet b</s>".toList

/-- The tree of that document. -/
def twoScriptsRoot : Node :=
  ⟨"document", none, 0, 27, 0,
    [⟨"script_element", none, 0, 14, 0, [⟨"raw_text", none, 3, 10, 0, []⟩]⟩,
      ⟨"script_element", none, 14, 27, 1, [⟨"raw_text", none, 17, 23, 1, []⟩]⟩]⟩

/-- The trees of its scripts: a constant on the second line, behind what stands on the first. -/
def twoScriptsParsing : Parsing := fun _ code =>
  let stop := code.length
  let start := stop - 5
  ⟨⟨"program", none, 0, stop, 0,
    [⟨"lexical_declaration", none, start, stop, 1,
      [⟨"variable_declarator", none, start + 4, stop, 1,
        [⟨"identifier", some "name", start + 4, stop, 1, []⟩]⟩]⟩]⟩, false⟩

/-- The constants of the two scripts come in order, the second one on the last line. -/
theorem Language.symbols_pairwise_line_twoScripts :
    Language.svelte.symbols twoScriptsParsing twoScriptsSource twoScriptsRoot
        = [⟨.constant, "a", "let a", none, 2⟩, ⟨.constant, "b", "let b", none, 3⟩]
      ∧ (Language.svelte.symbols twoScriptsParsing twoScriptsSource twoScriptsRoot).Pairwise
          (fun earlier later => earlier.line ≤ later.line)
      ∧ (∀ symbol ∈ Language.svelte.symbols twoScriptsParsing twoScriptsSource twoScriptsRoot,
          1 ≤ symbol.line ∧ symbol.line ≤ 3)
      ∧ ∀ block ∈ Language.svelte.blocks twoScriptsSource twoScriptsRoot,
          Rules.embeddedAnywhere twoScriptsParsing block.code block.offset
            = Rules.embedded twoScriptsParsing block.code block.offset := by
  have symbols : Language.svelte.symbols twoScriptsParsing twoScriptsSource twoScriptsRoot
      = [⟨.constant, "a", "let a", none, 2⟩, ⟨.constant, "b", "let b", none, 3⟩] := by
    rw [symbols_eq_blocks rfl]
    decide
  -- The scripts are one after the other, and so are the nodes in each.
  have ordered : ∀ node ∈ twoScriptsRoot.nodes, node.Ordered twoScriptsSource := by decide
  have apart : Rules.ScriptsApart twoScriptsRoot := by
    unfold Rules.ScriptsApart
    decide
  have scripts : ∀ block ∈ Language.svelte.blocks twoScriptsSource twoScriptsRoot,
      block.Ordered twoScriptsParsing := by
    unfold Rules.Block.Ordered
    decide
  have short : twoScriptsSource.length + 1 < Rules.lineBound := by decide
  obtain ⟨rising, bounded, within⟩ := symbols_pairwise_line ordered (fun _ => apart) scripts
  exact ⟨symbols, rising, bounded, fun block among => (within block among).2 short⟩

end Surface
