import Surface.Proofs.Rules.Declares
import Surface.Proofs.Text.Line
import Surface.Proofs.Text.Utf8

/-! Component files: their symbols are those of the scripts embedded in them, block by block. -/

namespace Surface

namespace Rules

/-- A script embedded in a document: the number of lines in front of it, and its code. -/
structure Block where
  offset : Nat
  code : List Char
  deriving DecidableEq, Repr

/-- The root of the tree that a block is parsed to. -/
def Block.root (parsing : Parsing) (block : Block) : Node :=
  (parsing (.bundled "typescript") (Utf8.encode block.code)).root

/-- The raw texts right below a script element. -/
def rawTexts (element : Node) : List Node :=
  if element.kind == "script_element" then element.children.filter (·.kind == "raw_text") else []

/-- The block of a raw text: it starts on the row of that node. -/
def Block.ofRawText (source : Bytes) (node : Node) : Block :=
  ⟨node.row, node.text source⟩

/-- The blocks of a Svelte file: the raw texts in its script elements. -/
def svelteBlocks (source : Bytes) (root : Node) : List Block :=
  (root.nodes.flatMap rawTexts).map (.ofRawText source)

/-- The block of an Astro file: its frontmatter, if it has any. -/
def astroBlocks (source : Bytes) : List Block :=
  (frontmatter (Utf8.decode source)).toList.map fun (offset, code) => ⟨offset, code⟩

end Rules

/-- Whether the symbols of a language are those of embedded scripts. -/
def Language.isComponent (language : Language) : Bool :=
  language == .svelte || language == .astro

/-- The blocks of a file: only component files have any. -/
def Language.blocks (language : Language) (source : Bytes) (root : Node) : List Rules.Block :=
  match language with
  | .svelte => Rules.svelteBlocks source root
  | .astro => Rules.astroBlocks source
  | _ => []

namespace Rules

/-- A script element has the symbols of the raw texts in it. -/
theorem scriptElement_eq (parsing : Parsing) (source : Bytes) (node : Node) :
    scriptElement parsing source node
      = (rawTexts node).flatMap fun child => embedded parsing (child.text source) child.row := by
  unfold scriptElement rawTexts
  split
  · -- Child by child: a raw text contributes, any other child does not.
    induction node.children with
    | nil => rfl
    | cons child children ih =>
      rw [List.flatMap_cons, ih, List.filter_cons]
      split <;> simp
  · rfl

/-- The raw texts of an element are children of it. -/
theorem mem_children_of_mem_rawTexts {element raw : Node} (member : raw ∈ rawTexts element) :
    raw ∈ element.children := by
  -- Only a script element has any.
  unfold rawTexts at member
  split at member
  · exact List.mem_of_mem_filter member
  · simp at member

/-- A raw text in an element of a tree is a node of the tree. -/
theorem mem_nodes_of_mem_rawTexts {root raw : Node} (member : raw ∈ root.nodes.flatMap rawTexts) :
    raw ∈ root.nodes := by
  -- It is a child of the element, which is a node of the tree.
  obtain ⟨element, among, isRaw⟩ := List.mem_flatMap.mp member
  exact Node.mem_nodes_trans among (Node.child_mem_nodes (mem_children_of_mem_rawTexts isRaw))

/-- A Svelte file has the symbols of its blocks. -/
theorem svelteSymbols_eq (parsing : Parsing) (source : Bytes) (root : Node) :
    svelteSymbols parsing source root = (svelteBlocks source root).flatMap
      fun block => embedded parsing block.code block.offset := by
  unfold svelteSymbols svelteBlocks
  -- Both sides go over the nodes of the tree, one of them by way of the walk.
  rw [List.flatMap_map, List.flatMap_assoc, ← Node.walk_map_node, List.flatMap_map]
  simp only [scriptElement_eq]
  rfl

/-- An Astro file has the symbols of its block. -/
theorem astroSymbols_eq (parsing : Parsing) (source : Bytes) :
    astroSymbols parsing source = (astroBlocks source).flatMap
      fun block => embedded parsing block.code block.offset := by
  -- Without frontmatter there is no block.
  unfold astroSymbols astroBlocks
  cases frontmatter (Utf8.decode source) with
  | none => rfl
  | some found => simp

/-- The code between the first two fences of some lines, and the number of lines in front of it. -/
def betweenFences (lines : List (List Char)) : Option (Nat × List Char) :=
  match lines.dropWhile isBlankLine with
  | [] => none
  | opening :: rest =>
    if isFence opening then
      let code := rest.takeWhile (!isFence ·)
      -- A line is left over only where a second fence stopped the search.
      if code.length < rest.length then
        some ((lines.takeWhile isBlankLine).length + 1, code.flatten)
      else none
    else none

/-- The number of bytes that some lines take. -/
def width (lines : List (List Char)) : Nat :=
  (Utf8.encode lines.flatten).length

/-- Each line adds its own bytes. -/
theorem width_cons (line : List Char) (lines : List (List Char)) :
    width (line :: lines) = (Utf8.encode line).length + width lines := by
  rw [width, List.flatten_cons, Utf8.encode_append, List.length_append, ← width]

/-- The first search passes the blank lines and the line behind them, which has to be a fence. -/
theorem openingFence_eq (consumed row : Nat) (lines : List (List Char)) :
    openingFence consumed row lines
      = match lines.dropWhile isBlankLine with
        | [] => none
        | opening :: rest =>
          if isFence opening then
            some (consumed + width (lines.takeWhile isBlankLine ++ [opening]),
              row + (lines.takeWhile isBlankLine).length, rest)
          else none := by
  -- Line by line, with both counters open: a blank line is passed, any other one ends the search.
  induction lines generalizing consumed row with
  | nil => rfl
  | cons line lines ih =>
    by_cases blank : isBlankLine line = true
    · rw [openingFence, if_pos blank, ih, List.dropWhile_cons_of_pos blank,
        List.takeWhile_cons_of_pos blank]
      simp only [List.cons_append, width_cons, List.length_cons, Nat.add_assoc, Nat.add_comm 1]
    · rw [openingFence, if_neg blank, List.dropWhile_cons_of_neg blank,
        List.takeWhile_cons_of_neg blank]
      simp [width]

/-- The second search passes the lines up to the next fence, which has to be there. -/
theorem closingFence_eq (consumed : Nat) (lines : List (List Char)) :
    closingFence consumed lines
      = if (lines.takeWhile (!isFence ·)).length < lines.length then
          some (consumed + width (lines.takeWhile (!isFence ·)))
        else none := by
  -- Again line by line, with the counter open.
  induction lines generalizing consumed with
  | nil => rfl
  | cons line lines ih =>
    by_cases fence : isFence line = true
    · simp [closingFence, fence, width, Utf8.encode]
    · rw [closingFence, if_neg fence, ih, List.takeWhile_cons_of_pos (by simpa using fence)]
      simp only [List.length_cons, Nat.add_lt_add_iff_right, width_cons, Nat.add_assoc]

/-- Cutting out bytes that both ends of which are counted gives back the lines between. -/
theorem decode_slice (front code back : List (List Char)) :
    Utf8.decode (((Utf8.encode (front ++ code ++ back).flatten).drop (width front)).take
      (width front + width code - width front)) = code.flatten := by
  -- The bytes are those of the three parts, one after the other.
  rw [List.flatten_append, List.flatten_append, Utf8.encode_append, Utf8.encode_append,
    List.append_assoc, width, List.drop_left, Nat.add_sub_cancel_left, width, List.take_left,
    Utf8.decode_encode]

/-- The two searches with their counters come to cutting the lines at the first two fences. -/
theorem frontmatter_eq (text : List Char) : frontmatter text = betweenFences (Text.lines text) := by
  have blanks : (Text.lines text).takeWhile isBlankLine ++ (Text.lines text).dropWhile isBlankLine
      = Text.lines text := List.takeWhile_append_dropWhile
  unfold frontmatter betweenFences
  rw [openingFence_eq]
  cases behind : (Text.lines text).dropWhile isBlankLine with
  | nil => rfl
  | cons opening rest =>
    by_cases opens : isFence opening = true
    · simp only [opens, if_true, Option.bind_eq_bind, Option.bind_some, closingFence_eq,
        Nat.zero_add]
      split
      · -- The lines are those up to the first fence, those of the code, and the others.
        have whole : ((Text.lines text).takeWhile isBlankLine ++ [opening])
            ++ rest.takeWhile (!isFence ·) ++ rest.dropWhile (!isFence ·) = Text.lines text := by
          rw [List.append_assoc, List.takeWhile_append_dropWhile, List.append_assoc,
            List.singleton_append, ← behind, blanks]
        have code := decode_slice ((Text.lines text).takeWhile isBlankLine ++ [opening])
          (rest.takeWhile (!isFence ·)) (rest.dropWhile (!isFence ·))
        rw [whole, Text.flatten_lines] at code
        simp only [Option.bind_some, Option.pure_def, code]
      · rfl
    · simp [opens]

/--
The lines of a document with frontmatter.

Blank lines come first, then a fence, then the lines of the code, and then another fence.
-/
theorem lines_of_frontmatter {text code : List Char} {offset : Nat}
    (found : frontmatter text = some (offset, code)) :
    ∃ blanks opening block closing more,
      Text.lines text = blanks ++ opening :: (block ++ closing :: more)
        ∧ (∀ line ∈ blanks, isBlankLine line = true) ∧ isFence opening = true
        ∧ (∀ line ∈ block, isFence line = false) ∧ isFence closing = true
        ∧ offset = blanks.length + 1 ∧ code = block.flatten := by
  -- Each search for a fence cuts the lines in two, and the parts are put together again.
  have blanks : (Text.lines text).takeWhile isBlankLine ++ (Text.lines text).dropWhile isBlankLine
      = Text.lines text := List.takeWhile_append_dropWhile
  rw [frontmatter_eq] at found
  unfold betweenFences at found
  dsimp only at found
  split at found
  · cases found
  · rename_i opening rest behind
    have block : rest.takeWhile (!isFence ·) ++ rest.dropWhile (!isFence ·) = rest :=
      List.takeWhile_append_dropWhile
    split at found
    · rename_i opens
      split at found
      · rename_i shorter
        -- The code is shorter than what follows the fence, so another fence ends it.
        cases ending : rest.dropWhile (!isFence ·) with
        | nil =>
          rw [ending, List.append_nil] at block
          rw [block] at shorter
          exact absurd shorter (Nat.lt_irrefl _)
        | cons closing more =>
          have closes := List.head?_dropWhile_not (!isFence ·) rest
          simp only [ending, List.head?_cons, Bool.not_eq_eq_eq_not, Bool.not_false] at closes
          simp only [Option.some.injEq, Prod.mk.injEq] at found
          refine ⟨_, opening, _, closing, more, ?_, ?_, opens, ?_, closes, found.1.symm,
            found.2.symm⟩
          · rw [← ending, block, ← behind, blanks]
          · exact fun line member => List.mem_takeWhile_imp member
          · intro line member
            simpa using List.mem_takeWhile_imp member
      · cases found
    · cases found

/--
The frontmatter stands in its document as it is.

In front of it are as many line ends as its offset says.
-/
theorem frontmatter_split {text code : List Char} {offset : Nat}
    (found : frontmatter text = some (offset, code)) :
    ∃ front back, text = front ++ code ++ back ∧ offset = front.count '\n' := by
  obtain ⟨blanks, opening, block, closing, more, cut, _, _, _, _, counted, joined⟩ :=
    lines_of_frontmatter found
  have whole := Text.flatten_lines text
  -- The lines up to the code are followed by the second fence, so all of them are closed.
  have closed : ∀ line ∈ blanks ++ [opening], Text.IsClosed line := by
    have ahead : Text.lines text = (blanks ++ opening :: block) ++ closing :: more := by
      rw [cut]
      simp
    intro line member
    refine Text.isClosed_of_lines ahead line ?_
    simp only [List.mem_append, List.mem_cons, List.not_mem_nil, or_false] at member ⊢
    exact member.imp_right Or.inl
  refine ⟨(blanks ++ [opening]).flatten, (closing :: more).flatten, ?_, ?_⟩
  · rw [← whole, cut, joined]
    simp
  · rw [Text.count_flatten_of_isClosed closed, counted, List.length_append, List.length_singleton]

/-- A script of its own, before it is embedded: its symbols declare nodes of its tree. -/
theorem Block.declares (parsing : Parsing) (block : Block) :
    Declares (fun _ => False) (Utf8.encode block.code) (block.root parsing).nodes
      (topLevel scriptRule (Utf8.encode block.code) (block.root parsing)) :=
  topLevel_declares (scriptRule_declares (Utf8.encode block.code)) (block.root parsing)

/-- A symbol of an embedded script declares a node of the script's tree, without documentation. -/
theorem exists_of_mem_embedded {parsing : Parsing} {block : Block} {symbol : Symbol}
    (member : symbol ∈ embedded parsing block.code block.offset) :
    ∃ node ∈ (block.root parsing).nodes, ∃ kind name,
      symbol = shift block.offset (declare kind name none node (Utf8.encode block.code)) := by
  -- The symbols of the script are moved down by the offset of the block.
  obtain ⟨inner, found, same⟩ := List.mem_map.mp member
  obtain ⟨node, among, kind, name, named⟩ :=
    (block.declares parsing).exists_of_mem_undocumented found
  exact ⟨node, among, kind, name, by rw [← same, named]⟩

/-- As long as line numbers last, it does not matter whether the document is known. -/
theorem embeddedAnywhere_eq {parsing : Parsing} {block : Block}
    (small : ∀ symbol ∈ embedded parsing block.code block.offset, symbol.line < lineBound) :
    embeddedAnywhere parsing block.code block.offset
      = embedded parsing block.code block.offset := by
  -- Taking the rest changes no line number that is small enough.
  unfold embeddedAnywhere
  conv_rhs => rw [← List.map_id (embedded parsing block.code block.offset)]
  apply List.map_congr_left
  intro symbol member
  rw [Nat.mod_eq_of_lt (small symbol member)]
  rfl

end Rules

/-- A component file has the symbols of its blocks. -/
theorem Language.symbols_eq_blocks {language : Language} (component : language.isComponent = true)
    (parsing : Parsing) (source : Bytes) (root : Node) :
    language.symbols parsing source root = (language.blocks source root).flatMap
      fun block => Rules.embedded parsing block.code block.offset := by
  -- There are two kinds of component files.
  cases language with
  | svelte => exact Rules.svelteSymbols_eq parsing source root
  | astro => exact Rules.astroSymbols_eq parsing source
  | _ => cases component

/-- Any other file has symbols that declare nodes of its tree, in order. -/
theorem Language.symbols_declares {language : Language} (plain : language.isComponent = false)
    (parsing : Parsing) (source : Bytes) (root : Node) :
    Rules.Declares Text.IsTrimmed source root.nodes (language.symbols parsing source root) := by
  -- The rules of scripts and of Zig give no documentation, which is trimmed for want of any.
  have script := Rules.topLevel_declares (Rules.scriptRule_declares source) root
  cases language with
  | go => exact Rules.topLevel_declares (Rules.goRule_declares source) root
  | rust => exact Rules.topLevel_declares (Rules.rustRule_declares source) root
  | javascript | typescript | tsx => exact script.of_undocumented
  | python => exact Rules.topLevel_declares (Rules.pythonRule_declares source) root
  | elixir => exact Rules.elixirSymbols_declares source root
  | zig => exact (Rules.topLevel_declares (Rules.zigRule_declares source) root).of_undocumented
  | gleam => exact Rules.topLevel_declares (Rules.gleamRule_declares source) root
  | mojo => exact Rules.topLevel_declares (Rules.mojoRule_declares source) root
  | svelte | astro => cases plain
  | json | css | toml | markdown => exact .done _

/-- What a symbol of a file can be: one of a block, or the declaration of a node of the tree. -/
theorem Language.mem_symbols_cases {language : Language} {parsing : Parsing} {source : Bytes}
    {root : Node} {symbol : Symbol} (member : symbol ∈ language.symbols parsing source root) :
    (language.isComponent = true ∧ ∃ block ∈ language.blocks source root,
        symbol ∈ Rules.embedded parsing block.code block.offset)
      ∨ (language.isComponent = false ∧ ∃ node ∈ root.nodes, ∃ kind name doc,
        (∀ text ∈ doc, Text.IsTrimmed text)
          ∧ symbol = Rules.declare kind name doc node source) := by
  -- A component has the symbols of its blocks, and any other file those of its own tree.
  cases component : language.isComponent with
  | true =>
    rw [symbols_eq_blocks component] at member
    exact .inl ⟨rfl, List.mem_flatMap.mp member⟩
  | false =>
    have declares := symbols_declares component parsing source root
    exact .inr ⟨rfl, declares.exists_of_mem member⟩

end Surface
