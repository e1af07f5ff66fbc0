import Mathlib.Data.List.Chain
import Mathlib.Tactic.MkIffOfInductiveProp
import Surface.Proofs.Text.Line
import Surface.Proofs.Text.Utf8
import Surface.Proofs.Tree.Walk

/-! Spans of nodes: which part of a source a node covers, and on which row it starts. -/

namespace Surface

open Text (lineFeed)

/-- The row of an offset: the number of line feeds in front of it. -/
def rowAt (source : Bytes) (offset : Nat) : Nat :=
  (source.take offset).count lineFeed

/-- Rows do not fall. -/
theorem rowAt_mono (source : Bytes) {low high : Nat} (le : low ≤ high) :
    rowAt source low ≤ rowAt source high := by
  -- What stands in front of the lower offset also stands in front of the higher one.
  have earlier : source.take low <+: source.take high := List.take_prefix_take_left le
  exact earlier.sublist.count_le lineFeed

/-- No row is past the last one. -/
theorem rowAt_le_count (source : Bytes) (offset : Nat) :
    rowAt source offset ≤ source.count lineFeed :=
  (List.take_sublist offset source).count_le lineFeed

/-- The bytes up to the end of a span are those in front of it and those in it. -/
theorem take_eq_append (source : Bytes) {start stop : Nat} (le : start ≤ stop) :
    source.take stop = source.take start ++ (source.drop start).take (stop - start) := by
  -- Subtraction on offsets is cut off at zero, which the bound rules out.
  have width : stop = start + (stop - start) := by omega
  conv_lhs => rw [width, List.take_add]

/-- A span ends as many rows below its start as it has line feeds. -/
theorem rowAt_stop (source : Bytes) {node : Node} (le : node.start ≤ node.stop) :
    rowAt source node.stop = rowAt source node.start + (node.bytes source).count lineFeed := by
  rw [rowAt, take_eq_append source le, List.count_append]
  rfl

/-- An offset between two characters: what stands in front of it is a text. -/
def IsBoundary (source : Bytes) (offset : Nat) : Prop :=
  (Utf8.decode? (source.take offset)).isSome

instance (source : Bytes) : DecidablePred (IsBoundary source) := fun offset =>
  inferInstanceAs (Decidable ((Utf8.decode? (source.take offset)).isSome = true))

/-- What stands in front of a part of a text ends between two characters. -/
theorem isBoundary_encode_append (front back : List Char) :
    IsBoundary (Utf8.encode (front ++ back)) (Utf8.encode front).length := by
  rw [IsBoundary, Utf8.encode_append, List.take_left, Option.isSome_iff_exists]
  exact ⟨front, Utf8.decode?_eq_some_iff.mpr rfl⟩

namespace Node

/-- A node that covers characters of a source and starts on the row it says. -/
@[mk_iff]
structure Covers (source : Bytes) (node : Node) : Prop where
  start_le_stop : node.start ≤ node.stop
  stop_le_length : node.stop ≤ source.length
  start_boundary : IsBoundary source node.start
  stop_boundary : IsBoundary source node.stop
  row_eq : node.row = rowAt source node.start

instance (source : Bytes) : DecidablePred (Covers source) := fun node =>
  decidable_of_iff _ (covers_iff source node).symm

/-- A node that covers characters has a text in the middle of the source's text. -/
theorem Covers.text_split {source : Bytes} {node : Node} (covers : node.Covers source)
    {text : List Char} (valid : Utf8.decode? source = some text) :
    ∃ front back, text = front ++ node.text source ++ back
      ∧ node.row = front.count '\n' ∧ Utf8.encode (node.text source) = node.bytes source := by
  -- In front of the node stands a text, and one stands in front of its end.
  obtain ⟨front, isFront⟩ := Option.isSome_iff_exists.mp covers.start_boundary
  obtain ⟨upTo, isUpTo⟩ := Option.isSome_iff_exists.mp covers.stop_boundary
  rw [Utf8.decode?_eq_some_iff] at isFront isUpTo valid
  have span := take_eq_append source covers.start_le_stop
  -- So the bytes between are those of a text.
  have joined : Utf8.encode front ++ node.bytes source = Utf8.encode upTo := by
    rw [isFront, isUpTo, span]
    rfl
  have inner : Utf8.encode (node.text source) = node.bytes source :=
    Utf8.encode_decode_of_append joined
  refine ⟨front, Utf8.decode (source.drop node.stop), ?_, ?_, inner⟩
  · calc text = Utf8.decode source := by rw [← valid, Utf8.decode_encode]
      _ = Utf8.decode (source.take node.stop ++ source.drop node.stop) := by
        rw [List.take_append_drop]
      _ = Utf8.decode (Utf8.encode (front ++ node.text source) ++ source.drop node.stop) := by
        rw [← isUpTo, ← joined, ← inner, Utf8.encode_append]
      _ = front ++ node.text source ++ Utf8.decode (source.drop node.stop) :=
        Utf8.decode_encode_append _ _
  · rw [covers.row_eq, rowAt, ← isFront, Utf8.count_encode]

/-- A node that has its children one after the other in it, and starts on the row it says. -/
@[mk_iff]
structure Ordered (source : Bytes) (node : Node) : Prop where
  start_le_stop : node.start ≤ node.stop
  inside : ∀ child ∈ node.children, node.start ≤ child.start ∧ child.stop ≤ node.stop
  successive : node.children.IsChain fun earlier later => earlier.stop ≤ later.start
  row_eq : node.row = rowAt source node.start

instance (source : Bytes) : DecidablePred (Ordered source) := fun node =>
  decidable_of_iff _ (ordered_iff source node).symm

/-- Siblings that follow one another each stand behind all earlier ones. -/
theorem pairwise_of_isChain {siblings : List Node}
    (spans : ∀ node ∈ siblings, node.start ≤ node.stop)
    (successive : siblings.IsChain fun earlier later => earlier.stop ≤ later.start) :
    siblings.Pairwise fun earlier later => earlier.stop ≤ later.start := by
  induction siblings with
  | nil => exact .nil
  | cons first rest ih =>
    have later := ih (fun node member => spans node (by simp [member]))
      (List.isChain_of_isChain_cons successive)
    refine List.pairwise_cons.mpr ⟨?_, later⟩
    intro node member
    -- The sibling just after the first one passes its place on to all that follow it.
    cases rest with
    | nil => simp at member
    | cons second more =>
      have next : first.stop ≤ second.start := (List.isChain_cons_cons.mp successive).1
      rcases List.mem_cons.mp member with same | further
      · rw [same]
        exact next
      · have span := spans second (by simp)
        have behind := List.rel_of_pairwise_cons later further
        omega

section Tree

variable {source : Bytes} {root : Node} (ordered : ∀ node ∈ root.nodes, node.Ordered source)

include ordered

/-- The tree of a child is ordered like the whole tree. -/
theorem ordered_child {child : Node} (member : child ∈ root.children) :
    ∀ node ∈ child.nodes, node.Ordered source :=
  fun node below => ordered node (mem_nodes_of_child member below)

/-- The nodes of an ordered tree lie in its root. -/
theorem nodes_within : ∀ node ∈ root.nodes, root.start ≤ node.start ∧ node.stop ≤ root.stop := by
  -- A child lies in its parent, and so does all that lies in the child.
  induction root using induction with
  | step root ih =>
    intro node member
    rcases mem_nodes.mp member with same | ⟨child, isChild, below⟩
    · rw [same]
      exact ⟨Nat.le_refl _, Nat.le_refl _⟩
    · have inner := ih child isChild (ordered_child ordered isChild) node below
      have outer := (ordered root root.self_mem_nodes).inside child isChild
      omega

/-- The children of an ordered root stand one behind the other. -/
theorem children_pairwise :
    root.children.Pairwise fun earlier later => earlier.stop ≤ later.start :=
  pairwise_of_isChain (fun _ member => (ordered _ (child_mem_nodes member)).start_le_stop)
    (ordered root root.self_mem_nodes).successive

/-- The nodes of an ordered tree start one after the other, in the order of the walk. -/
theorem nodes_pairwise_start :
    root.nodes.Pairwise fun earlier later => earlier.start ≤ later.start := by
  induction root using induction with
  | step root ih =>
    rw [nodes_eq, List.pairwise_cons, List.pairwise_flatMap]
    refine ⟨?_, fun child isChild => ih child isChild (ordered_child ordered isChild), ?_⟩
    · -- The root starts before everything in it.
      intro node below
      have member : node ∈ root.nodes := by
        rw [nodes_eq]
        exact List.mem_cons_of_mem _ below
      exact (nodes_within ordered node member).1
    · -- What lies in a child ends before the next child starts.
      refine (children_pairwise ordered).imp_of_mem ?_
      intro earlier later isEarlier isLater behind first inEarlier second inLater
      have front := nodes_within (ordered_child ordered isEarlier) first inEarlier
      have back := nodes_within (ordered_child ordered isLater) second inLater
      have span := (ordered first (mem_nodes_of_child isEarlier inEarlier)).start_le_stop
      omega

/-- The rows of an ordered tree do not fall, in the order of the walk. -/
theorem nodes_pairwise_row : root.nodes.Pairwise fun earlier later => earlier.row ≤ later.row := by
  -- A node that starts later is on no earlier row.
  refine (nodes_pairwise_start ordered).imp_of_mem ?_
  intro earlier later isEarlier isLater starts
  rw [(ordered earlier isEarlier).row_eq, (ordered later isLater).row_eq]
  exact rowAt_mono source starts

end Tree

end Node

end Surface
