import Surface.Proofs.Path.Join

/-!
Paths below a root.
A path is joined to a root by its bytes and taken off again by its components. It is the same path
afterwards, however the root is spelled. What only starts with the bytes of a root is not below it.
-/

namespace Surface

/-- An ordinary name: no empty segment, neither of the two directories of dots, and no slash. -/
theorem isName_iff {name : Bytes} :
    IsName name ↔ name ≠ [] ∧ name ≠ [dot] ∧ name ≠ [dot, dot] ∧ slash ∉ name := by
  -- The three segments that are left out are those that stand for no name.
  constructor
  · intro named
    refine ⟨named.ne_nil, ?_, ?_, named.whole⟩
    · rintro rfl
      exact absurd named.component (by decide)
    · rintro rfl
      exact absurd named.component (by decide)
  · rintro ⟨present, other, another, whole⟩
    exact ⟨by simp [Component.ofSegment?, present, other, another], whole⟩

/-- An empty segment and a dot stand for nothing, and any other segment for something. -/
theorem Component.ofSegment?_eq_none_iff {segment : Bytes} :
    ofSegment? segment = none ↔ segment = [] ∨ segment = [dot] := by
  unfold ofSegment?
  repeat' split
  all_goals simp_all

namespace Path

section Anchors

variable {path next : Path}

/-- What is joined to a path leaves its anchor alone. -/
theorem anchor_join (present : path.bytes ≠ []) (relative : next.isAbsolute = false) :
    (path.join next).anchor = path.anchor := by
  obtain ⟨bytes⟩ := path
  rw [join_of_relative relative]
  -- The first two bytes decide, so only behind a single one does it matter what follows.
  match bytes with
  | [] => exact absurd rfl present
  | [byte] =>
    by_cases same : byte = slash
    · subst same
      cases rest : next.bytes <;> simp [anchor]
    · simp [anchor, same]
  | byte :: second :: rest => split <;> rfl

/-- What is joined to a path leaves the bytes of its anchor alone. -/
theorem anchorBytes_join (present : path.bytes ≠ []) (relative : next.isAbsolute = false) :
    (path.join next).anchorBytes = path.anchorBytes := by
  obtain ⟨byte, rest, first⟩ := List.exists_cons_of_ne_nil present
  -- The first byte of the path stays the first one.
  have kept : (path.join next).bytes.take 1 = path.bytes.take 1 := by
    rw [join_of_relative relative]
    split <;> simp [first]
  unfold anchorBytes
  rw [anchor_join present relative, kept]

/-- A path that is not empty is anchored, or its first segment stands for something. -/
theorem components_ne_nil (present : path.bytes ≠ []) : path.components ≠ [] := by
  intro nothing
  obtain ⟨free, voids⟩ := List.append_eq_nil_iff.mp nothing
  rw [Option.toList_eq_nil_iff] at free
  obtain ⟨more, segments⟩ := Text.split_eq_cons slash path.bytes
  have body : path.body = path.bytes.takeWhile (· != slash) :: more := by
    simp [body, anchorBytes, free, segmentsOf, segments]
  have void : Component.ofSegment? (path.bytes.takeWhile (· != slash)) = none :=
    List.filterMap_eq_nil_iff.mp voids _ (body ▸ List.mem_cons_self)
  obtain ⟨byte, rest, first⟩ := List.exists_cons_of_ne_nil present
  obtain ⟨bytes⟩ := path
  subst first
  by_cases same : byte = slash
  · simp [anchor_of_isAbsolute, isAbsolute, same] at free
  · -- The first segment is a dot then, with nothing behind it or a slash.
    rw [List.takeWhile_cons_of_pos (by simpa using same)] at void
    obtain ⟨rfl, alone⟩ : byte = dot ∧ rest.takeWhile (· != slash) = [] := by
      simpa using Component.ofSegment?_eq_none_iff.mp void
    cases rest with
    | nil => simp [anchor, same] at free
    | cons second rest => simp_all [anchor]

end Anchors

section Names

variable {names : List Bytes} (valid : ∀ name ∈ names, IsName name)

include valid

/-- Names do not start like an anchor. -/
theorem anchor_joinSegments (present : names ≠ []) :
    (⟨joinSegments names⟩ : Path).anchor = none := by
  have single := segmentsOf_joinSegments (fun name member => (valid name member).whole) present
  rcases anchor_cases ⟨joinSegments names⟩ with free | here | root
  · exact free
  · -- A dot in front would be the first of the names, and it is none.
    have first : [dot] ∈ names := by
      rw [← single]
      rcases eq_of_anchor_here here with same | ⟨rest, same⟩
      · rw [Path.mk.inj same]
        decide
      · rw [Path.mk.inj same, segmentsOf,
          show dot :: slash :: rest = [dot] ++ slash :: rest from rfl,
          Text.split_append_cons (by decide)]
        exact List.mem_cons_self
    exact absurd (valid [dot] first) (by decide)
  · have relative := isAbsolute_joinSegments valid
    rw [isAbsolute_of_anchor root] at relative
    cases relative

/-- No name stands for nothing, so nothing is cut off in front of names. -/
theorem dropWhile_isVoid : names.dropWhile isVoid = names := by
  cases names with
  | nil => rfl
  | cons name names => simp [(valid name List.mem_cons_self).not_isVoid]

/-- Names have nothing at their end that stands for nothing. -/
theorem dropVoidEnd_eq : dropVoidEnd names = names := by
  have back : names.reverse.dropWhile isVoid = names.reverse :=
    dropWhile_isVoid fun name member => valid name (List.mem_reverse.mp member)
  rw [dropVoidEnd, back, List.reverse_reverse]

/-- Segments that stand for nothing are cut off in front of names, and the names stay. -/
theorem trimmed_append {voids : List Bytes} (void : ∀ segment ∈ voids, isVoid segment = true) :
    below?.trimmed (voids ++ names) = ⟨joinSegments names⟩ := by
  rw [below?.trimmed, List.dropWhile_append_of_pos void, dropWhile_isVoid valid,
    dropVoidEnd_eq valid]

/-- However a root ends, names joined to it come behind its segments, but for an empty last one. -/
theorem body_join {root : Path} (given : root.bytes ≠ []) (present : names ≠ []) :
    ∃ segments, (root.join ⟨joinSegments names⟩).body = segments ++ names
      ∧ segments.filterMap Component.ofSegment?
        = root.body.filterMap Component.ofSegment? := by
  have relative := isAbsolute_joinSegments valid
  have single := segmentsOf_joinSegments (fun name member => (valid name member).whole) present
  have short : root.anchorBytes.length ≤ root.bytes.length := by
    unfold anchorBytes
    split
    · exact List.length_take_le' 1 root.bytes
    · exact Nat.zero_le _
  -- The anchor is the same, so the segments start at the same byte.
  rw [body, anchorBytes_join given relative, join_of_relative relative]
  unfold body
  generalize count : root.anchorBytes.length = start at short ⊢
  by_cases ends : root.bytes.getLast? = some slash
  · rw [if_pos (.inr ends), List.drop_append_of_le_length short]
    obtain empty | ⟨front, byte, whole⟩ := List.eq_nil_or_concat' (root.bytes.drop start)
    · exact ⟨[], by simp [empty, single], by simp [empty, segmentsOf, Component.ofSegment?]⟩
    · -- The slash at the end leaves an empty segment, in whose place the names are.
      obtain rfl : byte = slash := by
        rw [← List.take_append_drop start root.bytes, whole, ← List.append_assoc,
          List.getLast?_concat] at ends
        exact Option.some.inj ends
      refine ⟨segmentsOf front, ?_, ?_⟩
      · rw [whole, List.append_assoc, List.singleton_append, segmentsOf,
          Text.split_append_separator, ← segmentsOf, ← segmentsOf, single]
      · rw [whole, segmentsOf, segmentsOf, Text.split_append_separator, List.filterMap_append]
        simp [Component.ofSegment?]
  · refine ⟨segmentsOf (root.bytes.drop start), ?_, rfl⟩
    rw [if_neg (by simp [given, ends]), List.drop_append_of_le_length short, segmentsOf,
      Text.split_append_separator, ← segmentsOf, ← segmentsOf, single]

end Names

section Stripping

/-- A root's own segments are passed over, but for some that stand for nothing. -/
theorem stripBody_append (segments rest : List Bytes) :
    ∃ voids, stripBody (segments.filterMap Component.ofSegment?) (segments ++ rest)
        = some (voids ++ rest) ∧ ∀ segment ∈ voids, isVoid segment = true := by
  induction segments with
  | nil => exact ⟨[], by simp [stripBody], by simp⟩
  | cons segment segments ih =>
    obtain ⟨voids, stripped, void⟩ := ih
    cases found : Component.ofSegment? segment with
    | some component =>
      refine ⟨voids, ?_, void⟩
      simpa [List.filterMap_cons_some found, stripBody, found] using stripped
    | none =>
      rw [List.filterMap_cons_none found]
      cases left : segments.filterMap Component.ofSegment? with
      | nil =>
        -- No component is left to look for, so the search stops short of these segments.
        refine ⟨segment :: segments, by simp [stripBody], ?_⟩
        intro other member
        rcases List.mem_cons.mp member with same | later
        · simp [same, isVoid, found]
        · simpa [isVoid] using List.filterMap_eq_nil_iff.mp left other later
      | cons component more =>
        refine ⟨voids, ?_, void⟩
        rw [left] at stripped
        simpa [stripBody, found] using stripped

/-- Components come off the front of segments if what the segments stand for starts with them. -/
theorem isSome_stripBody_iff {components : List Component} {segments : List Bytes} :
    (stripBody components segments).isSome = true
      ↔ components <+: segments.filterMap Component.ofSegment? := by
  -- By the recursion of the search: a segment is passed, matched, or differs.
  induction components, segments using stripBody.induct with
  | case1 segments => simp [stripBody]
  | case2 component rest => simp [stripBody]
  | case3 component rest segment more void ih => simp [stripBody, void, ih]
  | case4 rest segment more found same ih =>
    simp [stripBody, same, ih]
  | case5 component rest segment more found same other =>
    simp [stripBody, same, other, List.cons_prefix_cons, Ne.symm other]

/-- A path lies below a root if and only if its components start with those of the root. -/
theorem isSome_below?_iff {path root : Path} :
    (path.below? root).isSome = true ↔ root.components <+: path.components := by
  -- The anchor is the first component, and the others come from the segments.
  unfold below?
  cases given : root.components with
  | nil => simp
  | cons component rest =>
    cases anchored : path.anchor with
    | none => simp [components, anchored, isSome_stripBody_iff]
    | some start =>
      by_cases same : start = component
      · simp [components, anchored, same, isSome_stripBody_iff]
      · simp [components, anchored, same, List.cons_prefix_cons, Ne.symm same]

end Stripping

/-- What names lead to from a root lies below that root, and the names are what is left of it. -/
theorem below?_join (root : Path) {names : List Bytes} (valid : ∀ name ∈ names, IsName name)
    (present : names ≠ []) :
    (root.join ⟨joinSegments names⟩).below? root = some ⟨joinSegments names⟩ := by
  have relative := isAbsolute_joinSegments valid
  by_cases given : root.bytes = []
  · -- Behind an empty root the names stand alone, and it has no component to take off.
    obtain rfl : root = ⟨[]⟩ := by rw [← given]
    have free := anchor_joinSegments valid present
    have single := segmentsOf_joinSegments (fun name member => (valid name member).whole) present
    have alone : (⟨[]⟩ : Path).join ⟨joinSegments names⟩ = ⟨joinSegments names⟩ := by
      simp [join_of_relative relative]
    have nothing : (⟨[]⟩ : Path).components = [] := rfl
    rw [alone, below?, free, nothing]
    simp [anchorBytes, free, body, single, dropVoidEnd_eq valid]
  · -- The joined path has the components of the root and then the names.
    obtain ⟨segments, joined, kept⟩ := body_join valid given present
    obtain ⟨voids, stripped, void⟩ := stripBody_append segments names
    rw [kept] at stripped
    rw [below?, anchor_join given relative, joined]
    cases anchored : root.anchor with
    | some start => simp [components, anchored, stripped, trimmed_append valid void]
    | none =>
      obtain ⟨component, rest, own⟩ := List.exists_cons_of_ne_nil (components_ne_nil given)
      have inside : root.body.filterMap Component.ofSegment? = component :: rest := by
        simpa [components, anchored] using own
      rw [inside] at stripped
      simp [own, stripped, trimmed_append valid void]

/--
Paths are shown relative to a root by their components.

What ordinary names lead to from a root is shown as these names, whatever bytes the root has and
whatever bytes the names have. A path whose components do not start with those of the root is shown
as it is.
-/
theorem displayBelow_by_components (root : Path) :
    (∀ names, names ≠ [] →
      (∀ name ∈ names, name ≠ [] ∧ name ≠ [dot] ∧ name ≠ [dot, dot] ∧ slash ∉ name) →
      (root.join ⟨joinSegments names⟩).displayBelow root
        = String.ofList (Utf8.decode (joinSegments names)))
    ∧ ∀ path : Path, ¬ root.components <+: path.components →
      path.displayBelow root = String.ofList (Utf8.decode path.bytes) := by
  constructor
  · intro names present ordinary
    have valid : ∀ name ∈ names, IsName name :=
      fun name member => isName_iff.mpr (ordinary name member)
    rw [displayBelow, below?_join root valid present]
    rfl
  · intro path apart
    have outside : path.below? root = none := by
      rw [← isSome_below?_iff] at apart
      simpa using apart
    -- What is not below the root is shown as it is.
    rw [displayBelow, outside]
    rfl

/-- A loosely spelled root is taken off whole, and one that only the bytes start with is not. -/
theorem displayBelow_by_components_loose :
    ((ofString "./p//./").join ⟨bytesOf "a/" ++ [0xFE]⟩).displayBelow (ofString "./p//./")
        = "a/\uFFFD"
      ∧ (ofString "/project2/x").displayBelow (ofString "/project") = "/project2/x" := by
  constructor
  · have shown := (displayBelow_by_components (ofString "./p//./")).1 [bytesOf "a", [0xFE]]
      (by decide) (by decide)
    exact shown
  · -- The first names differ, although one starts with the other.
    exact (displayBelow_by_components (ofString "/project")).2 (ofString "/project2/x") (by decide)

end Path

end Surface
