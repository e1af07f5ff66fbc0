import Mathlib.Data.List.Basic
import Surface.Path
import Surface.Proofs.Text.Line

/-! Names joined to a path: they come apart again, and the path in front keeps its anchor. -/

namespace Surface

/-- A name that an entry can have: one segment, which stands for a name. -/
structure IsName (name : Bytes) : Prop where
  component : Component.ofSegment? name = some (.name name)
  whole : slash ∉ name

instance (name : Bytes) : Decidable (IsName name) :=
  decidable_of_iff (Component.ofSegment? name = some (.name name) ∧ slash ∉ name)
    ⟨fun both => ⟨both.1, both.2⟩, fun named => ⟨named.component, named.whole⟩⟩

/-- A segment stands for nothing, for the directory above, or for the name that it is. -/
theorem Component.ofSegment?_eq_some {segment : Bytes} {component : Component}
    (found : ofSegment? segment = some component) :
    component = .above ∧ segment = [dot, dot] ∨ component = .name segment := by
  unfold ofSegment? at found
  repeat' split at found
  all_goals simp_all

/-- What a path calls a name can be the name of an entry. -/
theorem isName_of_segment {bytes segment name : Bytes} (among : segment ∈ segmentsOf bytes)
    (found : Component.ofSegment? segment = some (.name name)) : IsName name := by
  rcases Component.ofSegment?_eq_some found with ⟨above, _⟩ | same
  · cases above
  · -- The segment is that name, and no slash is left in it.
    cases same
    exact ⟨found, Text.not_mem_of_mem_split among⟩

namespace IsName

variable {name : Bytes} (named : IsName name)

include named

/-- A name is not empty. -/
theorem ne_nil : name ≠ [] := by
  rintro rfl
  exact absurd named.component (by decide)

/-- A name stands for something. -/
theorem not_isVoid : Path.isVoid name = false := by
  simp [Path.isVoid, named.component]

/-- A name does not end in a slash, whatever stands in front of it. -/
theorem getLast?_append (front : Bytes) : (front ++ name).getLast? ≠ some slash := by
  -- The last byte is that of the name, which has no slash in it.
  intro ends
  obtain ⟨rest, byte, same⟩ := (List.eq_nil_or_concat' name).resolve_left named.ne_nil
  rw [same, ← List.append_assoc, List.getLast?_concat] at ends
  exact named.whole (by simp [same, Option.some.inj ends])

/-- A name does not start with a slash, whatever follows it. -/
theorem isAbsolute_append (rest : Bytes) : (⟨name ++ rest⟩ : Path).isAbsolute = false := by
  -- A slash in front would be in the name.
  cases name with
  | nil => exact absurd rfl named.ne_nil
  | cons byte name =>
    have other : byte ≠ slash := by
      rintro rfl
      exact named.whole List.mem_cons_self
    simp [Path.isAbsolute, other]

end IsName

section Segments

/-- A slash stands behind a name that others follow. -/
theorem joinSegments_cons (name : Bytes) {names : List Bytes} (more : names ≠ []) :
    joinSegments (name :: names) = name ++ slash :: joinSegments names :=
  Text.intercalate_cons slash name more

/-- Names that were put together come apart again. -/
theorem segmentsOf_joinSegments {names : List Bytes} (whole : ∀ name ∈ names, slash ∉ name)
    (present : names ≠ []) : segmentsOf (joinSegments names) = names :=
  Text.split_intercalate whole present

end Segments

namespace Path

/-- An absolute path starts with a slash. -/
theorem eq_of_isAbsolute {path : Path} (absolute : path.isAbsolute = true) :
    ∃ rest, path = ⟨slash :: rest⟩ := by
  obtain ⟨bytes⟩ := path
  cases bytes with
  | nil => simp [isAbsolute] at absolute
  | cons byte rest =>
    simp only [isAbsolute, List.head?_cons, beq_iff_eq, Option.some.injEq] at absolute
    exact ⟨rest, by rw [absolute]⟩

/-- An absolute path is anchored at the root. -/
theorem anchor_of_isAbsolute {path : Path} (absolute : path.isAbsolute = true) :
    path.anchor = some .root := by
  obtain ⟨rest, rfl⟩ := eq_of_isAbsolute absolute
  cases rest <;> simp [anchor]

/-- A path is anchored at nothing, at the dot in front, or at the root. -/
theorem anchor_cases (path : Path) :
    path.anchor = none ∨ path.anchor = some .here ∨ path.anchor = some .root := by
  unfold anchor
  repeat' split
  all_goals simp

/-- Only an absolute path is anchored at the root. -/
theorem isAbsolute_of_anchor {path : Path} (anchored : path.anchor = some .root) :
    path.isAbsolute = true := by
  -- Each shape of a path is looked at, and only a slash in front gives that anchor.
  obtain ⟨bytes⟩ := path
  unfold anchor at anchored
  unfold isAbsolute
  repeat' split at anchored
  all_goals simp_all

/-- A path that is anchored at the dot is that dot, or starts with it and a slash. -/
theorem eq_of_anchor_here {path : Path} (anchored : path.anchor = some .here) :
    path = ⟨[dot]⟩ ∨ ∃ rest, path = ⟨dot :: slash :: rest⟩ := by
  -- Each shape of a path is looked at, and two of them give that anchor.
  obtain ⟨bytes⟩ := path
  unfold anchor at anchored
  repeat' split at anchored
  all_goals simp_all

/-- Behind the first slash of an absolute path are its segments. -/
theorem body_slash (rest : Bytes) : (⟨slash :: rest⟩ : Path).body = segmentsOf rest := by
  have anchored : (⟨slash :: rest⟩ : Path).anchor = some .root := anchor_of_isAbsolute rfl
  simp [body, anchorBytes, anchored]

/-- A relative path goes behind a path, with a slash between them unless there is one already. -/
theorem join_of_relative {path next : Path} (relative : next.isAbsolute = false) :
    path.join next = if path.bytes = [] ∨ path.bytes.getLast? = some slash
      then ⟨path.bytes ++ next.bytes⟩ else ⟨path.bytes ++ slash :: next.bytes⟩ := by
  simp [join, relative]

/-- A path does not get shorter when another one is put behind it. -/
theorem length_le_join {path next : Path} (relative : next.isAbsolute = false) :
    path.bytes.length ≤ (path.join next).bytes.length := by
  rw [join_of_relative relative]
  split <;> simp

/-- What is joined to an absolute path is absolute. -/
theorem isAbsolute_join {path : Path} (absolute : path.isAbsolute = true) (next : Path) :
    (path.join next).isAbsolute = true := by
  obtain ⟨rest, rfl⟩ := eq_of_isAbsolute absolute
  -- Either the next path is absolute itself, or the slash in front stays where it is.
  unfold join
  split
  · assumption
  · split <;> rfl

section Names

variable {names : List Bytes} (valid : ∀ name ∈ names, IsName name)

include valid

/-- Names that were put together make no absolute path. -/
theorem isAbsolute_joinSegments : (⟨joinSegments names⟩ : Path).isAbsolute = false := by
  -- The first name is in front, and no name starts with a slash.
  cases names with
  | nil => rfl
  | cons name names =>
    have named := valid name List.mem_cons_self
    by_cases more : names = []
    · subst more
      simpa [joinSegments] using named.isAbsolute_append []
    · rw [joinSegments_cons name more]
      exact named.isAbsolute_append _

end Names

/-- Names that are joined one after the other are joined at once. -/
theorem join_joinSegments (path : Path) {name : Bytes} {names : List Bytes}
    (valid : ∀ other ∈ name :: names, IsName other) (more : names ≠ []) :
    path.join ⟨joinSegments (name :: names)⟩
      = (path.join ⟨name⟩).join ⟨joinSegments names⟩ := by
  have named := valid name List.mem_cons_self
  have first : (⟨name⟩ : Path).isAbsolute = false := by
    simpa using named.isAbsolute_append []
  have rest : (⟨joinSegments names⟩ : Path).isAbsolute = false :=
    isAbsolute_joinSegments fun other member => valid other (List.mem_cons_of_mem _ member)
  rw [join_of_relative (isAbsolute_joinSegments valid), join_of_relative rest,
    join_of_relative first, joinSegments_cons name more]
  -- However the path ends, it does not end in a slash any more with the name behind it.
  split
  · have unended := named.getLast?_append path.bytes
    simp only [List.append_eq_nil_iff, named.ne_nil, and_false, unended, or_self, if_false,
      List.append_assoc]
  · have unended := named.getLast?_append (path.bytes ++ [slash])
    rw [List.append_assoc, List.singleton_append] at unended
    simp only [List.append_eq_nil_iff, reduceCtorEq, and_false, unended, or_self, if_false,
      List.append_assoc, List.cons_append]

end Path

end Surface
