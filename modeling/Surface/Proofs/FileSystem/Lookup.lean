import Surface.Proofs.FileSystem.Sound

/-!
Looking paths up, and reading what is there.
Two spellings with the same components lead to the same place if both lead anywhere, and a path
leads to the same place from the root as from the working directory. What is read below a directory
is the file that its names lead to.
-/

namespace Surface

/-- Segments, and the same with some of those left out that stand for nothing. -/
inductive Thinned : List Bytes → List Bytes → Prop where
  | nil : Thinned [] []
  | keep (segment : Bytes) {segments fewer : List Bytes} :
    Thinned segments fewer → Thinned (segment :: segments) (segment :: fewer)
  | drop {segment : Bytes} {segments fewer : List Bytes} :
    Component.ofSegment? segment = none → Thinned segments fewer →
    Thinned (segment :: segments) fewer

/-- The same segments in front of both do not matter. -/
theorem Thinned.append {segments fewer : List Bytes} (thinned : Thinned segments fewer)
    (front : List Bytes) : Thinned (front ++ segments) (front ++ fewer) := by
  induction front with
  | nil => exact thinned
  | cons segment front ih => exact .keep segment ih

namespace Component

/-- The segment that a component of the inside of a path is spelled as. -/
def segment : Component → Bytes
  | .name bytes => bytes
  | .above => [dot, dot]
  | _ => []

/-- A segment that stands for a component is the spelling of it. -/
theorem segment_of_ofSegment? {bytes : Bytes} {component : Component}
    (found : ofSegment? bytes = some component) : component.segment = bytes := by
  -- Only the directory above and names have a segment.
  rcases ofSegment?_eq_some found with ⟨above, spelled⟩ | same
  · rw [above, spelled]
    rfl
  · rw [same]
    rfl

/-- What segments stand for is never an anchor. -/
theorem not_anchor_of_mem {segments : List Bytes} {component : Component}
    (member : component ∈ segments.filterMap ofSegment?) :
    component ≠ .root ∧ component ≠ .here := by
  obtain ⟨segment, _, found⟩ := List.mem_filterMap.mp member
  rcases ofSegment?_eq_some found with ⟨above, _⟩ | same
  · simp [above]
  · simp [same]

end Component

/-- Segments can be thinned out down to the spelling of their components. -/
theorem thinned_segments (segments : List Bytes) :
    Thinned segments ((segments.filterMap Component.ofSegment?).map Component.segment) := by
  -- A segment that stands for nothing is left out, and any other one is its own spelling.
  induction segments with
  | nil => exact .nil
  | cons segment segments ih =>
    cases found : Component.ofSegment? segment with
    | none =>
      rw [List.filterMap_cons_none found]
      exact .drop found ih
    | some component =>
      rw [List.filterMap_cons_some found, List.map_cons, Component.segment_of_ofSegment? found]
      exact .keep segment ih

namespace Path

/-- The components of a path are its anchor and what all of its segments stand for. -/
theorem components_eq (path : Path) :
    path.components
      = path.anchor.toList ++ (segmentsOf path.bytes).filterMap Component.ofSegment? := by
  have void : Component.ofSegment? [] = none ∧ Component.ofSegment? [dot] = none := by decide
  unfold components
  congr 1
  rcases path.anchor_cases with free | here | root
  · simp [body, anchorBytes, free]
  · -- The dot is cut off as the anchor, and the segment that it is stands for nothing.
    rcases eq_of_anchor_here here with rfl | ⟨rest, rfl⟩
    · rfl
    · have single : slash ∉ [dot] := by decide
      have first : segmentsOf (dot :: slash :: rest) = [dot] :: segmentsOf rest :=
        Text.split_append_cons single rest
      have second : segmentsOf (slash :: rest) = [] :: segmentsOf rest :=
        Text.split_cons_self slash rest
      simp [body, anchorBytes, here, first, second, void]
  · obtain ⟨rest, rfl⟩ := eq_of_isAbsolute (isAbsolute_of_anchor root)
    simp [body_slash, segmentsOf, void]

/-- A path is absolute if the root is among its components. -/
theorem isAbsolute_iff {path : Path} : path.isAbsolute = true ↔ .root ∈ path.components := by
  -- The root can only be the anchor, since no segment stands for it.
  rw [components_eq]
  constructor
  · intro absolute
    simp [anchor_of_isAbsolute absolute]
  · intro member
    rcases List.mem_append.mp member with anchored | inside
    · exact isAbsolute_of_anchor (by simpa using anchored)
    · exact absurd rfl (Component.not_anchor_of_mem inside).1

/-- Paths with the same components have the same ones after the anchor. -/
theorem filterMap_eq_of_components {path other : Path}
    (same : path.components = other.components) :
    (segmentsOf path.bytes).filterMap Component.ofSegment?
      = (segmentsOf other.bytes).filterMap Component.ofSegment? := by
  rw [components_eq, components_eq] at same
  -- Nothing after an anchor could stand for one, so the anchors are the same as well.
  have alike : path.anchor = other.anchor := by
    have steps := @Component.not_anchor_of_mem (segmentsOf path.bytes)
    have others := @Component.not_anchor_of_mem (segmentsOf other.bytes)
    rcases path.anchor_cases with first | first | first <;>
      rcases other.anchor_cases with second | second | second <;>
      simp only [first, second] at same ⊢
    all_goals grind
  rw [alike] at same
  exact List.append_cancel_left same

end Path

namespace FileSystem

variable {fs : FileSystem}

/-- Fewer segments that stand for nothing lead to the same place. -/
theorem followWith_thinned {onLink : Location → List Bytes → Option Location}
    (behind : ∀ start {segments fewer location}, Thinned segments fewer →
      onLink start segments = some location → onLink start fewer = some location)
    {start location : Location} {segments fewer : List Bytes} (thinned : Thinned segments fewer)
    (followed : fs.followWith onLink start segments = some location) :
    fs.followWith onLink start fewer = some location := by
  induction thinned generalizing start with
  | nil => exact followed
  | drop void thinned ih =>
    simp only [followWith, void, Option.ite_none_right_eq_some] at followed
    exact ih followed.2
  | keep segment thinned ih =>
    simp only [followWith, Option.ite_none_right_eq_some] at followed ⊢
    refine ⟨followed.1, ?_⟩
    have onward := followed.2
    split at onward
    · split at onward
      · cases onward
      · -- The segments of a link's target come in front of those that were thinned out.
        exact behind _ (thinned.append _) onward
      · exact ih onward
    · exact ih onward
    · exact ih onward

/-- The same however many links are followed. -/
theorem follow_thinned (links : Nat) {start location : Location} {segments fewer : List Bytes}
    (thinned : Thinned segments fewer) (followed : fs.follow links start segments = some location) :
    fs.follow links start fewer = some location := by
  -- By induction on the links: a target is put in front of what is thinned already.
  induction links generalizing start location segments fewer with
  | zero => exact followWith_thinned (fun _ _ _ _ _ nothing => by cases nothing) thinned followed
  | succ links ih =>
    refine followWith_thinned ?_ thinned followed
    intro start segments fewer location less found
    exact ih less found

/-- Where a path leads by its components. -/
theorem follow_of_resolve? {path : Path} {location : Location}
    (found : fs.resolve? path = some location) :
    fs.follow maxLinks (if path.isAbsolute then [] else fs.workingDirectory)
      (((segmentsOf path.bytes).filterMap Component.ofSegment?).map Component.segment)
      = some location := by
  -- What the segments stand for is what they can be thinned out to.
  unfold resolve? at found
  split at found
  · cases found
  · exact follow_thinned maxLinks (thinned_segments _) found

/-- Two spellings of a path that both lead somewhere lead to the same place. -/
theorem resolve?_eq_of_components {path other : Path} (same : path.components = other.components)
    {location there : Location} (found : fs.resolve? path = some location)
    (also : fs.resolve? other = some there) : location = there := by
  -- Both paths start at the same place and lead on by the same segments.
  have start : path.isAbsolute = other.isAbsolute := by
    rw [Bool.eq_iff_iff, Path.isAbsolute_iff, Path.isAbsolute_iff, same]
  have one := follow_of_resolve? found
  have two := follow_of_resolve? also
  rw [start, Path.filterMap_eq_of_components same, two] at one
  exact (Option.some.inj one).symm

/-- Two spellings of a path that both lead to a file lead to the same file. -/
theorem file?_eq_of_components {path other : Path} (same : path.components = other.components)
    {file another : File} (found : fs.file? path = some file)
    (also : fs.file? other = some another) : file = another := by
  -- A file is found at the location that its path leads to.
  have located : ∀ {path file}, fs.file? path = some file →
      ∃ location, fs.resolve? path = some location ∧ fs.at? location = some (.file file) := by
    intro path file held
    unfold file? at held
    split at held
    · rename_i inner leads
      cases held
      exact Option.bind_eq_some_iff.mp leads
    · cases held
  obtain ⟨location, leads, held⟩ := located found
  obtain ⟨there, alsoLeads, alsoHeld⟩ := located also
  rw [resolve?_eq_of_components same leads alsoLeads, alsoHeld] at held
  cases held
  rfl

/-- A directory is at a location if its entries are. -/
theorem isDirectoryAt_iff {location : Location} :
    fs.isDirectoryAt location = true ↔ ∃ entries, fs.at? location = some (.directory entries) := by
  unfold isDirectoryAt
  split
  · simp_all
  · rename_i other
    simpa using other

section Here

/--
The absolute path that a path stands for in the working directory.

Where the system cannot tell that directory, a relative path stands for the empty one, which leads
nowhere.
-/
def fromHere (fs : FileSystem) (path : Path) : Path :=
  if path.isAbsolute then path
  else if fs.workingFault?.isSome then ⟨[]⟩
  else fs.workingPath.join path

/-- Whether a path leads to something from the working directory. -/
def reaches (fs : FileSystem) (path : Path) : Bool :=
  fs.pathExists (fs.fromHere path)

/-- A segment that stands for nothing leads back to where it starts. -/
theorem follow_void {location : Location} (there : fs.leadsOn location = true)
    {segment : Bytes} (void : Component.ofSegment? segment = none) (links : Nat)
    (rest : List Bytes) :
    fs.follow links location (segment :: rest) = fs.follow links location rest := by
  cases links <;> simp [follow, followWith, there, void]

/-- So do any number of such segments. -/
theorem follow_voids {location : Location} (there : fs.leadsOn location = true) (links : Nat)
    {segments : List Bytes} (void : ∀ segment ∈ segments, Component.ofSegment? segment = none) :
    fs.follow links location segments = some location := by
  -- By induction over the segments, each of which is passed without a move.
  induction segments with
  | nil => cases links <;> rfl
  | cons segment segments ih =>
    rw [follow_void there (void segment List.mem_cons_self)]
    exact ih fun other member => void other (List.mem_cons_of_mem _ member)

/-- What a path stands for is absolute if it leads anywhere. -/
theorem isAbsolute_fromHere {path : Path} {location : Location}
    (resolved : fs.resolve? (fs.fromHere path) = some location) :
    (fs.fromHere path).isAbsolute = true := by
  -- The empty path, which is not absolute, leads nowhere.
  unfold fromHere at resolved ⊢
  split
  · assumption
  · rename_i relative
    rw [if_neg relative] at resolved
    split at resolved
    · cases resolved
    · rename_i told
      rw [if_neg told]
      exact Path.isAbsolute_join rfl path

end Here

section Below

/-- From where segments lead to, more segments lead on with the links that are left. -/
theorem followWith_append {onLink : Location → List Bytes → Option Location} {links : Nat}
    (same : fs.follow links = fs.followWith onLink)
    (behind : ∀ {start segments location}, onLink start segments = some location →
      ∃ left, ∀ rest, onLink start (segments ++ rest) = fs.follow left location rest)
    {start location : Location} {segments : List Bytes}
    (followed : fs.followWith onLink start segments = some location) :
    ∃ left, ∀ rest,
      fs.followWith onLink start (segments ++ rest) = fs.follow left location rest := by
  induction segments generalizing start with
  | nil =>
    cases followed
    exact ⟨links, fun rest => by rw [same]; rfl⟩
  | cons segment segments ih =>
    simp only [List.cons_append, followWith, Option.ite_none_right_eq_some] at followed ⊢
    simp only [followed.1, if_true]
    have onward := followed.2
    split at onward
    · split at onward
      · cases onward
      · -- The target of a link comes in front of all that is left, the further segments included.
        obtain ⟨left, rest⟩ := behind onward
        exact ⟨left, fun more => by rw [← List.append_assoc]; exact rest more⟩
      · exact ih onward
    · exact ih onward
    · exact ih onward

/-- The same for every number of links. -/
theorem follow_append (links : Nat) {start location : Location} {segments : List Bytes}
    (followed : fs.follow links start segments = some location) :
    ∃ left, ∀ rest, fs.follow links start (segments ++ rest) = fs.follow left location rest := by
  -- By induction on the links, each of which may be used up by the first segments.
  induction links generalizing start location segments with
  | zero =>
    have none : fs.follow 0 = fs.followWith fun _ _ => none := rfl
    exact followWith_append none (fun nothing => by cases nothing) followed
  | succ links ih =>
    have one : fs.follow (links + 1) = fs.followWith (fs.follow links) := rfl
    exact followWith_append one ih followed

/-- Slashes behind a path do not change where it leads, as long as a directory is there. -/
theorem resolve?_append_slashes {bytes : Bytes} {location : Location}
    (found : fs.resolve? ⟨bytes⟩ = some location) (there : fs.leadsOn location = true) {count : Nat}
    (fits : (⟨bytes ++ List.replicate count slash⟩ : Path).fits = true) :
    fs.resolve? ⟨bytes ++ List.replicate count slash⟩ = some location := by
  simp only [resolve?, Option.ite_none_left_eq_some] at found
  have present : bytes ≠ [] := by
    rintro rfl
    simp at found
  have start : (⟨bytes ++ List.replicate count slash⟩ : Path).isAbsolute
      = (⟨bytes⟩ : Path).isAbsolute := by
    obtain ⟨byte, rest, rfl⟩ := List.exists_cons_of_ne_nil present
    rfl
  -- The segments behind the path are empty, and they are followed from where it leads.
  have slashes (count : Nat) :
      segmentsOf (List.replicate count slash) = [] :: List.replicate count [] := by
    induction count with
    | zero => rfl
    | succ count ih =>
      rw [List.replicate_succ, segmentsOf, Text.split_cons_self, ← segmentsOf, ih]
      rfl
  have segments : segmentsOf (bytes ++ List.replicate count slash)
      = segmentsOf bytes ++ List.replicate count [] := by
    cases count with
    | zero => simp
    | succ count =>
      rw [List.replicate_succ, segmentsOf, Text.split_append_separator, ← segmentsOf, ← segmentsOf,
        slashes]
      rfl
  obtain ⟨left, onward⟩ := follow_append maxLinks found.2
  have void : ∀ segment ∈ List.replicate count [], Component.ofSegment? segment = none := by
    intro segment member
    rw [List.eq_of_mem_replicate member]
    rfl
  simp only [resolve?, fits, start, segments, onward, follow_voids there left void]
  simp [present]

/-- Whether paths lead on from a location and from each directory on the way that names lead. -/
def OpenAlong (fs : FileSystem) (location : Location) (names : List Name) : Prop :=
  ∀ above below, names = above ++ below → below ≠ [] → fs.leadsOn (location ++ above) = true

/-- Name by name, paths lead on from the location and then from further down. -/
theorem openAlong_cons {location : Location} {name : Name} {names : List Name} :
    fs.OpenAlong location (name :: names)
      ↔ fs.leadsOn location = true ∧ fs.OpenAlong (location ++ [name]) names := by
  -- What is above further down has the first name in front.
  constructor
  · intro along
    refine ⟨by simpa using along [] (name :: names) rfl (by simp), ?_⟩
    intro above below split more
    simpa using along (name :: above) below (by rw [split, List.cons_append]) more
  · rintro ⟨first, later⟩ above below split more
    cases above with
    | nil => simpa using first
    | cons head above =>
      cases split
      simpa using later above below rfl more

/-- Names of what is no link lead to it as long as the directories on the way are open. -/
theorem followWith_names_iff {onLink : Location → List Bytes → Option Location}
    {location there : Location} {names : List Name} (named : Named names) {entry : Entry}
    (held : fs.at? (location ++ names) = some entry) (unlinked : ∀ target, entry ≠ .link target) :
    fs.followWith onLink location names = some there
      ↔ fs.OpenAlong location names ∧ location ++ names = there := by
  induction names generalizing location with
  | nil => simp [followWith, OpenAlong]
  | cons name names ih =>
    have onward : location ++ name :: names = location ++ [name] ++ names := by simp
    have rest : Named names := fun other member => named other (List.mem_cons_of_mem _ member)
    rw [onward] at held ⊢
    rw [followWith, Option.ite_none_right_eq_some, openAlong_cons, and_assoc, ← ih rest held,
      (named name List.mem_cons_self).component]
    -- The first name is that of a directory, or it is the last one.
    obtain ⟨first, next, plain⟩ : ∃ first, fs.at? (location ++ [name]) = some first
        ∧ ∀ target, first ≠ .link target := by
      by_cases last : names = []
      · subst last
        exact ⟨entry, by simpa using held, unlinked⟩
      · obtain ⟨inner, there⟩ := Entry.at?_directory_of_append last held
        exact ⟨_, there, by simp⟩
    simp only [next]

/-- The segments of names below a root come behind segments that lead to where the root does. -/
theorem exists_segments_join {root : Path} (absolute : root.isAbsolute = true) {links : Nat}
    {location : Location} (followed : fs.follow links [] (segmentsOf root.bytes) = some location)
    {names : List Name} (named : Named names) (present : names ≠ []) :
    ∃ front, fs.follow links [] front = some location
      ∧ segmentsOf (root.join ⟨joinSegments names⟩).bytes = front ++ names := by
  have apart := segmentsOf_joinSegments (fun name member => (named name member).whole) present
  have filled : root.bytes ≠ [] := by
    obtain ⟨rest, rfl⟩ := Path.eq_of_isAbsolute absolute
    simp
  rw [Path.join_of_relative (Path.isAbsolute_joinSegments named)]
  by_cases ended : root.bytes.getLast? = some slash
  · -- The slash at the end of the root makes an empty segment, which can be left out.
    obtain ⟨rest, whole⟩ := List.getLast?_eq_some_iff.mp ended
    have closing : segmentsOf root.bytes = segmentsOf rest ++ [[]] := by
      rw [whole, segmentsOf, Text.split_append_separator]
      rfl
    rw [closing] at followed
    have thinned : Thinned (segmentsOf rest ++ [[]]) (segmentsOf rest ++ []) :=
      Thinned.append (.drop rfl .nil) _
    refine ⟨segmentsOf rest, ?_, ?_⟩
    · simpa using follow_thinned links thinned followed
    · rw [if_pos (.inr ended), whole, List.append_assoc]
      exact (Text.split_append_separator _ _ _).trans (congrArg _ apart)
  · refine ⟨segmentsOf root.bytes, followed, ?_⟩
    rw [if_neg (not_or.mpr ⟨filled, ended⟩)]
    exact (Text.split_append_separator _ _ _).trans (congrArg _ apart)

/--
A path below a root leads past no link to the entry of its names.

It leads nowhere else, and there only if it is short enough and the directories on the way are open.
-/
theorem resolve?_join_iff {root : Path} (absolute : root.isAbsolute = true)
    {location there : Location} (resolved : fs.resolve? root = some location) {names : List Name}
    (named : Named names) (present : names ≠ []) {entry : Entry}
    (held : fs.at? (location ++ names) = some entry) (unlinked : ∀ target, entry ≠ .link target) :
    fs.resolve? (root.join ⟨joinSegments names⟩) = some there
      ↔ (root.join ⟨joinSegments names⟩).fits = true ∧ fs.OpenAlong location names
        ∧ location ++ names = there := by
  -- Both paths start at the root of the file system.
  have joined := Path.isAbsolute_join absolute ⟨joinSegments names⟩
  have filled : (root.join ⟨joinSegments names⟩).bytes ≠ [] := by
    obtain ⟨rest, same⟩ := Path.eq_of_isAbsolute joined
    simp [same]
  simp only [resolve?, absolute, if_true, Option.ite_none_left_eq_some] at resolved
  obtain ⟨front, leads, same⟩ := exists_segments_join absolute resolved.2 named present
  obtain ⟨left, onward⟩ := follow_append maxLinks leads
  have followed : fs.follow left location names = some there
      ↔ fs.OpenAlong location names ∧ location ++ names = there := by
    cases left with
    | zero => exact followWith_names_iff named held unlinked
    | succ left => exact followWith_names_iff named held unlinked
  rw [← followed, ← onward, ← same]
  simp [resolve?, joined, filled]

end Below

section Access

variable {path : Path} {source : Bytes}

/-- What is read at a path are the bytes of a file that the path leads to. -/
theorem read?_eq_some_iff :
    fs.read? path = some source ↔ ∃ location file, fs.resolve? path = some location
      ∧ fs.at? location = some (.file file) ∧ location ∉ fs.unreadable ∧ file.bytes = source := by
  unfold read?
  -- Reading fails at three points: no location, no file there, or no access to it.
  cases fs.resolve? path with
  | none => simp
  | some location =>
    simp only [Option.bind_eq_bind, Option.bind_some, Option.some.injEq]
    split
    · rename_i file held
      simp [held]
    · rename_i other
      constructor
      · intro nothing
        cases nothing
      · rintro ⟨_, file, rfl, held, _⟩
        exact absurd held (other file)

/-- The size of a file that can be read is the number of its bytes. -/
theorem fileSize_of_read? (read : fs.read? path = some source) :
    fs.fileSize path = source.length := by
  obtain ⟨location, file, resolved, held, _, rfl⟩ := read?_eq_some_iff.mp read
  simp [fileSize, file?, find?, resolved, held]

/-- A directory can be listed if a path leads to it and it is not one of those that cannot. -/
theorem lists_iff : fs.lists path = true ↔ ∃ location, fs.resolve? path = some location
    ∧ fs.isDirectoryAt location = true ∧ location ∉ fs.unreadable := by
  -- Without a location there is nothing to be listed.
  unfold lists
  cases fs.resolve? path with
  | none => simp
  | some location => simp

/--
Whether a file below a root can be come to and read: its path is short enough, every directory from
that of the root on can be listed and leads on, and the file itself is readable.
-/
structure Opens (fs : FileSystem) (root : Path) (location : Location) (names : List Name) :
    Prop where
  fits : (root.join ⟨joinSegments names⟩).fits = true
  walkable : ∀ above below, names = above ++ below → below ≠ [] →
    fs.leadsOn (location ++ above) = true ∧ location ++ above ∉ fs.unreadable
  readable : location ++ names ∉ fs.unreadable

end Access

end FileSystem

end Surface
