import Surface.Proofs.FileSystem.Lookup
import Surface.Walk.Basic

/-!
What a walk finds: exactly the files that every entry on the way to them lets it pass to, once
each, in the order of their names.
-/

namespace Surface

/-- The files that a walk finds in a directory with some entries. -/
def walkDirectory (fs : FileSystem) (includeTests : Bool) (scope : IgnoreScope) (path : Path)
    (entries : List (Name × Entry)) : List Found :=
  (sortByName (walkEntries fs includeTests scope path entries)).flatMap (·.2)

/-- The ignore files that a walk minds where names lead to from a directory. -/
def IgnoreScope.along (fs : FileSystem) (scope : IgnoreScope) (path : Path) :
    List Name → IgnoreScope
  | [] => scope
  | name :: names => along fs (scope.enter fs (path.join ⟨name⟩) name) (path.join ⟨name⟩) names

/-- Whether no ignore file tells a walk to leave out any entry on the way from a directory. -/
def IgnoreScope.Admits (fs : FileSystem) (scope : IgnoreScope) (path : Path)
    (names : List Name) : Prop :=
  ∀ above name below, names = above ++ name :: below →
    (scope.along fs path above).skips name (!below.isEmpty) = false

/-- The path of the directory that names lead to from the one at a path. -/
def Path.descend (path : Path) (names : List Name) : Path :=
  names.foldl (fun path name => path.join ⟨name⟩) path

/-- Names below where others lead to come to the same as all of them at once. -/
theorem Path.join_descend (path : Path) {above below : List Name}
    (valid : ∀ name ∈ above ++ below, IsName name) (more : below ≠ []) :
    (path.descend above).join ⟨joinSegments below⟩
      = path.join ⟨joinSegments (above ++ below)⟩ := by
  -- By induction on the names above, the first of which is joined in front of all others.
  induction above generalizing path with
  | nil => rfl
  | cons name above ih =>
    have further : above ++ below ≠ [] := by simp [more]
    rw [List.cons_append] at valid ⊢
    rw [join_joinSegments path valid further]
    exact ih _ fun other member => valid other (List.mem_cons_of_mem _ member)

/-- One by one, names lead to the path that they make together. -/
theorem Path.descend_eq_join (path : Path) {names : List Name}
    (valid : ∀ name ∈ names, IsName name) (present : names ≠ []) :
    path.descend names = path.join ⟨joinSegments names⟩ := by
  obtain ⟨above, name, rfl⟩ := (List.eq_nil_or_concat' names).resolve_left present
  rw [← join_descend path valid (List.cons_ne_nil name [])]
  simp [descend, joinSegments]

/-- A path in front of another is short enough if both together are. -/
theorem Path.fits_of_join {path next : Path} (relative : next.isAbsolute = false)
    (fits : (path.join next).fits = true) : path.fits = true := by
  have shorter : path.bytes.length ≤ (path.join next).bytes.length := length_le_join relative
  simp only [Path.fits, decide_eq_true_eq] at fits ⊢
  omega

/-- Whether the directory at a path and all further ones on the way to a file can be listed. -/
def FileSystem.ListsAlong (fs : FileSystem) (path : Path) (names : List Name) : Prop :=
  ∀ above below, names = above ++ below → below ≠ [] → fs.lists (path.descend above) = true

/--
Whether a walk passes all entries on the way from a directory to a file.

Every entry but the last is a directory that has to be listed.
-/
def Passes (fs : FileSystem) (includeTests : Bool) (scope : IgnoreScope) (path : Path) :
    List Name → Prop
  | [] => False
  | [name] => scope.skips name false = false ∧ skipsFile includeTests name = false
  | name :: names =>
    scope.skips name true = false ∧ skipsDirectory includeTests name = false
      ∧ fs.lists (path.join ⟨name⟩) = true
      ∧ Passes fs includeTests (scope.enter fs (path.join ⟨name⟩) name) (path.join ⟨name⟩) names

section Walk

variable {fs : FileSystem} {includeTests : Bool} {scope : IgnoreScope} {path : Path}

/-- A walk passes a directory on the way by listing it and going on from there. -/
theorem passes_cons {name : Name} {names : List Name} (more : names ≠ []) :
    Passes fs includeTests scope path (name :: names)
      ↔ scope.skips name true = false ∧ skipsDirectory includeTests name = false
        ∧ fs.lists (path.join ⟨name⟩) = true
        ∧ Passes fs includeTests (scope.enter fs (path.join ⟨name⟩) name) (path.join ⟨name⟩)
            names := by
  obtain ⟨next, rest, rfl⟩ := List.exists_cons_of_ne_nil more
  rfl

/-- Each entry of a directory is walked by itself. -/
theorem walkEntries_eq (entries : List (Name × Entry)) :
    walkEntries fs includeTests scope path entries
      = entries.map fun entry =>
          (entry.1, walkEntry fs includeTests scope path entry.1 entry.2) := by
  induction entries with
  | nil => rfl
  | cons entry entries ih => rw [walkEntries, ih, List.map_cons]

/-- Sorting leaves out nothing, so a file is found in a directory if it is found at an entry. -/
theorem mem_walkDirectory {entries : List (Name × Entry)} {found : Found} :
    found ∈ walkDirectory fs includeTests scope path entries
      ↔ ∃ entry ∈ entries, found ∈ walkEntry fs includeTests scope path entry.1 entry.2 := by
  simp [walkDirectory, sortByName, walkEntries_eq]

/-- In a directory that is not left out a walk finds what it finds in its entries. -/
theorem walkEntry_directory (name : Name) (entries : List (Name × Entry)) :
    walkEntry fs includeTests scope path name (.directory entries)
      = if scope.skips name true || skipsDirectory includeTests name
          || !fs.lists (path.join ⟨name⟩) then []
        else (walkDirectory fs includeTests (scope.enter fs (path.join ⟨name⟩) name)
          (path.join ⟨name⟩) entries).map (Found.below name) := by
  rw [walkEntry]
  rfl

/-- All that is found at an entry is found under its name. -/
theorem names_of_mem_walkEntry {name : Name} {entry : Entry} {found : Found}
    (member : found ∈ walkEntry fs includeTests scope path name entry) :
    ∃ rest, found.names = name :: rest := by
  -- A file is found under its one name, and in a directory each name is put in front.
  cases entry with
  | file file =>
    simp only [walkEntry] at member
    split at member
    · cases member
    · exact ⟨[], by rw [List.mem_singleton.mp member]⟩
  | link target => simp [walkEntry] at member
  | directory entries =>
    rw [walkEntry_directory] at member
    split at member
    · cases member
    · obtain ⟨inner, _, same⟩ := List.mem_map.mp member
      exact ⟨inner.names, by rw [← same, Found.below]⟩

/-- Nothing is found without a name. -/
theorem names_ne_nil_of_mem_walkDirectory {entries : List (Name × Entry)} {found : Found}
    (member : found ∈ walkDirectory fs includeTests scope path entries) : found.names ≠ [] := by
  obtain ⟨entry, _, held⟩ := mem_walkDirectory.mp member
  obtain ⟨rest, named⟩ := names_of_mem_walkEntry held
  simp [named]

/-- A file is found at its own name, if it is passed. -/
theorem mem_walkEntry_file {name : Name} {file : File} {found : Found} :
    found ∈ walkEntry fs includeTests scope path name (.file file)
      ↔ found = ⟨[name], file⟩ ∧ Passes fs includeTests scope path [name] := by
  simp only [walkEntry, Passes]
  cases scope.skips name false <;> cases skipsFile includeTests name <;> simp

/-- Under the name of a directory those files are found that are found in it. -/
theorem mem_walkEntry_directory {name : Name} {entries : List (Name × Entry)} {names : List Name}
    {file : File} :
    (⟨name :: names, file⟩ : Found) ∈ walkEntry fs includeTests scope path name (.directory entries)
      ↔ scope.skips name true = false ∧ skipsDirectory includeTests name = false
        ∧ fs.lists (path.join ⟨name⟩) = true
        ∧ (⟨names, file⟩ : Found) ∈ walkDirectory fs includeTests
            (scope.enter fs (path.join ⟨name⟩) name) (path.join ⟨name⟩) entries := by
  have below : ∀ inner : Found,
      inner.below name = ⟨name :: names, file⟩ ↔ inner = ⟨names, file⟩ := by
    intro inner
    obtain ⟨others, file⟩ := inner
    simp [Found.below]
  -- Whether the directory is passed is the same question on both sides.
  rw [walkEntry_directory]
  cases scope.skips name true <;> cases skipsDirectory includeTests name <;>
    cases fs.lists (path.join ⟨name⟩) <;> simp [List.mem_map, below]

/--
A walk finds in a sound directory the files that it passes all entries on the way to.

The names of a file lead to it and to nothing else, since they are distinct in each directory.
-/
theorem mem_walkDirectory_iff {entries : List (Name × Entry)}
    (sound : Entry.Sound (.directory entries)) {names : List Name} {file : File} :
    ⟨names, file⟩ ∈ walkDirectory fs includeTests scope path entries
      ↔ Entry.at? entries names = some (.file file)
        ∧ Passes fs includeTests scope path names := by
  induction names generalizing scope path entries with
  | nil =>
    -- Nothing is found without a name, and without one there is only the directory itself.
    constructor
    · intro member
      exact absurd rfl (names_ne_nil_of_mem_walkDirectory member)
    · rintro ⟨_, nowhere⟩
      exact nowhere.elim
  | cons name names ih =>
    cases sound with
    | directory distinct _ each =>
      -- Of all entries, only the one of the first name can have the file in it.
      have named : (⟨name :: names, file⟩ ∈ walkDirectory fs includeTests scope path entries)
          ↔ ∃ entry, entries.lookup name = some entry
            ∧ ⟨name :: names, file⟩ ∈ walkEntry fs includeTests scope path name entry := by
        rw [mem_walkDirectory]
        constructor
        · rintro ⟨⟨other, entry⟩, among, member⟩
          obtain ⟨rest, same⟩ := names_of_mem_walkEntry member
          cases same
          exact ⟨entry, lookup_of_mem distinct among, member⟩
        · rintro ⟨entry, held, member⟩
          exact ⟨(name, entry), mem_of_lookup held, member⟩
      rw [named, Entry.at?]
      cases held : entries.lookup name with
      | none => simp
      | some entry =>
        have kept := each _ (mem_of_lookup held)
        simp only [Option.some.injEq, exists_eq_left']
        cases entry with
        | file other =>
          rw [mem_walkEntry_file]
          cases names with
          | nil => simp [eq_comm]
          | cons next rest => simp
        | link target =>
          cases names <;> simp [walkEntry]
        | directory inner =>
          rw [mem_walkEntry_directory, ih kept]
          cases names with
          | nil => simp [Entry.at?]
          | cons next rest =>
            rw [passes_cons (List.cons_ne_nil next rest)]
            constructor
            · rintro ⟨kept, walked, listed, there, passes⟩
              exact ⟨there, kept, walked, listed, passes⟩
            · rintro ⟨there, kept, walked, listed, passes⟩
              exact ⟨kept, walked, listed, there, passes⟩

/-- On no way at all there is nothing to leave out. -/
theorem admits_nil : scope.Admits fs path [] := by
  intro above name below split
  simp at split

/-- Entry by entry, the first one is not left out and then those further down. -/
theorem admits_cons {name : Name} {names : List Name} :
    scope.Admits fs path (name :: names)
      ↔ scope.skips name (!names.isEmpty) = false
        ∧ (scope.enter fs (path.join ⟨name⟩) name).Admits fs (path.join ⟨name⟩) names := by
  constructor
  · -- What is above an entry further down has the first name in front.
    intro admits
    refine ⟨admits [] name names rfl, ?_⟩
    intro above other below split
    exact admits (name :: above) other below (by rw [split, List.cons_append])
  · rintro ⟨first, later⟩ above other below split
    -- The entry is the first one, or one further down.
    cases above with
    | nil =>
      cases split
      exact first
    | cons head above =>
      cases split
      exact later above other below rfl

/-- Directory by directory, the first one can be listed and then those further down. -/
theorem listsAlong_cons {name : Name} {names : List Name} :
    fs.ListsAlong path (name :: names)
      ↔ fs.lists path = true ∧ fs.ListsAlong (path.join ⟨name⟩) names := by
  -- What is above further down has the first name in front.
  constructor
  · intro listed
    refine ⟨listed [] (name :: names) rfl (by simp), ?_⟩
    intro above below split more
    exact listed (name :: above) below (by rw [split, List.cons_append]) more
  · rintro ⟨first, later⟩ above below split more
    cases above with
    | nil => exact first
    | cons head above =>
      cases split
      exact later above below rfl more

/--
With tests, a walk passes what no ignore rule and no excluded directory keeps from it, as long as it
can list all directories on the way.
-/
theorem lists_and_passes_iff {names : List Name} (present : names ≠ []) :
    fs.lists path = true ∧ Passes fs true scope path names
      ↔ scope.Admits fs path names
        ∧ (∀ name ∈ names.dropLast, isExcludedDirectory (Utf8.decode name) = false)
        ∧ fs.ListsAlong path names := by
  induction names generalizing scope path with
  | nil => exact absurd rfl present
  | cons name names ih =>
    rw [admits_cons, listsAlong_cons]
    by_cases more : names = []
    · -- The last name is that of the file, and with tests no file is passed by.
      subst more
      simp [Passes, skipsFile, IgnoreScope.Admits, FileSystem.ListsAlong, and_comm]
    · have directory : skipsDirectory true name = isExcludedDirectory (Utf8.decode name) := by
        simp [skipsDirectory]
      have inner : names.isEmpty = false := List.isEmpty_eq_false_iff.mpr more
      rw [passes_cons more, ih more, directory, List.dropLast_cons_of_ne_nil more,
        List.forall_mem_cons, inner]
      constructor
      · rintro ⟨listed, kept, walked, admits, excluded, further⟩
        exact ⟨⟨kept, admits⟩, ⟨walked, excluded⟩, listed, further⟩
      · rintro ⟨⟨kept, admits⟩, ⟨walked, excluded⟩, listed, further⟩
        exact ⟨listed, kept, walked, admits, excluded, further⟩

/-- What is in the order of names already stays as it is. -/
theorem sortByName_of_pairwise {found : List (Name × List Found)}
    (sorted : found.Pairwise fun earlier later => earlier.1 ≤ later.1) :
    sortByName found = found := by
  apply List.mergeSort_of_pairwise
  simpa using sorted

/-- Distinct names are sorted in rising order. -/
theorem pairwise_sortByName {found : List (Name × List Found)}
    (distinct : (found.map Prod.fst).Nodup) :
    (sortByName found).Pairwise fun earlier later => earlier.1 < later.1 := by
  have rising : (sortByName found).Pairwise fun earlier later =>
      decide (earlier.1 ≤ later.1) = true := by
    apply List.pairwise_mergeSort
    · intro first second third early late
      simp only [decide_eq_true_eq] at early late ⊢
      exact List.le_trans early late
    · intro first second
      simpa using List.le_total first.1 second.1
  -- Sorting only moves entries, so no name is there twice afterwards.
  have apart : (sortByName found).Pairwise fun earlier later => earlier.1 ≠ later.1 := by
    have kept : ((sortByName found).map Prod.fst).Nodup :=
      ((List.mergeSort_perm found _).map Prod.fst).nodup_iff.mpr distinct
    exact List.pairwise_map.mp kept
  refine (rising.and apart).imp ?_
  rintro earlier later ⟨le, ne⟩
  exact Std.lt_of_le_of_ne (of_decide_eq_true le) ne

/-- If what is found at each entry is in order, so is what is found in the whole directory. -/
theorem pairwise_walkDirectory_of_forall {entries : List (Name × Entry)}
    (distinct : (entries.map Prod.fst).Nodup)
    (each : ∀ entry ∈ entries,
      (walkEntry fs includeTests scope path entry.1 entry.2).Pairwise (·.names < ·.names)) :
    (walkDirectory fs includeTests scope path entries).Pairwise (·.names < ·.names) := by
  -- What is sorted are the names, each with what is found at the entry of that name.
  have found : ∀ entry ∈ sortByName (walkEntries fs includeTests scope path entries),
      ∃ inner, (entry.1, inner) ∈ entries
        ∧ entry.2 = walkEntry fs includeTests scope path entry.1 inner := by
    intro entry member
    rw [sortByName, List.mem_mergeSort, walkEntries_eq, List.mem_map] at member
    obtain ⟨⟨name, inner⟩, among, rfl⟩ := member
    exact ⟨inner, among, rfl⟩
  have sorted : (sortByName (walkEntries fs includeTests scope path entries)).Pairwise
      fun earlier later => earlier.1 < later.1 := by
    apply pairwise_sortByName
    rw [walkEntries_eq, List.map_map]
    exact distinct
  rw [walkDirectory, List.pairwise_flatMap]
  constructor
  · intro entry member
    obtain ⟨inner, among, same⟩ := found entry member
    rw [same]
    exact each _ among
  · -- Names of files at two entries differ at the first one already.
    refine List.Pairwise.imp_of_mem ?_ sorted
    intro earlier later first second less one member other among
    obtain ⟨inner, _, same⟩ := found earlier first
    obtain ⟨outer, _, equal⟩ := found later second
    rw [same] at member
    rw [equal] at among
    obtain ⟨names, named⟩ := names_of_mem_walkEntry member
    obtain ⟨others, titled⟩ := names_of_mem_walkEntry among
    rw [named, titled, List.cons_lt_cons_iff]
    exact .inl less

/-- What a walk finds at one entry is in the order of its names. -/
theorem pairwise_walkEntry {entry : Entry} (sound : entry.Sound) (name : Name) :
    (walkEntry fs includeTests scope path name entry).Pairwise (·.names < ·.names) := by
  induction sound generalizing scope path name with
  | file file =>
    rw [walkEntry]
    split
    · exact .nil
    · exact List.pairwise_singleton _ _
  | link target =>
    rw [walkEntry]
    exact .nil
  | directory distinct _ _ ih =>
    rw [walkEntry_directory]
    split
    · exact .nil
    · -- Below one directory, all names start alike.
      rw [List.pairwise_map]
      refine (pairwise_walkDirectory_of_forall distinct ?_).imp ?_
      · intro entry among
        exact ih entry among entry.1
      · intro earlier later less
        rw [Found.below, Found.below, List.cons_lt_cons_iff]
        exact .inr ⟨rfl, less⟩

/-- A walk finds files in the order of their names, and so none of them twice. -/
theorem pairwise_walkDirectory {entries : List (Name × Entry)}
    (sound : Entry.Sound (.directory entries)) :
    (walkDirectory fs includeTests scope path entries).Pairwise (·.names < ·.names) := by
  -- Each entry is sound, so what is found at it is in order.
  cases sound with
  | directory distinct _ each =>
    apply pairwise_walkDirectory_of_forall distinct
    intro entry among
    exact pairwise_walkEntry (each entry among) entry.1

end Walk

namespace FileSystem

variable {fs : FileSystem} {root : Path} {location : Location} {entries : List (Name × Entry)}

/-- A walk goes through the directory that its root leads to, if it can list it. -/
theorem walk_eq (resolved : fs.resolve? root = some location)
    (there : fs.at? location = some (.directory entries)) (includeTests : Bool) :
    fs.walk includeTests root = if fs.lists root then
      walkDirectory fs includeTests (.ofRoot fs root location) root entries else [] := by
  simp only [walk, resolved, there, Entry.entriesOf, walkDirectory]

/-- A walk finds what it passes all entries on the way to, and under the names that lead there. -/
theorem mem_walk_iff (sound : fs.Sound) (resolved : fs.resolve? root = some location)
    (there : fs.at? location = some (.directory entries)) {includeTests : Bool}
    {names : List Name} {file : File} :
    ⟨names, file⟩ ∈ fs.walk includeTests root
      ↔ fs.at? (location ++ names) = some (.file file)
        ∧ fs.lists root = true ∧ Passes fs includeTests (.ofRoot fs root location) root names := by
  -- The way to the file goes through the directory that is walked.
  have below : fs.at? (location ++ names) = Entry.at? entries names := Entry.at?_append there names
  rw [walk_eq resolved there]
  cases fs.lists root with
  | false => simp
  | true => simp [mem_walkDirectory_iff (sound.root.of_at? there), below]

/-- What is at a location of a sound file system is sound, as a directory. -/
theorem Sound.entriesOf_at? (sound : fs.Sound) (location : Location) :
    Entry.Sound (.directory (Entry.entriesOf (fs.at? location))) :=
  Entry.sound_entriesOf fun _ held => sound.root.of_at? held

/-- Whatever a path leads to, a walk from there finds files in the order of their names. -/
theorem pairwise_walk (sound : fs.Sound) (includeTests : Bool) (root : Path) :
    (fs.walk includeTests root).Pairwise (·.names < ·.names) := by
  -- Where nothing is listed, nothing is found.
  cases resolved : fs.resolve? root with
  | none => simp [walk, resolved]
  | some location =>
    simp only [walk, resolved]
    split
    · exact pairwise_walkDirectory (sound.entriesOf_at? location)
    · exact .nil

/-- Names that lead to a file below a directory are proper, and there is at least one. -/
theorem named_of_at?_append (sound : fs.Sound) (there : fs.at? location = some (.directory entries))
    {names : List Name} {file : File} (held : fs.at? (location ++ names) = some (.file file)) :
    Named names ∧ names ≠ [] := by
  -- The names lead from the directory to the file inside it.
  have below : Entry.at? entries names = some (.file file) := by
    rw [← Entry.at?_append there names]
    exact held
  refine ⟨(sound.root.of_at? there).isName_of_at? below, ?_⟩
  rintro rfl
  cases below

/-- A directory that can be listed and is on the way to a file in reach is listed by its path. -/
theorem lists_descend_iff (absolute : root.isAbsolute = true)
    (resolved : fs.resolve? root = some location) {names : List Name} (named : Named names)
    (there : fs.at? (location ++ names) = some (.directory entries)) :
    fs.lists (root.descend names) = true
      ↔ (root.descend names).fits = true ∧ fs.OpenAlong location names
        ∧ location ++ names ∉ fs.unreadable := by
  have directory : fs.isDirectoryAt (location ++ names) = true := isDirectoryAt_iff.mpr ⟨_, there⟩
  rw [lists_iff]
  by_cases top : names = []
  · -- The root itself leads to its location, and so it is short enough.
    subst top
    have fits : root.fits = true := by
      by_contra long
      simp [resolve?, long] at resolved
    simp [Path.descend, resolved, fits, OpenAlong] at directory ⊢
    simp [directory]
  · simp only [root.descend_eq_join named top,
      resolve?_join_iff absolute resolved named top there (by simp)]
    constructor
    · rintro ⟨_, ⟨fits, along, rfl⟩, _, readable⟩
      exact ⟨fits, along, readable⟩
    · rintro ⟨fits, along, readable⟩
      exact ⟨_, ⟨fits, along, rfl⟩, directory, readable⟩

/--
A file below a root can be come to and read if all directories on the way can be listed by their
paths and the file can be read by its own.
-/
theorem opens_iff (sound : fs.Sound) (absolute : root.isAbsolute = true)
    (resolved : fs.resolve? root = some location)
    (there : fs.at? location = some (.directory entries)) {names : List Name} {file : File}
    (held : fs.at? (location ++ names) = some (.file file)) {source : Bytes} :
    fs.Opens root location names ∧ file.bytes = source
      ↔ fs.ListsAlong root names
        ∧ fs.read? (root.join ⟨joinSegments names⟩) = some source := by
  obtain ⟨valid, present⟩ := named_of_at?_append sound there held
  have joined (target : Location) : fs.resolve? (root.join ⟨joinSegments names⟩) = some target
      ↔ _ := resolve?_join_iff absolute resolved valid present held (by simp)
  -- The names above are those of directories, since something is below them.
  have directory {above below : List Name} (split : names = above ++ below) (more : below ≠ []) :
      Named above ∧ ∃ inner, fs.at? (location ++ above) = some (.directory inner) := by
    subst split
    rw [← List.append_assoc] at held
    exact ⟨fun name member => valid name (List.mem_append_left _ member),
      Entry.at?_directory_of_append more held⟩
  constructor
  · rintro ⟨opens, rfl⟩
    have along : fs.OpenAlong location names :=
      fun above below split more => (opens.walkable above below split more).1
    refine ⟨?_, read?_eq_some_iff.mpr
      ⟨_, file, (joined _).mpr ⟨opens.fits, along, rfl⟩, held, opens.readable, rfl⟩⟩
    intro above below split more
    obtain ⟨named, inner, inside⟩ := directory split more
    refine (lists_descend_iff absolute resolved named inside).mpr
      ⟨?_, ?_, (opens.walkable above below split more).2⟩
    · subst split
      have later : Named below := fun name member => valid name (List.mem_append_right _ member)
      apply Path.fits_of_join (Path.isAbsolute_joinSegments later)
      rw [Path.join_descend root valid more]
      exact opens.fits
    · intro front back divided further
      exact along front (back ++ below) (by rw [split, divided, List.append_assoc]) (by simp [more])
  · rintro ⟨listed, read⟩
    obtain ⟨target, other, leads, among, readable, rfl⟩ := read?_eq_some_iff.mp read
    obtain ⟨fits, along, rfl⟩ := (joined target).mp leads
    rw [held] at among
    cases among
    refine ⟨⟨fits, ?_, readable⟩, rfl⟩
    intro above below split more
    obtain ⟨named, inner, inside⟩ := directory split more
    obtain ⟨_, _, allowed⟩ := (lists_descend_iff absolute resolved named inside).mp
      (listed above below split more)
    exact ⟨along above below split more, allowed⟩

end FileSystem

end Surface
