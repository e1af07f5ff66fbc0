import Surface.Proofs.Path.Join
import Surface.Proofs.Names
import Surface.Snapshot

/-!
Sound file systems: each directory tells its entries apart by proper names.
The file system of every snapshot is sound, since each way of changing one keeps it so.
-/

namespace Surface

namespace Entry

/-- An entry in which all names are proper names, and no two in one directory are the same. -/
inductive Sound : Entry → Prop where
  | file (file : File) : Sound (.file file)
  | link (target : Path) : Sound (.link target)
  | directory {entries : List (Name × Entry)} : (entries.map Prod.fst).Nodup →
    (∀ entry ∈ entries, IsName entry.1) → (∀ entry ∈ entries, Sound entry.2) →
    Sound (.directory entries)

/-- A directory without entries is sound. -/
theorem sound_empty : Sound (.directory []) :=
  .directory List.nodup_nil (by simp) (by simp)

/-- A directory with one sound entry under a proper name is sound. -/
theorem Sound.singleton {name : Name} (proper : IsName name) {entry : Entry} (inner : entry.Sound) :
    Sound (.directory [(name, entry)]) :=
  .directory (by simp) (by simpa using proper) (by simpa using inner)

variable {entries : List (Name × Entry)} {name : Name} {entry : Entry}

section At

variable {location : Location}

/-- From a directory on the way, the rest of the way leads to the same entry. -/
theorem at?_append {inner : List (Name × Entry)}
    (found : at? entries location = some (.directory inner)) (names : List Name) :
    at? entries (location ++ names) = at? inner names := by
  -- The way to the directory is shortened from the front, and so is the one through it.
  induction location generalizing entries with
  | nil =>
    cases found
    rfl
  | cons name location ih =>
    simp only [List.cons_append, at?] at found ⊢
    cases held : entries.lookup name with
    | none => simp [held] at found
    | some entry =>
      rw [held] at found
      cases entry with
      | directory below => exact ih found
      | file file => simp at found
      | link target => simp at found

/-- On the way to something there are only directories. -/
theorem at?_directory_of_append {names : List Name} (more : names ≠ [])
    (found : at? entries (location ++ names) = some entry) :
    ∃ inner, at? entries location = some (.directory inner) := by
  induction location generalizing entries with
  | nil => exact ⟨entries, rfl⟩
  | cons name location ih =>
    simp only [List.cons_append, at?] at found ⊢
    cases held : entries.lookup name with
    | none => simp [held] at found
    | some entry =>
      rw [held] at found
      -- Only a directory has something behind it.
      cases entry with
      | directory below => exact ih found
      | file file => simp [more] at found
      | link target => simp [more] at found

/-- What is found in a sound directory is sound. -/
theorem Sound.of_at? (sound : Sound (.directory entries))
    (found : at? entries location = some entry) : entry.Sound := by
  induction location generalizing entries with
  | nil =>
    cases found
    exact sound
  | cons name location ih =>
    cases sound with
    | directory distinct names each =>
      simp only [at?] at found
      cases held : entries.lookup name with
      | none => simp [held] at found
      | some inner =>
        have kept := each _ (mem_of_lookup held)
        rw [held] at found
        cases inner with
        | directory below => exact ih kept found
        -- Anything else ends the way, so it is what was found.
        | file file =>
          simp only [Option.ite_none_right_eq_some, Option.some.injEq] at found
          exact found.2 ▸ kept
        | link target =>
          simp only [Option.ite_none_right_eq_some, Option.some.injEq] at found
          exact found.2 ▸ kept

/-- Only proper names lead to something in a sound directory. -/
theorem Sound.isName_of_at? (sound : Sound (.directory entries))
    (found : at? entries location = some entry) : ∀ name ∈ location, IsName name := by
  induction location generalizing entries with
  | nil => simp
  | cons first location ih =>
    cases sound with
    | directory distinct names each =>
      simp only [at?] at found
      cases held : entries.lookup first with
      | none => simp [held] at found
      | some inner =>
        have among := mem_of_lookup held
        rw [List.forall_mem_cons]
        refine ⟨names _ among, ?_⟩
        rw [held] at found
        cases inner with
        | directory below => exact ih (each _ among) found
        -- Anything else ends the way, so no name is left.
        | file file => simp_all
        | link target => simp_all

end At

section Changes

/-- After an assignment there is the new entry, and beside it only what was there before. -/
theorem mem_assign {other : Name × Entry} (member : other ∈ assign entries name entry) :
    other = (name, entry) ∨ other ∈ entries := by
  induction entries with
  | nil => exact .inl (List.mem_singleton.mp member)
  | cons first rest ih =>
    obtain ⟨key, old⟩ := first
    simp only [assign] at member
    -- The entry takes the place of the first one, or that one stays and the rest decides.
    split at member
    · rcases List.mem_cons.mp member with same | later
      · exact .inl same
      · exact .inr (List.mem_cons_of_mem _ later)
    · rcases List.mem_cons.mp member with same | later
      · exact .inr (by simp [same])
      · exact (ih later).imp_right (List.mem_cons_of_mem _)

/-- An assignment keeps the names as they are, or adds one that was not there. -/
theorem nodup_assign (distinct : (entries.map Prod.fst).Nodup) :
    ((assign entries name entry).map Prod.fst).Nodup := by
  induction entries with
  | nil => simp [assign]
  | cons first rest ih =>
    obtain ⟨key, old⟩ := first
    simp only [List.map_cons, List.nodup_cons] at distinct
    simp only [assign]
    split
    · rename_i same
      subst same
      simpa using distinct
    · rename_i differs
      simp only [List.map_cons, List.nodup_cons]
      refine ⟨?_, ih distinct.2⟩
      intro again
      obtain ⟨other, among, same⟩ := List.mem_map.mp again
      -- The assigned name is another one, and of the rest none is the same.
      rcases mem_assign among with new | later
      · exact differs (by rw [← same, new])
      · exact distinct.1 (List.mem_map.mpr ⟨other, later, same⟩)

/-- A sound entry under a proper name leaves a directory sound. -/
theorem Sound.assign (sound : Sound (.directory entries)) (named : IsName name)
    (inner : entry.Sound) : Sound (.directory (assign entries name entry)) := by
  cases sound with
  | directory distinct names each =>
    -- Each entry afterwards is the assigned one or was there before.
    refine .directory (nodup_assign distinct) ?_ ?_
    · intro other member
      rcases mem_assign member with same | old
      · rw [same]; exact named
      · exact names other old
    · intro other member
      rcases mem_assign member with same | old
      · rw [same]; exact inner
      · exact each other old

/-- What is below an entry, as a directory, is sound even if there is no directory. -/
theorem sound_entriesOf {entry : Option Entry} (sound : ∀ held, entry = some held → held.Sound) :
    Sound (.directory (entriesOf entry)) := by
  -- Anything but a directory has no entries.
  cases entry with
  | none => exact sound_empty
  | some held =>
    cases held with
    | directory inner => exact sound _ rfl
    | file file => exact sound_empty
    | link target => exact sound_empty

/-- What is below a name of a sound directory is sound. -/
theorem Sound.entriesOf_lookup (sound : Sound (.directory entries)) (name : Name) :
    Sound (.directory (entriesOf (entries.lookup name))) := by
  cases sound with
  | directory distinct names each =>
    exact sound_entriesOf fun held found => each _ (mem_of_lookup found)

/-- A sound entry at a location of proper names leaves a directory sound. -/
theorem Sound.insertAt (sound : Sound (.directory entries)) (inner : entry.Sound)
    {location : Location} (named : ∀ name ∈ location, IsName name) :
    Sound (.directory (insertAt entries entry location)) := by
  induction location generalizing entries with
  | nil => exact sound
  | cons name location ih =>
    have first := named name List.mem_cons_self
    have rest := fun other member => named other (List.mem_cons_of_mem name member)
    -- The last name takes the entry, and any other one the directory with the entry in it.
    cases location with
    | nil => exact sound.assign first inner
    | cons next location => exact sound.assign first (ih (sound.entriesOf_lookup name) rest)

/-- A directory stays sound when an entry is taken out of it. -/
theorem Sound.eraseAt? (sound : Sound (.directory entries)) {location : Location}
    {left : List (Name × Entry)} (erased : eraseAt? entries location = some left) :
    Sound (.directory left) := by
  induction location generalizing entries left with
  | nil => cases erased
  | cons name location ih =>
    cases location with
    | nil =>
      -- Leaving an entry out brings no name in and repeats none.
      simp only [Entry.eraseAt?, Option.ite_none_right_eq_some, Option.some.injEq] at erased
      obtain ⟨_, rfl⟩ := erased
      cases sound with
      | directory distinct names each =>
        have fewer : (entries.filter (·.1 != name)).Sublist entries := List.filter_sublist
        refine .directory (distinct.sublist (fewer.map Prod.fst)) ?_ ?_
        · exact fun other member => names other (fewer.subset member)
        · exact fun other member => each other (fewer.subset member)
    | cons next location =>
      simp only [Entry.eraseAt?] at erased
      have below := sound.entriesOf_lookup name
      cases sound with
      | directory distinct names each =>
        cases held : entries.lookup name with
        | none => simp [held] at erased
        | some entry =>
          rw [held] at erased below
          have named := names _ (mem_of_lookup held)
          cases entry with
          | file file => cases erased
          | link target => cases erased
          | directory inner =>
            obtain ⟨remains, inside, same⟩ := Option.map_eq_some_iff.mp erased
            subst same
            exact Sound.assign (.directory distinct names each) named (ih below inside)

end Changes

end Entry

/-- A location all of whose names are proper names. -/
def Named (location : Location) : Prop :=
  ∀ name ∈ location, IsName name

/-- One more proper name leads from a proper location to another. -/
theorem Named.append {location : Location} (named : Named location) {name : Name}
    (proper : IsName name) : Named (location ++ [name]) := by
  intro other member
  rcases List.mem_append.mp member with early | last
  · exact named other early
  · rw [List.mem_singleton.mp last]
    exact proper

/-- The location above a proper one is proper. -/
theorem Named.dropLast {location : Location} (named : Named location) : Named location.dropLast :=
  fun name member => named name (List.dropLast_subset location member)

namespace FileSystem

/-- A file system of sound directories, in which the working directory is named properly. -/
structure Sound (fs : FileSystem) : Prop where
  root : Entry.Sound (.directory fs.root)
  here : Named fs.workingDirectory

/-- Following segments leads to proper names, as long as it does so behind links. -/
theorem named_followWith {fs : FileSystem} {onLink : Location → List Bytes → Option Location}
    (behind : ∀ start segments location, Named start → (∀ segment ∈ segments, slash ∉ segment) →
      onLink start segments = some location → Named location)
    {start location : Location} {segments : List Bytes} (named : Named start)
    (whole : ∀ segment ∈ segments, slash ∉ segment)
    (followed : fs.followWith onLink start segments = some location) : Named location := by
  induction segments generalizing start with
  | nil =>
    cases followed
    exact named
  | cons segment rest ih =>
    have later := fun other member => whole other (List.mem_cons_of_mem segment member)
    simp only [followWith] at followed
    split at followed
    · split at followed
      · rename_i name found
        have proper : IsName name := by
          rcases Component.ofSegment?_eq_some found with ⟨above, _⟩ | same
          · cases above
          · cases same
            exact ⟨found, whole _ List.mem_cons_self⟩
        split at followed
        · cases followed
        · -- At a link the way goes on from the root or from here, through the target's segments.
          rename_i target _
          refine behind _ _ _ ?_ ?_ followed
          · split
            · simp [Named]
            · exact named
          · intro other member
            rcases List.mem_append.mp member with ofTarget | ofRest
            · exact Text.not_mem_of_mem_split ofTarget
            · exact later other ofRest
        · exact ih (named.append proper) later followed
      · exact ih named.dropLast later followed
      · exact ih named later followed
    · cases followed

/-- Following segments through links leads to proper names. -/
theorem named_follow {fs : FileSystem} (links : Nat) {start location : Location}
    {segments : List Bytes} (named : Named start) (whole : ∀ segment ∈ segments, slash ∉ segment)
    (followed : fs.follow links start segments = some location) : Named location := by
  -- By induction on the links: what is behind a link is followed through one fewer.
  induction links generalizing start location segments with
  | zero => exact named_followWith (fun _ _ _ _ _ nothing => by cases nothing) named whole followed
  | succ links ih =>
    refine named_followWith ?_ named whole followed
    intro start segments location proper free found
    exact ih proper free found

variable {fs : FileSystem} (sound : fs.Sound)

include sound

/-- Paths start at proper locations. -/
theorem Sound.start (path : Path) :
    Named (if path.isAbsolute then [] else fs.workingDirectory) := by
  split
  · simp [Named]
  · exact sound.here

/-- A path leads to a proper location. -/
theorem Sound.named_resolve? {path : Path} {location : Location}
    (found : fs.resolve? path = some location) : Named location := by
  -- The segments of a path are what stands between its slashes, so none is in them.
  unfold resolve? at found
  split at found
  · cases found
  · exact named_follow maxLinks (sound.start path)
      (fun segment member => Text.not_mem_of_mem_split member) found

omit sound in
/-- The names among the components of a path are proper. -/
theorem isName_of_mem_components {path : Path} {name : Name}
    (member : .name name ∈ path.components) : IsName name := by
  rcases List.mem_append.mp member with anchored | inside
  · -- What a path is anchored at is no name.
    unfold Path.anchor at anchored
    repeat' split at anchored
    all_goals simp at anchored
  · obtain ⟨segment, among, found⟩ := List.mem_filterMap.mp inside
    exact isName_of_segment among found

omit sound in
/-- A component leads from a proper location to another. -/
theorem named_enter {location : Location} (named : Named location) {component : Component}
    (proper : ∀ name, component = .name name → IsName name) :
    Named (fs.enter location component) := by
  cases component with
  | name name =>
    -- Through a link the name leads where the link does, and else it is put behind.
    have isName := proper name rfl
    simp only [enter]
    cases followed : fs.follow maxLinks location [name] with
    | none => exact named.append isName
    | some there => exact named_follow maxLinks named (by simpa using isName.whole) followed
  | above => exact named.dropLast
  | root => exact named
  | here => exact named

/-- The entry that a path names is at a proper location. -/
theorem Sound.named_locate (path : Path) : Named (fs.locate path) := by
  have proper : ∀ component ∈ path.components, ∀ name, component = .name name → IsName name := by
    rintro component member name rfl
    exact isName_of_mem_components member
  have parent : Named (path.components.dropLast.foldl fs.enter
      (if path.isAbsolute then [] else fs.workingDirectory)) := by
    -- Component by component, each step leads on to proper names.
    have early := fun component member => proper component (List.dropLast_subset _ member)
    have named := sound.start path
    revert early named
    generalize (if path.isAbsolute then [] else fs.workingDirectory) = location
    induction path.components.dropLast generalizing location with
    | nil => exact fun _ named => named
    | cons component rest ih =>
      intro early named
      refine ih _ (fun other member => early other (List.mem_cons_of_mem _ member)) ?_
      exact named_enter named (early component List.mem_cons_self)
  unfold locate
  dsimp only
  split
  · rename_i name last
    exact parent.append (proper _ (List.mem_of_getLast? last) name rfl)
  · rename_i component _ last
    exact named_enter parent (proper _ (List.mem_of_getLast? last))
  · exact parent

/-- A sound entry at any path leaves a file system sound. -/
theorem Sound.put {entry : Entry} (inner : entry.Sound) (path : Path) : (fs.put path entry).Sound :=
  ⟨sound.root.insertAt inner (sound.named_locate path), sound.here⟩

/-- Writing a file leaves a file system sound. -/
theorem Sound.write (path : Path) (file : File) : (fs.write path file).Sound := by
  -- The file goes where the path leads to, or where it names an entry that is not there.
  have named : Named ((fs.resolve? path).getD (fs.locate path)) := by
    cases found : fs.resolve? path with
    | none => exact sound.named_locate path
    | some location => exact sound.named_resolve? found
  exact ⟨sound.root.insertAt (.file file) named, sound.here⟩

/-- Making a directory leaves a file system sound. -/
theorem Sound.makeDirectory (path : Path) : (fs.makeDirectory path).Sound := by
  -- A directory that is there already is left alone.
  unfold FileSystem.makeDirectory
  split
  · exact sound
  · exact sound.put Entry.sound_empty path

/-- Removing an entry leaves a file system sound. -/
theorem Sound.remove? {path : Path} {left : FileSystem} (removed : fs.remove? path = some left) :
    left.Sound := by
  -- Where a path is too long or names nothing, there is no file system afterwards.
  unfold FileSystem.remove? at removed
  split at removed
  · obtain ⟨root, erased, rfl⟩ := Option.map_eq_some_iff.mp removed
    exact ⟨sound.root.eraseAt? erased, sound.here⟩
  · cases removed

/-- One more entry of a snapshot leaves a sound file system sound. -/
theorem Sound.putJson? {value : Json} {after : FileSystem}
    (taken : fs.putJson? value = some after) : after.Sound := by
  -- A value describes a file, a directory, a link or a library, each with a change of its own.
  obtain ⟨fields, _, taken⟩ := Option.bind_eq_some_iff.mp taken
  split at taken
  · obtain ⟨path, _, taken⟩ := Option.bind_eq_some_iff.mp taken
    obtain ⟨bytes, _, taken⟩ := Option.bind_eq_some_iff.mp taken
    cases taken
    exact sound.write path _
  · obtain ⟨path, _, taken⟩ := Option.bind_eq_some_iff.mp taken
    cases taken
    exact sound.makeDirectory path
  · obtain ⟨path, _, taken⟩ := Option.bind_eq_some_iff.mp taken
    obtain ⟨target, _, taken⟩ := Option.bind_eq_some_iff.mp taken
    cases taken
    exact sound.put (.link target) path
  · obtain ⟨path, _, taken⟩ := Option.bind_eq_some_iff.mp taken
    obtain ⟨image, _, taken⟩ := Option.bind_eq_some_iff.mp taken
    cases taken
    exact sound.put (.file _) path
  · cases taken

/-- The entries of a snapshot, one after the other, leave a sound file system sound. -/
theorem Sound.foldlM_putJson? {values : List Json} {after : FileSystem}
    (taken : values.foldlM FileSystem.putJson? fs = some after) : after.Sound := by
  -- Each value leaves a file system for the next one.
  induction values generalizing fs with
  | nil =>
    cases taken
    exact sound
  | cons value values ih =>
    obtain ⟨next, first, rest⟩ := Option.bind_eq_some_iff.mp taken
    exact ih (sound.putJson? first) rest

omit sound in
/-- An empty working directory of a proper name is sound. -/
theorem sound_emptyAt {name : Name} (proper : IsName name) : (emptyAt name).Sound where
  root := .singleton proper Entry.sound_empty
  here := by simpa [emptyAt, plain, Named] using proper

end FileSystem

/-- The file system of every snapshot is sound, whatever the snapshot says. -/
theorem Snapshot.sound_ofJson? {value : Json} {snapshot : Snapshot}
    (read : ofJson? value = some snapshot) : snapshot.fs.Sound := by
  -- A snapshot starts with an empty project, and its files are put there one by one.
  have proper : IsName (bytesOf "project") := ⟨by decide, by decide⟩
  obtain ⟨fields, _, read⟩ := Option.bind_eq_some_iff.mp read
  split at read
  · obtain ⟨files, _, read⟩ := Option.bind_eq_some_iff.mp read
    obtain ⟨fs, taken, read⟩ := Option.bind_eq_some_iff.mp read
    obtain ⟨listed, _, read⟩ := Option.bind_eq_some_iff.mp read
    obtain ⟨trees, _, read⟩ := Option.bind_eq_some_iff.mp read
    cases read
    exact (FileSystem.sound_emptyAt proper).foldlM_putJson? taken
  · cases read

end Surface
