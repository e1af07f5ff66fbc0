import Surface.Proofs.Text.Utf8
import Surface.Proofs.Walk.Collect

/-!
Leaving tests out of an index.

A walk turns back at a directory of tests and passes by their files. It comes to the same to walk
everything and to take those surfaces out whose paths are those of tests.
-/

namespace Surface

/--
Whether the parts of a path are those of a test.

The last part is judged as the name of a file, and the ones before it as names of directories.
-/
def isTestPath (parts : List (List Char)) : Bool :=
  parts.getLast?.any isTestFile || parts.dropLast.any isTestDirectory

/-- Whether a surface is shown by the path of a test. -/
def FileSurface.inTests (surface : FileSurface) : Bool :=
  surface.path.any fun path => isTestPath (Text.split '/' path.toList)

/-- Whether names lead to a test. -/
def Found.inTests (found : Found) : Bool :=
  isTestPath (found.names.map Utf8.decode)

/-- A part in front makes a path one of tests if it is the name of such a directory. -/
theorem isTestPath_cons (part : List Char) {parts : List (List Char)} (more : parts ≠ []) :
    isTestPath (part :: parts) = (isTestDirectory part || isTestPath parts) := by
  -- With parts behind it the first one is no file name, and the last one stays the last.
  obtain ⟨next, rest, rfl⟩ := List.exists_cons_of_ne_nil more
  simp [isTestPath, Bool.or_left_comm]

section Shown

/-- The slash is a plain character. -/
theorem isPlain_slash : Utf8.IsPlain slash := by decide

/-- A name without a slash is shown without one. -/
theorem not_mem_decode {name : Name} (whole : slash ∉ name) : '/' ∉ Utf8.decode name := by
  -- Neither the replacement of bytes nor a longer sequence can bring a slash in.
  intro member
  exact whole ((Utf8.mem_decode_of_isPlain isPlain_slash).mp member)

/-- Names that are shown with slashes between them come apart as they are shown one by one. -/
theorem split_decode_joinSegments {names : List Name} (whole : ∀ name ∈ names, slash ∉ name)
    (present : names ≠ []) :
    Text.split '/' (Utf8.decode (joinSegments names)) = names.map Utf8.decode := by
  induction names with
  | nil => exact absurd rfl present
  | cons name names ih =>
    have first := not_mem_decode (whole name List.mem_cons_self)
    by_cases more : names = []
    · subst more
      simpa [joinSegments] using Text.split_of_not_mem first
    · have rest := ih (fun other member => whole other (List.mem_cons_of_mem _ member)) more
      -- Whatever is open at the end of the name, the slash behind it stands for itself.
      have apart : Utf8.decode (joinSegments (name :: names))
          = Utf8.decode name ++ '/' :: Utf8.decode (joinSegments names) := by
        rw [joinSegments_cons name more]
        exact Utf8.decode_append_cons isPlain_slash name (joinSegments names)
      rw [apart, Text.split_append_cons first, rest, List.map_cons]

end Shown

section Pruning

variable {fs : FileSystem} {scope : IgnoreScope} {path : Path}

/-- If tests are left out at each entry, they are left out in the whole directory. -/
theorem walkDirectory_filter_of_forall {entries : List (Name × Entry)}
    (each : ∀ entry ∈ entries, walkEntry fs false scope path entry.1 entry.2
      = (walkEntry fs true scope path entry.1 entry.2).filter (!·.inTests)) :
    walkDirectory fs false scope path entries
      = (walkDirectory fs true scope path entries).filter (!·.inTests) := by
  let prune : Name × List Found → Name × List Found :=
    fun entry => (entry.1, entry.2.filter (!·.inTests))
  have pruned : walkEntries fs false scope path entries
      = (walkEntries fs true scope path entries).map prune := by
    rw [walkEntries_eq, walkEntries_eq, List.map_map]
    apply List.map_congr_left
    intro entry among
    simp [prune, each entry among]
  -- The names stay, and the order is only theirs, so sorting does the same before and after.
  have sorted : sortByName ((walkEntries fs true scope path entries).map prune)
      = (sortByName (walkEntries fs true scope path entries)).map prune := by
    rw [sortByName, sortByName, List.map_mergeSort]
    intro first _ second _
    rfl
  rw [walkDirectory, pruned, sorted, walkDirectory, List.filter_flatMap, List.flatMap_map]

/-- Below a directory of tests all files are tests, and below another one those that were. -/
theorem filter_map_below (name : Name) {founds : List Found}
    (present : ∀ found ∈ founds, found.names ≠ []) :
    (founds.map (Found.below name)).filter (!·.inTests)
      = if isTestDirectory (Utf8.decode name) then []
        else (founds.filter (!·.inTests)).map (Found.below name) := by
  -- The name in front is judged as that of a directory, since names follow it.
  have judged : ∀ found ∈ founds,
      (found.below name).inTests = (isTestDirectory (Utf8.decode name) || found.inTests) := by
    intro found member
    simp only [Found.inTests, Found.below, List.map_cons]
    exact isTestPath_cons _ (by simpa using present found member)
  rw [List.filter_map]
  split
  · rename_i test
    rw [List.map_eq_nil_iff, List.filter_eq_nil_iff]
    intro found member
    simp [judged found member, test]
  · rename_i other
    congr 1
    apply List.filter_congr
    intro found member
    simp [judged found member, other]

/-- Entry by entry, a walk without tests finds what one with tests finds, but for the tests. -/
theorem walkEntry_filter {entry : Entry} (sound : entry.Sound) (name : Name) :
    walkEntry fs false scope path name entry
      = (walkEntry fs true scope path name entry).filter (!·.inTests) := by
  induction sound generalizing scope path name with
  | file file =>
    have judged : (Found.mk [name] file).inTests = isTestFile (Utf8.decode name) := by
      simp [Found.inTests, isTestPath]
    rw [walkEntry, walkEntry, skipsFile, skipsFile]
    -- An ignored file is found in neither walk, and any other one is judged by its name alone.
    cases scope.skips name false with
    | true => simp
    | false => by_cases test : isTestFile (Utf8.decode name) = true <;> simp [judged, test]
  | link target => simp [walkEntry]
  | directory _ _ _ ih =>
    rw [walkEntry_directory, walkEntry_directory, apply_ite (List.filter _), List.filter_nil,
      filter_map_below name fun found member => names_ne_nil_of_mem_walkDirectory member,
      walkDirectory_filter_of_forall fun entry among => ih entry among entry.1]
    -- A directory of tests is one more that a walk without them turns back at.
    by_cases test : isTestDirectory (Utf8.decode name) = true <;> simp [skipsDirectory, test]

/-- Without tests, a walk finds in a directory what it finds with them, but for the tests. -/
theorem walkDirectory_filter {entries : List (Name × Entry)}
    (sound : Entry.Sound (.directory entries)) :
    walkDirectory fs false scope path entries
      = (walkDirectory fs true scope path entries).filter (!·.inTests) := by
  -- Each entry is sound, so tests are left out there.
  cases sound with
  | directory _ _ each =>
    apply walkDirectory_filter_of_forall
    intro entry among
    exact walkEntry_filter (each entry among) entry.1

/-- Without tests, a walk finds what it finds with them, but for the tests. -/
theorem FileSystem.walk_filter (sound : fs.Sound) (root : Path) :
    fs.walk false root = (fs.walk true root).filter (!·.inTests) := by
  -- Which directory the root leads to, and whether it is listed, is the same in both.
  cases resolved : fs.resolve? root with
  | none => simp [walk, resolved]
  | some location =>
    simp only [walk, resolved]
    split
    · exact walkDirectory_filter (sound.entriesOf_at? location)
    · rfl

end Pruning

namespace Setting

variable (setting : Setting)

/-- Whether a file that was found is a test shows in the path of its surface. -/
theorem inTests_of_foundSurface? {loaded : Loaded} {root : Path} {found : Found}
    (valid : Named found.names) (present : found.names ≠ []) {listed : FileSurface}
    (shown : setting.foundSurface? loaded root found = some listed) :
    listed.inTests = found.inTests := by
  rw [foundSurface?, fileSurface?_eq_some_iff] at shown
  obtain ⟨_, _, _, own, _, _, rfl⟩ := shown
  -- The shown path is that of the names, so split at slashes it has their texts as its parts.
  have parts := split_decode_joinSegments (fun name member => (valid name member).whole) present
  simp [FileSurface.inTests, Found.inTests, Path.displayBelow,
    Path.below?_join root valid present, Path.display, parts]

/-- Collecting leaves an alike table behind. -/
theorem alike_collect (loaded : Loaded) (includeTests : Bool) (path : Path) :
    Loaded.Alike setting.fs loaded (setting.collect loaded includeTests path).2 := by
  -- A missing path loads nothing, and otherwise files do.
  unfold collect
  split
  · exact .refl loaded
  · split
    · exact setting.alike_fileSurface? loaded _ _
    · exact setting.alike_surfacesBelow _ loaded _

/--
Leaving tests out is a filter on the paths that surfaces are shown by.

Below a directory the surfaces without tests are those with tests, in the same order, but for the
ones with the path of a test. A file that is named itself stays whatever it is called. As long as no
file changes it does not matter what is loaded in between: either call leaves an alike table behind.
-/
theorem collect_without_tests (sound : setting.fs.Sound) {loaded after : Loaded}
    (alike : Loaded.Alike setting.fs loaded after) (path : Path) :
    (∀ entries, setting.fs.find? (setting.fs.fromHere path) = some (.directory entries) →
      ∃ surfaces, (setting.collect loaded true path).1 = .ok surfaces
        ∧ (setting.collect after false path).1 = .ok (surfaces.filter (!·.inTests)))
    ∧ (∀ file, setting.fs.find? (setting.fs.fromHere path) = some (.file file) →
      ∃ surfaces, (setting.collect loaded true path).1 = .ok surfaces
        ∧ (setting.collect after false path).1 = .ok surfaces)
    ∧ ∀ includeTests,
      Loaded.Alike setting.fs loaded (setting.collect loaded includeTests path).2 := by
  refine ⟨?_, ?_, fun includeTests => setting.alike_collect loaded includeTests path⟩
  · intro entries found
    obtain ⟨location, resolved, there⟩ := Option.bind_eq_some_iff.mp found
    refine ⟨_, setting.collect_directory resolved there (.refl loaded) true, ?_⟩
    rw [setting.collect_directory resolved there alike false, setting.fs.walk_filter sound,
      List.filterMap_filter, List.filter_filterMap]
    congr 1
    apply List.filterMap_congr
    intro found member
    obtain ⟨held, _⟩ := (FileSystem.mem_walk_iff sound resolved there).mp member
    obtain ⟨valid, present⟩ := FileSystem.named_of_at?_append sound there held
    -- The surface of a test is taken out behind the walk, or the test is not walked to.
    cases shown : setting.foundSurface? loaded (setting.fs.fromHere path) found with
    | none => simp
    | some listed =>
      have same := setting.inTests_of_foundSurface? valid present shown
      simp [Option.filter, same]
  · -- No walk takes place at a file, so nothing asks what it is called.
    intro file found
    refine ⟨_, setting.collect_file found loaded true, ?_⟩
    rw [setting.collect_file found after false, setting.fileSurface?_eq_of_alike alike]

/-- Tests are left out below a directory, also under names that are no text, but not when named. -/
theorem collect_without_tests_mixed :
    let after := (mixedSetting.collect .empty true (.ofString ".")).2
    (mixedSetting.collect after false (.ofString ".")).1
        = .ok [plainSurface "a/x.go", plainSurface "a.go"]
      ∧ (mixedSetting.collect after false ⟨0xFE :: bytesOf "_test.go"⟩).1
        = .ok [plainSurface "\uFFFD_test.go"] := by
  intro after
  have alike := mixedSetting.alike_collect .empty true (.ofString ".")
  have root : mixedSetting.fs.find? (mixedSetting.fs.fromHere (.ofString "."))
      = some (.directory mixedEntries) := by
    rw [FileSystem.find?, resolve?_mixedSetting]
    exact at?_mixedSetting
  -- The name of the file ends as that of a test, and it starts with no text.
  have test : mixedSetting.fs.find? (mixedSetting.fs.fromHere ⟨0xFE :: bytesOf "_test.go"⟩)
      = some (.file plainFile) := by
    have resolved : mixedSetting.fs.resolve?
        (mixedSetting.fs.fromHere ⟨0xFE :: bytesOf "_test.go"⟩)
        = some [bytesOf "p", 0xFE :: bytesOf "_test.go"] := by decide +kernel
    rw [FileSystem.find?, resolved]
    rfl
  constructor
  · -- Two of the four surfaces are in tests by their paths.
    obtain ⟨surfaces, every, kept⟩ :=
      (mixedSetting.collect_without_tests sound_mixedSetting alike (.ofString ".")).1 _ root
    rw [collect_mixedSetting, Except.ok.injEq] at every
    rw [kept, ← every]
    decide +kernel
  · obtain ⟨surfaces, every, kept⟩ := (mixedSetting.collect_without_tests sound_mixedSetting alike
      ⟨0xFE :: bytesOf "_test.go"⟩).2.1 _ test
    rw [kept, ← every, mixedSetting.collect_file test]
    decide +kernel

end Setting

end Surface
