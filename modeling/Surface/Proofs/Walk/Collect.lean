import Surface.Proofs.Grammar.Alike
import Surface.Proofs.Path.Below
import Surface.Proofs.Walk.Found
import Surface.Walk.Collect

/-!
The surfaces of all files below a directory: those of the files that a walk finds and that make
something public.

Whatever the files before it made the program load, a file has the surface that it has alone.
-/

namespace Surface

namespace FileSystem

/-- Why a path leads to nothing: it is not there, or nobody knows where it starts. -/
def failureAt (fs : FileSystem) (path : Path) : CommandError :=
  match path.isAbsolute, fs.workingFault? with
  | false, some fault => .noWorkingDirectory fault
  | _, _ => .notFound path

/-- A path that leads to something is made absolute, and for any other one it is said why. -/
theorem absolute_eq (fs : FileSystem) (path : Path) :
    fs.absolute path
      = if fs.reaches path then .ok (fs.fromHere path) else .error (fs.failureAt path) := by
  -- The empty path, which a relative one stands for without a directory, is not there.
  have nowhere : fs.pathExists ⟨[]⟩ = false := rfl
  unfold absolute currentDirectory reaches fromHere failureAt
  cases path.isAbsolute with
  | true => rfl
  | false =>
    cases fs.workingFault? with
    | none => rfl
    | some fault => simp [nowhere]; rfl

variable {fs : FileSystem} {path : Path}

end FileSystem

namespace Setting

variable (setting : Setting)

/-- A file of a known language is extracted as one, and shown by its path. -/
theorem extractFile_of_ofPath? {path : Path} {language : Language}
    (known : Language.ofPath? path = some language) (loaded : Loaded) (source : Bytes) :
    (setting.extractFile loaded source path).1
      = (setting.extract loaded source language).1.map
          fun file => { file with path := some path.display } := by
  rw [extractFile, known]

/-- Alike tables extract the same from a file. -/
theorem extractFile_eq_of_alike {one other : Loaded} (alike : Loaded.Alike setting.fs one other)
    (source : Bytes) (path : Path) :
    (setting.extractFile one source path).1 = (setting.extractFile other source path).1 := by
  -- Which language a path has does not depend on the table.
  cases known : Language.ofPath? path with
  | none => simp [extractFile, known]
  | some language =>
    rw [setting.extractFile_of_ofPath? known, setting.extractFile_of_ofPath? known,
      setting.extract_eq_of_alike alike source language]

/--
A file has a surface in an index if it can be read, is small enough, and makes something public when
it is extracted by itself.
-/
theorem fileSurface?_eq_some_iff {loaded : Loaded} {path : Path} {shown : String}
    {listed : FileSurface} :
    (setting.fileSurface? loaded path shown).1 = some listed
      ↔ ∃ source, setting.fs.read? path = some source ∧ source.length ≤ maxFileSize
        ∧ ∃ surface, (setting.extractFile loaded source path).1 = .ok surface
          ∧ surface.symbols ≠ [] ∧ { surface with path := some shown } = listed := by
  unfold fileSurface? extractFile
  cases Language.ofPath? path with
  | none => simp
  | some language =>
    cases read : setting.fs.read? path with
    | none => simp
    | some source =>
      -- The size that is looked at first is that of the bytes that are read.
      simp only [FileSystem.fileSize_of_read? read, Option.some.injEq, exists_eq_left']
      by_cases small : source.length ≤ maxFileSize
      · have allowed : ¬ maxFileSize < source.length := Nat.not_lt.mpr small
        rcases extracted : setting.extract loaded source language with ⟨error | surface, after⟩
        · simp [small, allowed, Except.map]
        · -- The path under which the file was extracted gives way to the one it is shown by.
          by_cases silent : surface.symbols = []
          · simp [small, allowed, Except.map, FileSurface.isEmpty, silent]
          · simp [small, allowed, Except.map, FileSurface.isEmpty, silent]
      · simp [small, Nat.not_le.mp small]

/-- Alike tables give a file the same surface. -/
theorem fileSurface?_eq_of_alike {one other : Loaded} (alike : Loaded.Alike setting.fs one other)
    (path : Path) (shown : String) :
    (setting.fileSurface? one path shown).1 = (setting.fileSurface? other path shown).1 := by
  -- Of all that a surface depends on, only the extraction looks at the table.
  apply Option.ext
  intro listed
  simp only [fileSurface?_eq_some_iff, setting.extractFile_eq_of_alike alike]

/-- A file leaves an alike table behind, whether it has a surface or not. -/
theorem alike_fileSurface? (loaded : Loaded) (path : Path) (shown : String) :
    Loaded.Alike setting.fs loaded (setting.fileSurface? loaded path shown).2 := by
  -- Only an extraction can load something, and it leaves an alike table behind.
  unfold fileSurface?
  cases Language.ofPath? path with
  | none => exact .refl loaded
  | some language =>
    dsimp only
    split
    · exact .refl loaded
    · cases setting.fs.read? path with
      | none => exact .refl loaded
      | some source =>
        have kept := setting.alike_extract loaded source language
        dsimp only
        rcases extracted : setting.extract loaded source language with ⟨error | surface, after⟩
        all_goals
          rw [extracted] at kept
          exact kept

/-- The surface of a file that was found below a root, if it has one. -/
def foundSurface? (loaded : Loaded) (root : Path) (found : Found) : Option FileSurface :=
  let path := root.join ⟨joinSegments found.names⟩
  (setting.fileSurface? loaded path (path.displayBelow root)).1

/-- File by file, the surfaces are those that each file has with the table from before them all. -/
theorem surfacesBelow_fst (root : Path) {loaded after : Loaded}
    (alike : Loaded.Alike setting.fs loaded after) (founds : List Found) :
    (setting.surfacesBelow root after founds).1
      = founds.filterMap (setting.foundSurface? loaded root) := by
  induction founds generalizing after with
  | nil => rfl
  | cons found founds ih =>
    let path := root.join ⟨joinSegments found.names⟩
    -- The table that the file finds is alike to the first one, and so is the one that it leaves.
    have kept := alike.trans (setting.alike_fileSurface? after path (path.displayBelow root))
    have own : (setting.fileSurface? after path (path.displayBelow root)).1
        = setting.foundSurface? loaded root found :=
      (setting.fileSurface?_eq_of_alike alike _ _).symm
    rw [surfacesBelow]
    dsimp only
    rw [ih kept, own]
    cases listed : setting.foundSurface? loaded root found with
    | none => simp [listed]
    | some surface => simp [listed]

/-- All files together leave an alike table behind. -/
theorem alike_surfacesBelow (root : Path) (loaded : Loaded) (founds : List Found) :
    Loaded.Alike setting.fs loaded (setting.surfacesBelow root loaded founds).2 := by
  -- File by file, each one starts from a table that is alike to the first.
  induction founds generalizing loaded with
  | nil => exact .refl loaded
  | cons found founds ih =>
    rw [surfacesBelow]
    exact (setting.alike_fileSurface? loaded _ _).trans (ih _)

/--
A file that the index of a directory is to list: a regular file that no ignore rule and no excluded
directory keeps a walk from, that is small enough, and that has a surface of its own.
-/
structure Eligible (loaded : Loaded) (root : Path) (location : Location) (found : Found)
    (own : FileSurface) : Prop where
  /-- The names lead to the file from the location of the directory, past no link. -/
  regular : setting.fs.at? (location ++ found.names) = some (.file found.file)
  admitted : (IgnoreScope.ofRoot setting.fs root location).Admits setting.fs root found.names
  /-- The names of the directories on the way, as text, are none of those that are left out. -/
  included : ∀ name ∈ found.names.dropLast,
    String.ofList (Utf8.decode name) ∉ excludedDirectories
  small : found.file.bytes.length ≤ maxFileSize
  extracted : (setting.extractFile loaded found.file.bytes
    (root.join ⟨joinSegments found.names⟩)).1 = .ok own
  declares : own.symbols ≠ []

section Directory

variable {path : Path} {location : Location} {entries : List (Name × Entry)}

/-- A path that stands for something is made absolute. -/
theorem absolute_of_find? {entry : Entry}
    (found : setting.fs.find? (setting.fs.fromHere path) = some entry) :
    setting.fs.absolute path = .ok (setting.fs.fromHere path) := by
  simp [FileSystem.absolute_eq, FileSystem.reaches, FileSystem.pathExists, found]

/-- The surface at a file is its own, shown by the path that was asked for. -/
theorem collect_file {file : File}
    (found : setting.fs.find? (setting.fs.fromHere path) = some (.file file)) (loaded : Loaded)
    (includeTests : Bool) :
    (setting.collect loaded includeTests path).1 = .ok
      (setting.fileSurface? loaded (setting.fs.fromHere path) path.display).1.toList := by
  have isFile : setting.fs.isFile (setting.fs.fromHere path) = true := by
    simp [FileSystem.isFile, FileSystem.file?, found]
  simp only [collect, setting.absolute_of_find? found, isFile, if_true]

/-- The surfaces below a directory are those of the files that a walk finds there. -/
theorem collect_directory
    (resolved : setting.fs.resolve? (setting.fs.fromHere path) = some location)
    (there : setting.fs.at? location = some (.directory entries)) {loaded after : Loaded}
    (alike : Loaded.Alike setting.fs loaded after) (includeTests : Bool) :
    (setting.collect after includeTests path).1
      = .ok ((setting.fs.walk includeTests (setting.fs.fromHere path)).filterMap
          (setting.foundSurface? loaded (setting.fs.fromHere path))) := by
  -- A path that leads to a directory leads to no file, so a walk takes place.
  have found : setting.fs.find? (setting.fs.fromHere path) = some (.directory entries) := by
    simp [FileSystem.find?, resolved, there]
  have noFile : setting.fs.isFile (setting.fs.fromHere path) = false := by
    simp [FileSystem.isFile, FileSystem.file?, found]
  simp only [collect, setting.absolute_of_find? found, noFile, Bool.false_eq_true, if_false]
  rw [setting.surfacesBelow_fst _ alike]

/-- Of the files that a walk finds, those are listed that can be read and are eligible. -/
theorem mem_walk_and_foundSurface?_iff (sound : setting.fs.Sound)
    (resolved : setting.fs.resolve? (setting.fs.fromHere path) = some location)
    (there : setting.fs.at? location = some (.directory entries)) {loaded : Loaded}
    {found : Found} {listed : FileSurface} :
    found ∈ setting.fs.walk true (setting.fs.fromHere path)
        ∧ setting.foundSurface? loaded (setting.fs.fromHere path) found = some listed
      ↔ setting.fs.Opens (setting.fs.fromHere path) location found.names
        ∧ ∃ own, setting.Eligible loaded (setting.fs.fromHere path) location found own
          ∧ { own with path := some (Path.mk (joinSegments found.names)).display } = listed := by
  obtain ⟨names, file⟩ := found
  -- Both sides speak of a file that is there, so its names are proper and the shown path is theirs.
  have shown (held : setting.fs.at? (location ++ names) = some (.file file)) :
      ((setting.fs.fromHere path).join ⟨joinSegments names⟩).displayBelow (setting.fs.fromHere path)
        = (Path.mk (joinSegments names)).display := by
    obtain ⟨valid, present⟩ := FileSystem.named_of_at?_append sound there held
    rw [Path.displayBelow, Path.below?_join _ valid present]
    rfl
  have absolute := FileSystem.isAbsolute_fromHere resolved
  rw [FileSystem.mem_walk_iff sound resolved there, foundSurface?]
  dsimp only
  rw [fileSurface?_eq_some_iff]
  constructor
  · rintro ⟨⟨held, listed, passes⟩, source, read, small, own, extracted, declares, same⟩
    obtain ⟨_, present⟩ := FileSystem.named_of_at?_append sound there held
    obtain ⟨admitted, included, along⟩ := (lists_and_passes_iff present).mp ⟨listed, passes⟩
    obtain ⟨opens, rfl⟩ :=
      (FileSystem.opens_iff sound absolute resolved there held).mpr ⟨along, read⟩
    rw [shown held] at same
    refine ⟨opens, own, ⟨held, admitted, ?_, small, extracted, declares⟩, same⟩
    intro name member
    simpa [isExcludedDirectory] using included name member
  · rintro ⟨opens, own, eligible, same⟩
    obtain ⟨_, present⟩ := FileSystem.named_of_at?_append sound there eligible.regular
    obtain ⟨along, read⟩ :=
      (FileSystem.opens_iff sound absolute resolved there eligible.regular).mp ⟨opens, rfl⟩
    have included : ∀ name ∈ names.dropLast, isExcludedDirectory (Utf8.decode name) = false := by
      intro name member
      simpa [isExcludedDirectory] using eligible.included name member
    have walked := (lists_and_passes_iff present).mpr ⟨eligible.admitted, included, along⟩
    rw [← shown eligible.regular] at same
    exact ⟨⟨eligible.regular, walked⟩, _, read, eligible.small, own, eligible.extracted,
      eligible.declares, same⟩

/--
The index of a directory, tests included, lists the eligible files that can be come to and read,
each one once, in the order of the names that lead to them.

A file is listed with the language and the symbols that it has by itself, under its path below the
directory.
-/
theorem collect_lists_eligible (sound : setting.fs.Sound)
    (resolved : setting.fs.resolve? (setting.fs.fromHere path) = some location)
    (there : setting.fs.at? location = some (.directory entries)) (loaded : Loaded) :
    ∃ index : List (Found × FileSurface),
      (setting.collect loaded true path).1 = .ok (index.map Prod.snd)
      ∧ (∀ found listed, (found, listed) ∈ index
          ↔ setting.fs.Opens (setting.fs.fromHere path) location found.names
            ∧ ∃ own, setting.Eligible loaded (setting.fs.fromHere path) location found own
              ∧ { own with path := some (Path.mk (joinSegments found.names)).display } = listed)
      ∧ index.Pairwise fun earlier later => earlier.1.names < later.1.names := by
  let root := setting.fs.fromHere path
  -- The index keeps each file that the walk finds together with its surface.
  refine ⟨(setting.fs.walk true root).filterMap fun found =>
    (setting.foundSurface? loaded root found).map (found, ·), ?_, ?_, ?_⟩
  · rw [setting.collect_directory resolved there (.refl loaded), List.map_filterMap]
    simp [Function.comp_def, root]
  · intro found listed
    rw [← setting.mem_walk_and_foundSurface?_iff sound resolved there, List.mem_filterMap]
    simp [root]
  · -- Leaving files out keeps the order of those that stay.
    rw [List.pairwise_filterMap]
    refine (setting.fs.pairwise_walk sound true root).imp ?_
    intro earlier later less one first other second
    simp only [Option.map_eq_some_iff] at first second
    obtain ⟨_, _, rfl⟩ := first
    obtain ⟨_, _, rfl⟩ := second
    exact less

end Directory

/-- A file with one public function. -/
def plainFile : File :=
  ⟨bytesOf "func A", .notShared⟩

/-- The tree of that function. -/
def plainTree : Tree :=
  ⟨⟨"source_file", none, 0, 6, 0, [⟨"function_declaration", none, 0, 6, 0,
    [⟨"identifier", some "name", 5, 6, 0, []⟩]⟩]⟩, false⟩

/-- The surface of such a file. -/
def plainSurface (shown : String) : FileSurface :=
  ⟨some shown, .go, [⟨.function, "A", "func A", none, 1⟩]⟩

/-- Files that are listed, some of them with tests, among others that are not. -/
def mixedEntries : List (Name × Entry) :=
  [(bytesOf ".b.go", .file plainFile),
    (bytesOf "a", .directory [(bytesOf "x.go", .file plainFile)]),
    (bytesOf "a.go", .file plainFile),
    (bytesOf "b.go", .file plainFile),
    (bytesOf "c.go", .link (.ofString "a.go")),
    (bytesOf "d", .directory [(bytesOf "x.go", .file plainFile)]),
    (bytesOf "e", .directory [(bytesOf "x.go", .file plainFile)]),
    (bytesOf "spec", .directory [(0xFF :: bytesOf ".go", .file plainFile)]),
    (bytesOf "target", .directory [(bytesOf "t.go", .file plainFile)]),
    (0xFE :: bytesOf "_test.go", .file plainFile)]

/--
The file system with these files in its only directory, where the program is at work.

Of them one cannot be read, one is in a directory that cannot be listed, and one behind a closed
directory.
-/
def mixedSetting : Setting where
  fs := { FileSystem.plain [(bytesOf "p", .directory mixedEntries)] [bytesOf "p"] with
    unreadable := [[bytesOf "p", bytesOf "b.go"], [bytesOf "p", bytesOf "d"]]
    closed := [[bytesOf "p", bytesOf "e"]] }
  parsing := fun _ _ => plainTree
  config := ⟨[]⟩

/-- The entries have proper names, and no two of a directory have the same. -/
theorem sound_mixedSetting : mixedSetting.fs.Sound := by
  have plain := Entry.Sound.file plainFile
  -- Each of the inner directories has one file.
  have inner : Entry.Sound (.directory mixedEntries) := by
    refine .directory (by decide) (by decide) ?_
    simp only [mixedEntries, List.forall_mem_cons]
    have nested {name : Name} (proper : IsName name) :
        Entry.Sound (.directory [(name, .file plainFile)]) := .singleton proper plain
    exact ⟨plain, nested (by decide), plain, plain, .link _, nested (by decide),
      nested (by decide), nested (by decide), nested (by decide), plain, by simp⟩
  exact ⟨.singleton (by decide) inner,
    by simpa [mixedSetting, FileSystem.plain, Named] using by decide⟩

/-- The dot stands for the one directory. -/
theorem resolve?_mixedSetting :
    mixedSetting.fs.resolve? (mixedSetting.fs.fromHere (.ofString ".")) = some [bytesOf "p"] := by
  decide +kernel

/-- The entries are in that directory. -/
theorem at?_mixedSetting : mixedSetting.fs.at? [bytesOf "p"] = some (.directory mixedEntries) :=
  rfl

/--
Of all files only those are listed that are neither hidden, linked, excluded nor out of reach.
-/
theorem collect_mixedSetting :
    (mixedSetting.collect .empty true (.ofString ".")).1
      = .ok [plainSurface "a/x.go", plainSurface "a.go", plainSurface "spec/\uFFFD.go",
        plainSurface "\uFFFD_test.go"] := by
  have walked : mixedSetting.fs.walk true (mixedSetting.fs.fromHere (.ofString "."))
      = [⟨[bytesOf "a", bytesOf "x.go"], plainFile⟩, ⟨[bytesOf "a.go"], plainFile⟩,
        ⟨[bytesOf "b.go"], plainFile⟩, ⟨[bytesOf "e", bytesOf "x.go"], plainFile⟩,
        ⟨[bytesOf "spec", 0xFF :: bytesOf ".go"], plainFile⟩,
        ⟨[0xFE :: bytesOf "_test.go"], plainFile⟩] := by
    -- The entries are listed in the order of their names already.
    have listed : mixedSetting.fs.lists (mixedSetting.fs.fromHere (.ofString ".")) = true := by
      decide +kernel
    rw [FileSystem.walk_eq resolve?_mixedSetting at?_mixedSetting, if_pos listed, walkDirectory,
      sortByName_of_pairwise (by decide +kernel)]
    decide +kernel
  rw [mixedSetting.collect_directory resolve?_mixedSetting at?_mixedSetting (.refl .empty), walked]
  decide +kernel

/-- What is in the directory comes before the file, and of the others none is listed. -/
theorem collect_lists_eligible_mixed :
    ∃ index : List (Found × FileSurface),
      index.map Prod.snd = [plainSurface "a/x.go", plainSurface "a.go",
        plainSurface "spec/\uFFFD.go", plainSurface "\uFFFD_test.go"]
      ∧ index.Pairwise fun earlier later => earlier.1.names < later.1.names := by
  obtain ⟨index, collected, _, ordered⟩ := mixedSetting.collect_lists_eligible sound_mixedSetting
    resolve?_mixedSetting at?_mixedSetting .empty
  exact ⟨index, Except.ok.inj (collected.symm.trans collect_mixedSetting), ordered⟩

/-- A directory, spelled in as many bytes as a path can have. -/
def longPath : Path :=
  ⟨slash :: 0x70 :: List.replicate 4093 slash⟩

/-- The file system with one file in that directory. -/
def longSetting : Setting where
  fs := .plain [(bytesOf "p", .directory [(bytesOf "a.go", .file plainFile)])] [bytesOf "p"]
  parsing := fun _ _ => plainTree
  config := ⟨[]⟩

/-- Nothing can be put behind the path without making it too long. -/
theorem fits_longPath_join (next : Path) (relative : next.isAbsolute = false)
    (present : next.bytes ≠ []) : (longPath.join next).fits = false := by
  -- The path has as many bytes as can be looked up, and each further byte is too many.
  have longer : 0 < next.bytes.length := List.length_pos_iff.mpr present
  rw [Path.join_of_relative relative, Path.fits, decide_eq_false_iff_not]
  split
  all_goals
    simp only [longPath, List.length_append, List.length_cons, List.length_replicate, maxPathLength]
    omega

/-- An eligible file with a path that is too long cannot be read, and then it is not listed. -/
theorem exists_eligible_not_listed :
    ∃ (setting : Setting) (path : Path) (location : Location) (entries : List (Name × Entry))
      (found : Found) (own : FileSurface),
      setting.fs.Sound ∧ setting.fs.resolve? (setting.fs.fromHere path) = some location
      ∧ setting.fs.at? location = some (.directory entries)
      ∧ setting.Eligible .empty (setting.fs.fromHere path) location found own
      ∧ (setting.collect .empty true path).1 = .ok [] := by
  have sound : longSetting.fs.Sound :=
    ⟨.singleton (by decide) (.singleton (by decide) (.file plainFile)),
      by simpa [longSetting, FileSystem.plain, Named] using by decide⟩
  have resolved : longSetting.fs.resolve? longPath = some [bytesOf "p"] := by
    have short : longSetting.fs.resolve? ⟨[slash, 0x70]⟩ = some [bytesOf "p"] := by decide +kernel
    exact FileSystem.resolve?_append_slashes short (by decide +kernel) (by decide +kernel)
  have root : longSetting.fs.fromHere longPath = longPath := rfl
  have rooted : longSetting.fs.resolve? (longSetting.fs.fromHere longPath)
      = some [bytesOf "p"] := by
    rw [root]
    exact resolved
  have there : longSetting.fs.at? [bytesOf "p"]
      = some (.directory [(bytesOf "a.go", .file plainFile)]) := rfl
  -- No ignore file can be looked up below a path of that length, so none is minded.
  have kept : (IgnoreScope.ofRoot longSetting.fs longPath [bytesOf "p"]).skips (bytesOf "a.go")
      false = false := by decide +kernel
  have single : joinSegments [bytesOf "a.go"] = bytesOf "a.go" := by simp [joinSegments]
  have own : (longSetting.extractFile .empty plainFile.bytes (longPath.join ⟨bytesOf "a.go"⟩)).1
      = .ok (plainSurface (longPath.join ⟨bytesOf "a.go"⟩).display) := by
    have language : Language.ofPath? (longPath.join ⟨bytesOf "a.go"⟩) = some .go := by
      decide +kernel
    have extracted : (longSetting.extract .empty plainFile.bytes .go).1
        = .ok { plainSurface "" with path := none } := by decide +kernel
    rw [extractFile_of_ofPath? _ language, extracted]
    rfl
  have unlisted : longSetting.foundSurface? .empty longPath ⟨[bytesOf "a.go"], plainFile⟩
      = none := by
    rw [Option.eq_none_iff_forall_ne_some]
    intro listed same
    obtain ⟨source, read, _⟩ := longSetting.fileSurface?_eq_some_iff.mp same
    obtain ⟨there, _, leads, _⟩ := FileSystem.read?_eq_some_iff.mp read
    simp [FileSystem.resolve?,
      fits_longPath_join ⟨joinSegments [bytesOf "a.go"]⟩ (by decide) (by decide)] at leads
  have eligible : longSetting.Eligible .empty longPath [bytesOf "p"] ⟨[bytesOf "a.go"], plainFile⟩
      (plainSurface (longPath.join ⟨bytesOf "a.go"⟩).display) :=
    { regular := rfl
      admitted := admits_cons.mpr ⟨kept, admits_nil⟩
      included := by simp
      small := by decide
      extracted := by rw [single]; exact own
      declares := by simp [plainSurface] }
  refine ⟨longSetting, longPath, [bytesOf "p"], _, _, _, sound, rooted, there, eligible, ?_⟩
  -- The walk does find the file, and then it is given up.
  have listed : longSetting.fs.lists longPath = true :=
    FileSystem.lists_iff.mpr ⟨_, resolved, by decide, by simp [longSetting, FileSystem.plain]⟩
  rw [longSetting.collect_directory rooted there (.refl .empty), root,
    FileSystem.walk_eq resolved there, if_pos listed]
  simp [walkDirectory, sortByName, walkEntries, walkEntry, kept, skipsFile, unlisted]

end Setting

end Surface
