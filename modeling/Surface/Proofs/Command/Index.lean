import Mathlib.Data.List.Forall2
import Surface.Command.Run
import Surface.Proofs.Json.Pretty
import Surface.Proofs.Rules.Tidy
import Surface.Proofs.Symbol.Json
import Surface.Proofs.Walk.Tests

/-!
The index command.

What it prints as JSON is read back as the surfaces that it prints as text. The index of several
paths is made of those of the single ones, and if one of the paths is missing there is none.
-/

namespace Surface

section Rows

/-- Whether all nodes are on rows below the bound, whatever is parsed; no parser counts that far. -/
def Setting.RowsBounded (setting : Setting) : Prop :=
  ∀ grammar source, ∀ node ∈ (setting.parsing grammar source).root.nodes,
    node.row < Rules.rowBound

/-- Scripts start on a row of the document, and a document has no more line ends than bytes. -/
theorem Language.rowsBounded_of_mem_blocks {setting : Setting} (bounded : setting.RowsBounded)
    {language : Language} {grammar : Grammar} {source : Bytes}
    (short : source.length < Rules.rowBound) {block : Rules.Block}
    (member : block ∈ language.blocks source (setting.parsing grammar source).root) :
    block.RowsBounded setting.parsing := by
  refine ⟨?_, fun node among => bounded _ _ node among⟩
  -- Only component files have blocks, and they say in two ways where a block starts.
  cases language with
  | svelte =>
    obtain ⟨raw, among, rfl⟩ := List.mem_map.mp member
    exact bounded grammar source raw (Rules.mem_nodes_of_mem_rawTexts among)
  | astro =>
    obtain ⟨⟨offset, code⟩, found, rfl⟩ := List.mem_map.mp member
    obtain ⟨front, back, whole, same⟩ := Rules.frontmatter_split (Option.mem_toList.mp found)
    have counted : front.count '\n' ≤ source.length := by
      calc front.count '\n'
          ≤ (Utf8.decode source).count '\n' := by rw [whole]; simp
        _ = source.count Text.lineFeed := Utf8.count_decode source
        _ ≤ source.length := List.count_le_length
    simp only [same]
    omega
  | _ => simp [blocks] at member

end Rows

/-- A surface as an index lists it: with a path, something public and lines that can be written. -/
structure FileSurface.Listed (surface : FileSurface) : Prop where
  shown : surface.path.isSome = true
  declares : surface.symbols ≠ []
  fits : surface.Fits

namespace Setting

variable (setting : Setting)

/-- Symbols that are extracted from a file of moderate size have lines that can be written. -/
theorem fits_of_extract (bounded : setting.RowsBounded) {loaded : Loaded} {source : Bytes}
    (short : source.length < Rules.rowBound) {language : Language} {surface : FileSurface}
    (extracted : (setting.extract loaded source language).1 = .ok surface) : surface.Fits := by
  -- A surface comes from a tree, and the lines of its symbols from rows in it.
  rcases resolved : loaded.resolve setting.fs setting.config language with ⟨error | grammar, after⟩
  · rw [extract_of_error resolved] at extracted
    cases extracted
  · rw [extract_of_ok resolved] at extracted
    dsimp only at extracted
    split at extracted
    · cases extracted
      intro symbol member
      exact Language.line_lt_of_mem (bounded grammar source)
        (fun block among => Language.rowsBounded_of_mem_blocks bounded short among) member
    · cases extracted

/-- The surface of a file is a listed one. -/
theorem listed_of_fileSurface? (bounded : setting.RowsBounded) {loaded : Loaded} {path : Path}
    {shown : String} {listed : FileSurface}
    (found : (setting.fileSurface? loaded path shown).1 = some listed) : listed.Listed := by
  obtain ⟨source, _, small, own, extracted, declares, rfl⟩ :=
    setting.fileSurface?_eq_some_iff.mp found
  refine ⟨rfl, declares, ?_⟩
  -- The limit on the size of files is far below the bound on rows.
  have short : source.length < Rules.rowBound := Nat.lt_of_le_of_lt small (by decide)
  cases known : Language.ofPath? path with
  | none => simp [extractFile, known] at extracted
  | some language =>
    rw [setting.extractFile_of_ofPath? known] at extracted
    cases inner : (setting.extract loaded source language).1 with
    | error error =>
      rw [inner] at extracted
      cases extracted
    | ok surface =>
      rw [inner] at extracted
      cases extracted
      have fits := setting.fits_of_extract bounded short inner
      exact fits

/-- Whatever a path leads to, the surfaces there are listed ones. -/
theorem listed_of_collect (bounded : setting.RowsBounded) {loaded : Loaded} {includeTests : Bool}
    {path : Path} {surfaces : List FileSurface}
    (collected : (setting.collect loaded includeTests path).1 = .ok surfaces) :
    ∀ surface ∈ surfaces, surface.Listed := by
  intro surface member
  -- A file has one surface, and a directory has those of the files found there.
  unfold collect at collected
  split at collected
  · cases collected
  · rename_i root _
    split at collected
    · cases collected
      exact setting.listed_of_fileSurface? bounded (Option.mem_toList.mp member)
    · dsimp only at collected
      rw [setting.surfacesBelow_fst root (.refl loaded)] at collected
      cases collected
      obtain ⟨found, _, shown⟩ := List.mem_filterMap.mp member
      exact setting.listed_of_fileSurface? bounded shown

section Paths

/-- Alike tables collect the same surfaces. -/
theorem collect_eq_of_alike {one other : Loaded} (alike : Loaded.Alike setting.fs one other)
    (includeTests : Bool) (path : Path) :
    (setting.collect one includeTests path).1 = (setting.collect other includeTests path).1 := by
  -- Which files there are does not depend on the table, and each surface is the same.
  unfold collect
  split
  · rfl
  · split
    · exact congrArg (fun surface => Except.ok (Option.toList surface))
        (setting.fileSurface?_eq_of_alike alike _ _)
    · dsimp only
      rw [setting.surfacesBelow_fst _ (.refl one), setting.surfacesBelow_fst _ alike]

/-- The surfaces at several paths are those at the first one and those at the others. -/
theorem collectAll_cons (loaded : Loaded) (includeTests : Bool) (path : Path) (paths : List Path) :
    (setting.collectAll loaded includeTests (path :: paths)).1
      = (setting.collect loaded includeTests path).1.bind fun surfaces =>
          (setting.collectAll (setting.collect loaded includeTests path).2 includeTests paths).1.map
            (surfaces ++ ·) := by
  -- An error at the first path ends it, and one at the others takes the surfaces back.
  rw [collectAll]
  rcases setting.collect loaded includeTests path with ⟨error | surfaces, after⟩
  · rfl
  · dsimp only [Except.bind]
    rcases setting.collectAll after includeTests paths with ⟨error | more, later⟩
    · rfl
    · rfl

/-- Alike tables collect the same surfaces at several paths. -/
theorem collectAll_eq_of_alike {one other : Loaded} (alike : Loaded.Alike setting.fs one other)
    (includeTests : Bool) (paths : List Path) :
    (setting.collectAll one includeTests paths).1
      = (setting.collectAll other includeTests paths).1 := by
  induction paths generalizing one other with
  | nil => rfl
  | cons path paths ih =>
    -- Both tables go on as alike ones, whatever the path made the program load.
    have before := (setting.alike_collect one includeTests path).symm.trans alike
    have kept := before.trans (setting.alike_collect other includeTests path)
    rw [collectAll_cons, collectAll_cons, setting.collect_eq_of_alike alike, ih kept]

/-- Whatever several paths lead to, the surfaces there are listed ones. -/
theorem listed_of_collectAll (bounded : setting.RowsBounded) {loaded : Loaded} {includeTests : Bool}
    {paths : List Path} {surfaces : List FileSurface}
    (collected : (setting.collectAll loaded includeTests paths).1 = .ok surfaces) :
    ∀ surface ∈ surfaces, surface.Listed := by
  -- If all of it is collected, so are the first path and the others, one after the other.
  induction paths generalizing loaded surfaces with
  | nil =>
    cases collected
    simp
  | cons path paths ih =>
    rw [collectAll_cons] at collected
    cases first : (setting.collect loaded includeTests path).1 with
    | error error =>
      rw [first] at collected
      cases collected
    | ok part =>
      rw [first] at collected
      cases rest : (setting.collectAll (setting.collect loaded includeTests path).2 includeTests
          paths).1 with
      | error error =>
        simp only [Except.bind, rest] at collected
        cases collected
      | ok more =>
        simp only [Except.bind, rest] at collected
        cases collected
        intro surface member
        rcases List.mem_append.mp member with early | late
        · exact setting.listed_of_collect bounded first surface early
        · exact ih rest surface late

end Paths

end Setting

section Output

/-- The surfaces that a JSON text lists. -/
def readSurfaces? (text : String) : Option (List FileSurface) :=
  ((Json.parse? text).bind Json.array?).bind fun items => items.mapM FileSurface.ofJson?

/-- The JSON of an index is read as the array of its surfaces. -/
theorem parse?_surfacesText (surfaces : List FileSurface) :
    Json.parse? (surfacesText true surfaces) = some (.array (surfaces.map FileSurface.toJson)) := by
  -- All strings of a surface are written with their escapes.
  refine Json.parse?_pretty (.array ?_)
  intro item member
  obtain ⟨surface, _, rfl⟩ := List.mem_map.mp member
  exact surface.spelled_toJson

/-- Surfaces with lines that can be written are read back from the JSON of their index. -/
theorem readSurfaces?_surfacesText {surfaces : List FileSurface}
    (fits : ∀ surface ∈ surfaces, surface.Fits) :
    readSurfaces? (surfacesText true surfaces) = some surfaces := by
  rw [readSurfaces?, parse?_surfacesText]
  exact Json.mapM_map_eq_some fun surface member => surface.ofJson?_toJson (fits surface member)

end Output

namespace Setting

variable (setting : Setting)

/-- The index is what the collected surfaces are printed as. -/
theorem index_fst (loaded : Loaded) (paths : List Path) (json includeTests : Bool) :
    (setting.index loaded paths json includeTests).1
      = (setting.collectAll loaded includeTests paths).1.map (surfacesText json) :=
  rfl

/-- The index of one path is what the surfaces there are printed as. -/
theorem index_singleton (loaded : Loaded) (path : Path) (json includeTests : Bool) :
    (setting.index loaded [path] json includeTests).1
      = (setting.collect loaded includeTests path).1.map (surfacesText json) := by
  -- Behind the one path there are no surfaces to add.
  rw [index_fst, collectAll_cons]
  cases (setting.collect loaded includeTests path).1 with
  | error error => rfl
  | ok surfaces => simp [Except.bind, collectAll, Except.map]

/--
The two modes of the index agree, also one after the other over files that do not change.

One succeeds if the other does. Then the JSON is read as surfaces that all have a path and make
something public, and the text is the one that these surfaces are rendered as.
-/
theorem index_modes_agree (bounded : setting.RowsBounded) {loaded after : Loaded}
    (alike : Loaded.Alike setting.fs loaded after) (paths : List Path) (includeTests : Bool) :
    ((∃ output, (setting.index loaded paths true includeTests).1 = .ok output)
        ↔ ∃ output, (setting.index after paths false includeTests).1 = .ok output)
    ∧ ∀ output, (setting.index loaded paths true includeTests).1 = .ok output →
        ∃ files, readSurfaces? output = some files
          ∧ (∀ file ∈ files, file.symbols ≠ [] ∧ file.path.isSome = true)
          ∧ (setting.index after paths false includeTests).1 = .ok (Index.render files) := by
  -- Both modes print the same surfaces, if there are any to print.
  rw [index_fst, index_fst, ← setting.collectAll_eq_of_alike alike]
  cases collected : (setting.collectAll loaded includeTests paths).1 with
  | error error => simp [Except.map]
  | ok surfaces =>
    have listed := setting.listed_of_collectAll bounded collected
    refine ⟨⟨fun _ => ⟨_, rfl⟩, fun _ => ⟨_, rfl⟩⟩, ?_⟩
    rintro output same
    cases same
    refine ⟨surfaces, ?_, ?_, rfl⟩
    · exact readSurfaces?_surfacesText fun surface member => (listed surface member).fits
    · exact fun surface member => ⟨(listed surface member).declares, (listed surface member).shown⟩

/-- The rows of the one tree are far below the bound. -/
theorem rowsBounded_mixedSetting : mixedSetting.RowsBounded := by
  have rows : ∀ node ∈ plainTree.root.nodes, node.row < Rules.rowBound := by decide
  exact fun _ _ => rows

/-- The one file in a directory of tests has a name that is no text. -/
theorem collect_mixedSetting_spec :
    (mixedSetting.collect .empty true (.ofString "spec")).1 = .ok [plainSurface "\uFFFD.go"] := by
  decide +kernel

/-- A file whose name is no text is shown by the same name in both modes. -/
theorem index_modes_agree_mixed :
    ∃ output files, (mixedSetting.index .empty [.ofString "spec"] true true).1 = .ok output
      ∧ readSurfaces? output = some files
      ∧ (mixedSetting.index .empty [.ofString "spec"] false true).1 = .ok (Index.render files)
      ∧ Index.render files = "--- \uFFFD.go (go) ---\n  [function] func A\n\n" := by
  have json : (mixedSetting.index .empty [.ofString "spec"] true true).1
      = .ok (surfacesText true [plainSurface "\uFFFD.go"]) := by
    rw [index_singleton, collect_mixedSetting_spec]
    rfl
  -- The surfaces that the JSON is read as are those that the text shows.
  obtain ⟨_, reads⟩ := mixedSetting.index_modes_agree rowsBounded_mixedSetting (.refl .empty)
    [.ofString "spec"] true
  obtain ⟨files, found, _, text⟩ := reads _ json
  refine ⟨_, files, json, found, text, ?_⟩
  rw [index_singleton, collect_mixedSetting_spec] at text
  rw [← Except.ok.inj text]
  decide +kernel

section Concatenation

end Concatenation

end Setting

end Surface
