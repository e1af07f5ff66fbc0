import Surface.Language
import Surface.Proofs.Path.Join
import Surface.Proofs.Text.Utf8
import Surface.Walk.Filter

/-!
Names of test files, language by language.
A file is told to be a test by the end of its name, and its language by the extension. The ends are
those that each language has for tests, with the extensions of the language: all of them but one.
-/

namespace Surface

namespace Path

/-- The name of a file is the whole path, if there is no slash in it. -/
theorem fileName?_of_not_mem {bytes name : Bytes} (whole : slash ∉ bytes)
    (found : (⟨bytes⟩ : Path).fileName? = some name) : name = bytes := by
  -- The last component is a name, so the path is more than an anchor.
  have last : (⟨bytes⟩ : Path).components.getLast? = some (.name name) := by
    unfold fileName? at found
    split at found
    · rename_i same
      rw [same, Option.some.inj found]
    · cases found
  rcases anchor_cases ⟨bytes⟩ with free | here | root
  · have body : (⟨bytes⟩ : Path).body = [bytes] := by
      simp [body, anchorBytes, free, segmentsOf, Text.split_of_not_mem whole]
    rw [components, free, body] at last
    cases segment : Component.ofSegment? bytes with
    | none => simp [segment] at last
    | some component =>
      obtain rfl : component = .name name := by simpa [segment] using last
      rcases Component.ofSegment?_eq_some segment with ⟨above, _⟩ | same
      · cases above
      · exact Component.name.inj same
  · rcases eq_of_anchor_here here with same | ⟨rest, same⟩
    · cases same
      cases last
    · cases same
      simp at whole
  · obtain ⟨rest, same⟩ := eq_of_isAbsolute (isAbsolute_of_anchor root)
    cases same
    simp at whole

/-- An extension is what follows the last dot of a file name, with something in front of the dot. -/
theorem extension?_eq_some_iff {path : Path} {extension : Bytes} :
    path.extension? = some extension ↔ ∃ stem, stem ≠ [] ∧ dot ∉ extension
      ∧ path.fileName? = some (stem ++ dot :: extension) := by
  unfold extension?
  cases path.fileName? with
  | none => simp
  | some name =>
    simp only [Option.bind_some, Option.some.injEq]
    by_cases dotted : dot ∈ name
    · -- Backwards, the name is cut at its first dot.
      obtain ⟨after, before, turned, absent⟩ :=
        List.eq_append_cons_of_mem (List.mem_reverse.mpr dotted)
      have whole : name = before.reverse ++ dot :: after.reverse := by
        rw [← List.reverse_reverse name, turned]
        simp
      have front : name.take (name.length - after.length - 1) = before.reverse := by
        rw [whole]
        apply List.take_left'
        simp only [List.length_append, List.length_cons, List.length_reverse]
        omega
      rw [turned, Text.takeWhile_ne_append_cons absent, List.length_reverse, front]
      constructor
      · intro found
        split at found
        · cases found
        · rename_i present
          obtain rfl := Option.some.inj found
          exact ⟨before.reverse, by simpa using present, by simpa using absent, whole⟩
      · rintro ⟨stem, present, missing, same⟩
        obtain ⟨rfl, rfl⟩ :=
          (Text.append_cons_inj_of_last (by simpa using absent) missing).mp (whole.symm.trans same)
        simpa using present
    · -- Without a dot all of the name would follow it, and nothing would be left in front.
      have all : name.reverse.takeWhile (· != dot) = name.reverse :=
        List.takeWhile_eq_self_iff.mpr (Text.bne_of_mem (by simpa using dotted))
      rw [all]
      constructor
      · simp
      · rintro ⟨stem, _, _, rfl⟩
        simp at dotted

end Path

/-- A file name in a known language is a stem, a dot, and an extension of the language. -/
theorem Language.exists_of_ofPath? {name : List Char} {language : Language} (whole : '/' ∉ name)
    (detected : ofPath? ⟨Utf8.encode name⟩ = some language) :
    ∃ stem extension, name = stem ++ '.' :: extension ∧ '.' ∉ extension
      ∧ ofExtension? (String.ofList extension) = some language := by
  obtain ⟨bytes, found, read⟩ := Option.bind_eq_some_iff.mp detected
  obtain ⟨extension, decoded, known⟩ := Option.bind_eq_some_iff.mp read
  obtain ⟨front, _, absent, named⟩ := Path.extension?_eq_some_iff.mp found
  -- Dots and slashes are bytes of their own, so they are in the bytes where they are in the text.
  have isPlain : Utf8.IsPlain slash ∧ Utf8.IsPlain dot := by decide
  have whole : slash ∉ Utf8.encode name := by
    rw [← Utf8.mem_decode_of_isPlain isPlain.1, Utf8.decode_encode]
    exact whole
  obtain rfl := Utf8.decode?_eq_some_iff.mp decoded
  have missing : '.' ∉ extension := by
    rw [← Utf8.mem_decode_of_isPlain isPlain.2, Utf8.decode_encode] at absent
    exact absent
  have same := Path.fileName?_of_not_mem whole named
  refine ⟨Utf8.decode front, extension, ?_, missing, known⟩
  calc name = Utf8.decode (Utf8.encode name) := (Utf8.decode_encode name).symm
    _ = Utf8.decode (front ++ dot :: Utf8.encode extension) := by rw [same]
    _ = Utf8.decode front ++ '.' :: Utf8.decode (Utf8.encode extension) :=
      Utf8.decode_append_cons isPlain.2 _ _
    _ = Utf8.decode front ++ '.' :: extension := by rw [Utf8.decode_encode]

section Ends

variable {word : String} {text stem : List Char}

/-- A text ends in a word if the word is a suffix of it. -/
theorem endsIn_iff : endsIn word text = true ↔ word.toList <:+ text :=
  List.isSuffixOf_iff_suffix

/-- A text starts with a word if the word is a prefix of it. -/
theorem startsWith_iff : startsWith word text = true ↔ word.toList <+: text :=
  List.isPrefixOf_iff_prefix

/-- A text without the word that it ends in is what stands in front of that word. -/
theorem withoutEnd?_eq_some_iff :
    withoutEnd? word text = some stem ↔ text = stem ++ word.toList := by
  unfold withoutEnd?
  split
  · rename_i ends
    obtain ⟨front, rfl⟩ := endsIn_iff.mp ends
    -- As many characters are cut off as the word has.
    rw [← String.length_toList, List.length_append, Nat.add_sub_cancel, List.take_left,
      Option.some.injEq, List.append_left_inj]
  · rename_i other
    constructor
    · intro found
      cases found
    · rintro rfl
      exact absurd (endsIn_iff.mpr (List.suffix_append stem word.toList)) other

end Ends

/-- How the names of tests end: the end of the stem, and the extension. -/
def testMarks : List (String × String) :=
  [("_test", "go"), ("_test", "rs"), ("_tests", "rs"), ("_test", "exs"), ("_test", "gleam"),
    (".test", "svelte"), (".test", "astro")]

/-- The extensions of scripts. -/
def scriptExtensions : List String :=
  ["js", "ts", "jsx", "tsx", "mjs", "cjs"]

/-- The extensions of modules. -/
def moduleExtensions : List String :=
  ["py", "zig", "mojo"]

section Parts

variable {name stem : List Char} {extension : String} (last : '.' ∉ extension.toList)

include last

/-- A stem and an extension end in a mark and an extension if these are the ends of both. -/
theorem any_endsIn_iff {marks : List (String × String)}
    (single : ∀ entry ∈ marks, '.' ∉ entry.2.toList) :
    (marks.map fun entry => entry.1 ++ "." ++ entry.2).any
        (endsIn · (stem ++ '.' :: extension.toList)) = true
      ↔ ∃ mark, (mark, extension) ∈ marks ∧ mark.toList <:+ stem := by
  have spelled : ∀ entry : String × String,
      (entry.1 ++ "." ++ entry.2).toList = entry.1.toList ++ '.' :: entry.2.toList := by simp
  simp only [List.any_map, List.any_eq_true, Function.comp_apply, endsIn_iff, spelled]
  -- The last dot of the name is the one in front of the extension.
  constructor
  · rintro ⟨⟨mark, known⟩, member, front, same⟩
    rw [← List.append_assoc, Text.append_cons_inj_of_last (single _ member) last,
      String.toList_inj] at same
    obtain ⟨ends, rfl⟩ := same
    exact ⟨mark, member, front, ends⟩
  · rintro ⟨mark, member, front, rfl⟩
    exact ⟨(mark, extension), member, front, (List.append_assoc _ _ _).symm⟩

/-- Without one of the known extensions, a stem is left where the extension is that one. -/
theorem any_withoutEnd?_iff {known : List String} (single : ∀ word ∈ known, '.' ∉ word.toList)
    {judge : List Char → Bool} :
    (known.map ("." ++ ·)).any
        (fun word => (withoutEnd? word (stem ++ '.' :: extension.toList)).any judge) = true
      ↔ extension ∈ known ∧ judge stem = true := by
  have spelled : ∀ word : String, ("." ++ word).toList = '.' :: word.toList := by simp
  simp only [List.any_map, List.any_eq_true, Function.comp_apply, Option.any_eq_true,
    withoutEnd?_eq_some_iff, spelled]
  -- The last dot of the name is the one in front of the extension.
  constructor
  · rintro ⟨word, member, front, same, judged⟩
    rw [Text.append_cons_inj_of_last last (single word member), String.toList_inj] at same
    exact ⟨same.2 ▸ member, same.1 ▸ judged⟩
  · rintro ⟨member, judged⟩
    exact ⟨extension, member, stem, rfl, judged⟩

/-- Whether a file holds tests goes by the stem of its name and by the extension. -/
theorem isTestFile_iff_parts (cut : Text.lower name = stem ++ '.' :: extension.toList) :
    isTestFile name = true ↔ (∃ mark, (mark, extension) ∈ testMarks ∧ mark.toList <:+ stem)
      ∨ extension ∈ scriptExtensions ∧ isScriptTest stem = true
      ∨ extension ∈ moduleExtensions ∧ isModuleTest stem = true := by
  -- The ends of names are put together from the marks and the extensions, which have no dot.
  have ends : testEnds = testMarks.map fun entry => entry.1 ++ "." ++ entry.2 := by decide
  have scripts : scriptEnds = scriptExtensions.map ("." ++ ·) := by decide
  have modules : moduleEnds = moduleExtensions.map ("." ++ ·) := by decide
  have marked : ∀ entry ∈ testMarks, '.' ∉ entry.2.toList := by decide
  have scriptPlain : ∀ known ∈ scriptExtensions, '.' ∉ known.toList := by decide
  have modulePlain : ∀ known ∈ moduleExtensions, '.' ∉ known.toList := by decide
  rw [isTestFile, cut, ends, scripts, modules, Bool.or_eq_true, Bool.or_eq_true, or_assoc,
    any_endsIn_iff last marked, any_withoutEnd?_iff last scriptPlain,
    any_withoutEnd?_iff last modulePlain]

end Parts

/-- The names that tests have in a language, by their stem and extension in lower case. -/
def Language.MarksTest (language : Language) (stem extension : List Char) : Prop :=
  match language with
  | .go | .gleam => "_test".toList <:+ stem
  | .rust => "_test".toList <:+ stem ∨ "_tests".toList <:+ stem
  | .javascript | .typescript | .tsx =>
    ".test".toList <:+ stem ∨ ".spec".toList <:+ stem ∨ "_test".toList <:+ stem
  | .python | .zig | .mojo => "test_".toList <+: stem ∨ "_test".toList <:+ stem
  | .elixir => extension = "exs".toList ∧ "_test".toList <:+ stem
  | .svelte | .astro => ".test".toList <:+ stem
  | .json | .css | .toml | .markdown => False

/-- The stem of a script is that of a test by one of three ends. -/
theorem isScriptTest_iff {stem : List Char} : isScriptTest stem = true
    ↔ ".test".toList <:+ stem ∨ ".spec".toList <:+ stem ∨ "_test".toList <:+ stem := by
  rw [isScriptTest, Bool.or_eq_true, Bool.or_eq_true, or_assoc, endsIn_iff, endsIn_iff, endsIn_iff]

/-- The stem of a module is that of a test by its start or its end. -/
theorem isModuleTest_iff {stem : List Char} :
    isModuleTest stem = true ↔ "test_".toList <+: stem ∨ "_test".toList <:+ stem := by
  rw [isModuleTest, Bool.or_eq_true, startsWith_iff, endsIn_iff]

/-- The only extension of a language that no name of a test ends in. -/
def unmarkedExtension : String := "🔥"

/-- For an extension of a language, the tables say what the language calls a test. -/
theorem marksTest_iff_parts {language : Language} {stem : List Char} {extension : String}
    (own : extension ∈ language.extensions) :
    ((∃ mark, (mark, extension) ∈ testMarks ∧ mark.toList <:+ stem)
      ∨ extension ∈ scriptExtensions ∧ isScriptTest stem = true
      ∨ extension ∈ moduleExtensions ∧ isModuleTest stem = true)
      ↔ language.MarksTest stem extension.toList ∧ extension ≠ unmarkedExtension := by
  rw [isScriptTest_iff, isModuleTest_iff]
  -- With the extension at hand, only the entries of the tables that have it are left.
  cases language with
  -- Three languages have more extensions than one.
  | javascript =>
    simp only [Language.extensions, List.mem_cons, List.not_mem_nil, or_false] at own
    rcases own with rfl | rfl | rfl <;>
      simp [testMarks, scriptExtensions, moduleExtensions, Language.MarksTest, unmarkedExtension]
  | elixir | markdown | mojo =>
    simp only [Language.extensions, List.mem_cons, List.not_mem_nil, or_false] at own
    rcases own with rfl | rfl <;>
      simp [testMarks, scriptExtensions, moduleExtensions, Language.MarksTest, unmarkedExtension]
  | _ =>
    simp only [Language.extensions, List.mem_singleton] at own
    subst own
    simp [testMarks, scriptExtensions, moduleExtensions, Language.MarksTest, unmarkedExtension]

section Lowered

/-- No other character becomes a dot in lower case. -/
theorem Text.eq_of_lowerChar_eq_dot {c : Char} (dotted : lowerChar c = '.') : c = '.' := by
  unfold lowerChar at dotted
  split at dotted
  · cases dotted
  · -- A capital becomes a small letter, and any other character stays what it is.
    unfold Char.toLower at dotted
    split at dotted
    · rename_i capital
      have value : (c.val + ('a'.val - 'A'.val)).toNat = 46 := congrArg (·.val.toNat) dotted
      have low : 65 ≤ c.val.toNat := UInt32.le_iff_toNat_le.mp capital.1
      have high : c.val.toNat ≤ 90 := UInt32.le_iff_toNat_le.mp capital.2
      have shift : ('a'.val - 'A'.val).toNat = 32 := rfl
      rw [UInt32.toNat_add, shift] at value
      omega
    · exact dotted

/-- Lowering a text without dots brings in none. -/
theorem Text.not_mem_lower {text : List Char} (absent : '.' ∉ text) : '.' ∉ lower text := by
  intro member
  obtain ⟨c, among, dotted⟩ := List.mem_map.mp member
  exact absent (eq_of_lowerChar_eq_dot dotted ▸ among)

/-- A language that is found for an extension has that extension, in small letters. -/
theorem Language.mem_extensions_of_ofExtension? {extension : String} {language : Language}
    (known : ofExtension? extension = some language) :
    String.ofList (Text.lower extension.toList) ∈ language.extensions := by
  unfold ofExtension? at known
  have listed := List.find?_some known
  simpa using listed

end Lowered

/--
A file in a known language is told to be a test exactly by the names that tests have there.

The stem and the extension are those of the name in lower case, cut at its last dot. One extension
of one language is left out: a file that ends in it is never told to be a test.
-/
theorem isTestFile_iff_marksTest {name : List Char} {language : Language} (whole : '/' ∉ name)
    (detected : Language.ofPath? ⟨Utf8.encode name⟩ = some language) :
    ∃ stem extension, Text.lower name = stem ++ '.' :: extension ∧ '.' ∉ extension
      ∧ (isTestFile name = true
        ↔ language.MarksTest stem extension ∧ extension ≠ unmarkedExtension.toList) := by
  obtain ⟨front, back, rfl, absent, known⟩ := Language.exists_of_ofPath? whole detected
  have own := Language.mem_extensions_of_ofExtension? known
  have last := Text.not_mem_lower absent
  have cut : Text.lower (front ++ '.' :: back) = Text.lower front ++ '.' :: Text.lower back := by
    simp [Text.lower, Text.lowerChar]
  refine ⟨Text.lower front, Text.lower back, cut, last, ?_⟩
  -- As a word, the extension can be looked up in the tables.
  generalize Text.lower front = stem, spelled : Text.lower back = extension at cut last
  rw [String.toList_ofList, spelled] at own
  obtain ⟨word, rfl⟩ : ∃ word : String, word.toList = extension := ⟨_, String.toList_ofList⟩
  rw [String.ofList_toList] at own
  rw [isTestFile_iff_parts last cut, marksTest_iff_parts own, ne_eq, ne_eq, String.toList_inj]

/-- Capitals make no difference, neither in the stem nor in the extension. -/
theorem isTestFile_iff_marksTest_capitals :
    Language.ofPath? ⟨Utf8.encode "Button.Test.TSX".toList⟩ = some .tsx
      ∧ isTestFile "Button.Test.TSX".toList = true := by
  have detected : Language.ofPath? ⟨Utf8.encode "Button.Test.TSX".toList⟩ = some .tsx := by decide
  have lowered : Text.lower "Button.Test.TSX".toList
      = "button.test".toList ++ '.' :: "tsx".toList := by
    decide
  obtain ⟨stem, extension, cut, last, judged⟩ := isTestFile_iff_marksTest (by decide) detected
  -- There is only one last dot, so the stem is the one in front of it.
  obtain ⟨rfl, rfl⟩ := (Text.append_cons_inj_of_last last (by decide)).mp (cut.symm.trans lowered)
  exact ⟨detected, judged.mpr ⟨.inl ⟨"button".toList, by decide⟩, by decide⟩⟩

/-- A name that tests have in its language is not told to be one, under the extension left out. -/
theorem exists_marksTest_not_isTestFile :
    ∃ name stem extension, '/' ∉ name ∧ Language.ofPath? ⟨Utf8.encode name⟩ = some .mojo
      ∧ Text.lower name = stem ++ '.' :: extension ∧ '.' ∉ extension
      ∧ Language.mojo.MarksTest stem extension ∧ isTestFile name = false :=
  ⟨"test_model.🔥".toList, "test_model".toList, "🔥".toList, by decide, by decide, by decide,
    by decide, .inl ⟨"model".toList, by decide⟩, by decide⟩

end Surface
