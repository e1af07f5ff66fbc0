import Surface.Proofs.FileSystem.Lookup
import Surface.Proofs.Grammar.Session

/-!
Tables of loaded libraries over files that do not change.
What a call adds to a table is what the next call would load anyway, so no answer tells the table
after some calls from the one before them.
-/

namespace Surface

namespace Loaded

/-- Tables that give the same answer to every request for a grammar. -/
def Alike (fs : FileSystem) (one other : Loaded) : Prop :=
  ∀ config language, (one.resolve fs config language).1 = (other.resolve fs config language).1

variable {fs : FileSystem}

/-- A table is alike to itself. -/
theorem Alike.refl (loaded : Loaded) : Alike fs loaded loaded :=
  fun _ _ => rfl

/-- Tables are alike either way. -/
theorem Alike.symm {one other : Loaded} (alike : Alike fs one other) : Alike fs other one :=
  fun config language => (alike config language).symm

/-- Tables that are alike to one table are alike to each other. -/
theorem Alike.trans {first second third : Loaded} (one : Alike fs first second)
    (two : Alike fs second third) : Alike fs first third :=
  fun config language => (one config language).trans (two config language)

/-- What loading adds for a path that leads to a file is the grammar of that file. -/
theorem image_of_grammarFor? {library path : Path} {grammar : Grammar} {file : File}
    (adds : fs.grammarFor? library path = some grammar) (held : fs.file? path = some file) :
    file.image = .grammar grammar := by
  unfold FileSystem.grammarFor? at adds
  simp only [Option.ite_none_right_eq_some] at adds
  obtain ⟨same, found⟩ := adds
  obtain ⟨other, loaded, holds⟩ := Option.bind_eq_some_iff.mp found
  -- The library may be spelled in another way, but it is the same file.
  rw [FileSystem.file?_eq_of_components same held loaded]
  unfold File.grammar? at holds
  split at holds
  · rename_i image
    rw [image, Option.some.inj holds]
  · cases holds

/-- A request leaves a table behind that answers like the one it found. -/
theorem alike_resolve (loaded : Loaded) (fs : FileSystem) (config : Config) (language : Language) :
    Alike fs loaded (loaded.resolve fs config language).2 := by
  intro elsewhere asked
  cases source : asked.grammarSource with
  | bundled grammar => simp [resolve, source]
  | runtime name =>
    cases found : elsewhere.library? fs name with
    | none => rw [resolve_of_absent source found, resolve_of_absent source found]
    | some library =>
      obtain ⟨file, held, before⟩ := loaded.resolve_answer source found
      obtain ⟨again, alsoHeld, after⟩ :=
        (loaded.resolve fs config language).2.resolve_answer source found
      obtain rfl : file = again := Option.some.inj (held.symm.trans alsoHeld)
      rw [before, after, get?_resolve]
      cases loaded.get? library with
      | some grammar => rfl
      | none =>
        -- Only a gap can have been filled, and then with what the file holds.
        cases adds : (language.library? config fs).bind (fs.grammarFor? · library) with
        | none => rfl
        | some grammar =>
          obtain ⟨other, _, filled⟩ := Option.bind_eq_some_iff.mp adds
          rw [image_of_grammarFor? filled held]
          rfl

end Loaded

namespace Setting

variable (setting : Setting)

/-- Alike tables make the same of a source. -/
theorem extract_eq_of_alike {one other : Loaded} (alike : Loaded.Alike setting.fs one other)
    (source : Bytes) (language : Language) :
    (setting.extract one source language).1 = (setting.extract other source language).1 := by
  -- Both tables find a grammar or both do not, and the same one.
  have same := alike setting.config language
  rcases first : one.resolve setting.fs setting.config language with ⟨error | grammar, after⟩ <;>
    rcases second : other.resolve setting.fs setting.config language with ⟨fault | found, later⟩ <;>
    rw [first, second] at same
  · rw [extract_of_error first, extract_of_error second]
    exact congrArg Except.error (Except.error.inj same)
  · cases same
  · cases same
  · cases same
    rw [extract_of_ok first, extract_of_ok second]

/-- Extraction leaves an alike table behind. -/
theorem alike_extract (loaded : Loaded) (source : Bytes) (language : Language) :
    Loaded.Alike setting.fs loaded (setting.extract loaded source language).2 := by
  rw [extract_loaded]
  exact loaded.alike_resolve setting.fs setting.config language

end Setting

namespace Session

end Session

end Surface
