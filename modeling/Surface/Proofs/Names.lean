import Surface.Symbol.Basic

/-!
Looking things up: what is found by a key is what the table lists for it, and the names of
languages and the words for kinds of symbols stand for one thing each.
-/

namespace Surface

section Table

variable {κ ν : Type} [BEq κ] [LawfulBEq κ] {table : List (κ × ν)} {key : κ} {value : ν}

/-- What is looked up is listed under its key. -/
theorem mem_of_lookup (found : table.lookup key = some value) : (key, value) ∈ table := by
  -- The table is cut where the key was found.
  obtain ⟨front, back, same, _⟩ := List.lookup_eq_some_iff.mp found
  simp [same]

/-- Where keys are distinct, each value is the one that its key is looked up as. -/
theorem lookup_of_mem (distinct : (table.map Prod.fst).Nodup) (member : (key, value) ∈ table) :
    table.lookup key = some value := by
  -- Nothing in front of the entry has the same key.
  obtain ⟨front, back, rfl⟩ := List.append_of_mem member
  refine List.lookup_eq_some_iff.mpr ⟨front, back, rfl, ?_⟩
  intro other among
  simp only [List.map_append, List.map_cons, List.nodup_append, List.mem_map] at distinct
  have differs := distinct.2.2 other.1 ⟨other, among, rfl⟩ key (by simp)
  simpa using Ne.symm differs

end Table

/-- The name of a language is made of plain letters. -/
theorem Language.isAlpha_of_mem_name {language : Language} {c : Char}
    (member : c ∈ language.name.toList) : c.isAlpha := by
  -- There are as many names as languages, and each is read letter by letter.
  have letters : language.name.toList.all Char.isAlpha = true := by
    cases language <;> decide
  exact List.all_eq_true.mp letters c member

/-- A language is found by its name. -/
theorem Language.ofName?_name (language : Language) : ofName? language.name = some language := by
  cases language <;> rfl

/-- The word for a kind of symbol is made of plain letters. -/
theorem Kind.isAlpha_of_mem_name {kind : Kind} {c : Char} (member : c ∈ kind.name.toList) :
    c.isAlpha := by
  -- As for languages, word by word and letter by letter.
  have letters : kind.name.toList.all Char.isAlpha = true := by
    cases kind <;> decide
  exact List.all_eq_true.mp letters c member

/-- A kind of symbol is found by its word. -/
theorem Kind.ofName?_name (kind : Kind) : ofName? kind.name = some kind := by
  cases kind <;> rfl

end Surface
