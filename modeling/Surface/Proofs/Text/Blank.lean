import Mathlib.Data.List.DropRight
import Surface.Text.Basic

/-! Trimming: what is left has no blank at either end and stood in the text as it is. -/

namespace Surface.Text

/-- A text with no blank at either end. -/
def IsTrimmed (text : List Char) : Prop :=
  (∀ c ∈ text.head?, isBlank c = false) ∧ ∀ c ∈ text.getLast?, isBlank c = false

instance : DecidablePred IsTrimmed :=
  fun text => inferInstanceAs (Decidable ((∀ c ∈ text.head?, isBlank c = false)
    ∧ ∀ c ∈ text.getLast?, isBlank c = false))

/--
What is left of a text when all characters of a class are taken off at both ends.

The text is what is left with nothing but such characters around it, and what is left has none of
them at its own ends.
-/
structure Strips (drop : Char → Bool) (text inner : List Char) : Prop where
  around : ∃ front back, text = front ++ inner ++ back
    ∧ (∀ c ∈ front, drop c = true) ∧ ∀ c ∈ back, drop c = true
  starts : ∀ c ∈ inner.head?, drop c = false
  ends : ∀ c ∈ inner.getLast?, drop c = false

/-- Cutting at the end leaves the front of a text. -/
theorem dropEndWhile_prefix (drop : Char → Bool) (text : List Char) :
    dropEndWhile drop text <+: text :=
  List.rdropWhile_prefix drop text

/-- What is left after cutting at both ends stood in the text in one piece. -/
theorem dropAround_infix (drop : Char → Bool) (text : List Char) :
    dropAround drop text <:+: text := by
  -- A front part of a back part lies somewhere in the middle.
  have front := dropEndWhile_prefix drop (text.dropWhile drop)
  have back : text.dropWhile drop <:+ text := List.dropWhile_suffix drop
  exact front.isInfix.trans back.isInfix

/-- What is left after cutting at both ends does not start with what is cut off. -/
theorem head?_dropAround {drop : Char → Bool} {text : List Char} {c : Char}
    (starts : c ∈ (dropAround drop text).head?) : drop c = false := by
  -- Cutting at the end leaves the first character alone, unless nothing is left.
  obtain ⟨cut, whole⟩ := dropEndWhile_prefix drop (text.dropWhile drop)
  have first : (text.dropWhile drop).head? = some c := by
    rw [← whole]
    change (dropAround drop text ++ cut).head? = some c
    rw [List.head?_append, starts, Option.some_or]
  have kept := List.head?_dropWhile_not drop text
  rw [first] at kept
  exact kept

/-- What is left after cutting at both ends does not end in what is cut off. -/
theorem getLast?_dropAround {drop : Char → Bool} {text : List Char} {c : Char}
    (ends : c ∈ (dropAround drop text).getLast?) : drop c = false := by
  -- The end is cut last, so nothing can come after that cut.
  obtain ⟨present, last⟩ := List.mem_getLast?_eq_getLast ends
  have kept : ¬ drop ((dropAround drop text).getLast present) = true :=
    List.rdropWhile_last_not drop (text.dropWhile drop) present
  rw [last]
  simpa using kept

/-- A trimmed text has no blank at either end. -/
theorem isTrimmed_trim (text : List Char) : IsTrimmed (trim text) :=
  ⟨fun _ starts => head?_dropAround starts, fun _ ends => getLast?_dropAround ends⟩

/-- What is put around a text from the class that is cut off makes no difference. -/
theorem dropAround_append {drop : Char → Bool} {front back : List Char}
    (before : ∀ c ∈ front, drop c = true) (after : ∀ c ∈ back, drop c = true) (text : List Char) :
    dropAround drop (front ++ text ++ back) = dropAround drop text := by
  unfold dropAround
  rw [List.append_assoc, List.dropWhile_append_of_pos before, List.dropWhile_append]
  split
  · -- Nothing of the text was left to keep what is behind it from being cut off in front.
    rename_i nothing
    rw [List.isEmpty_iff.mp nothing, List.dropWhile_eq_nil_iff.mpr after]
  · have turned : ∀ c ∈ back.reverse, drop c = true :=
      fun c member => after c (List.mem_reverse.mp member)
    rw [dropEndWhile, List.reverse_append, List.dropWhile_append_of_pos turned, dropEndWhile]

/-- A text with nothing to cut off at either end is left alone. -/
theorem dropAround_eq_self {drop : Char → Bool} {text : List Char}
    (starts : ∀ c ∈ text.head?, drop c = false) (ends : ∀ c ∈ text.getLast?, drop c = false) :
    dropAround drop text = text := by
  -- The first character stops the cut in front, and the last one the cut behind.
  have front : text.dropWhile drop = text := by
    rw [List.dropWhile_eq_self_iff]
    intro present
    simpa using starts _ (List.head?_eq_getElem? ▸ List.getElem?_eq_getElem present)
  have back : text.rdropWhile drop = text := by
    rw [List.rdropWhile_eq_self_iff]
    intro present
    simpa using ends _ (List.getLast?_eq_some_getLast present)
  rw [dropAround, front]
  exact back

/-- Around what is left after cutting at both ends stood nothing but what is cut off. -/
theorem exists_append_dropAround (drop : Char → Bool) (text : List Char) :
    ∃ front back, text = front ++ dropAround drop text ++ back
      ∧ (∀ c ∈ front, drop c = true) ∧ ∀ c ∈ back, drop c = true := by
  -- What is cut off at the end is what a search from there takes, turned around.
  let rest := text.dropWhile drop
  have turned : rest = dropAround drop text ++ (rest.reverse.takeWhile drop).reverse := by
    rw [dropAround, dropEndWhile, ← List.reverse_append, List.takeWhile_append_dropWhile,
      List.reverse_reverse]
  refine ⟨text.takeWhile drop, (rest.reverse.takeWhile drop).reverse, ?_, ?_, ?_⟩
  · rw [List.append_assoc, ← turned, List.takeWhile_append_dropWhile]
  · exact fun c member => List.mem_takeWhile_imp member
  · exact fun c member => List.mem_takeWhile_imp (List.mem_reverse.mp member)

/-- Cutting at both ends is the one way to take off all characters of the class there. -/
theorem strips_iff {drop : Char → Bool} {text inner : List Char} :
    Strips drop text inner ↔ inner = dropAround drop text := by
  -- What is left starts and ends with what is not cut off, so it cannot be cut further.
  constructor
  · intro strips
    obtain ⟨front, back, rfl, before, after⟩ := strips.around
    rw [dropAround_append before after, dropAround_eq_self strips.starts strips.ends]
  · intro same
    subst same
    exact ⟨exists_append_dropAround drop text, fun _ => head?_dropAround,
      fun _ => getLast?_dropAround⟩

/-- Trimming takes off the blanks at both ends. -/
theorem strips_trim (text : List Char) : Strips isBlank text (trim text) :=
  strips_iff.mpr rfl

/-- A blank at the end of a text is trimmed away. -/
theorem trim_concat {c : Char} (blank : isBlank c = true) (text : List Char) :
    trim (text ++ [c]) = trim text := by
  have front : ∀ other ∈ ([] : List Char), isBlank other = true := by simp
  have back : ∀ other ∈ [c], isBlank other = true := by simpa using blank
  exact dropAround_append front back text

/-- What is not cut off is not lost. -/
theorem countP_dropAround {drop kept : Char → Bool} (apart : ∀ c, drop c = true → kept c = false)
    (text : List Char) : (dropAround drop text).countP kept = text.countP kept := by
  -- At the front first, and at the end by going backwards.
  have front : ∀ items : List Char, (items.dropWhile drop).countP kept = items.countP kept := by
    intro items
    have missing : (items.takeWhile drop).countP kept = 0 := by
      rw [List.countP_eq_zero]
      intro c member
      simp [apart c (List.mem_takeWhile_imp member)]
    have whole : (items.takeWhile drop ++ items.dropWhile drop).countP kept
        = items.countP kept := by
      rw [List.takeWhile_append_dropWhile]
    rwa [List.countP_append, missing, Nat.zero_add] at whole
  rw [dropAround, dropEndWhile, List.countP_reverse, front, List.countP_reverse, front]

/-- A trimmed text stood in the text as it is. -/
theorem trim_infix (text : List Char) : trim text <:+: text :=
  dropAround_infix isBlank text

end Surface.Text
