import Surface.Proofs.Json.Reader

/-! Texts, numbers and records: the values they are written as are well spelled and read back. -/

namespace Surface.Json

section Texts

/-- A text is written as a well-spelled string. -/
theorem spelled_ofString (text : String) : (ofString text).Spelled :=
  .string (isLiteral_encode _)

/-- A text is read back from its string. -/
theorem string?_ofString (text : String) : (ofString text).string? = some text := by
  simp [ofString, string?, Quoted.decode_encode]

/-- The name of a variant is read back from its string. -/
theorem variant?_ofString (text : String) : (ofString text).variant? = some text :=
  string?_ofString text

/-- A text that may be absent is never taken for one that is null. -/
theorem optional?_ofString (text : Option String) :
    optional? string? (text.map ofString) = some text := by
  -- A string is not null, so it is read as one.
  cases text with
  | none => rfl
  | some text =>
    have present : optional? string? (some (ofString text)) = (ofString text).string?.map some :=
      rfl
    rw [Option.map_some, present, string?_ofString, Option.map_some]

end Texts

section Numbers

/-- The digits of a natural number are digits. -/
theorem isDigit_of_isNatural {literal : List Char} (natural : isNatural literal = true) :
    ∀ c ∈ literal, c.isDigit = true := by
  -- Zero is its one digit, and any other number is made of digits by what it is.
  simp only [isNatural, Bool.or_eq_true, beq_iff_eq, Bool.and_eq_true] at natural
  rcases natural with zero | ⟨_, digits⟩
  · rw [zero]
    exact List.all_eq_true.mp rfl
  · exact List.all_eq_true.mp digits

/-- Digits are a whole number unless the first one is a zero. -/
theorem isWhole_cons {first : Char} (positive : first ≠ '0') (rest : List Char) :
    isWhole (first :: rest) = true := by
  unfold isWhole
  split <;> simp_all

/-- A natural number is its own whole part, and nothing follows it. -/
theorem isNumber_of_isNatural {literal : List Char} (natural : isNatural literal = true) :
    isNumber literal = true := by
  have digits := isDigit_of_isNatural natural
  have taken : (literal ++ []).takeWhile Char.isDigit = literal ++ [] :=
    List.takeWhile_append_of_pos digits
  have left : (literal ++ []).dropWhile Char.isDigit = [] :=
    List.dropWhile_append_of_pos digits
  rw [List.append_nil] at taken left
  simp only [isNatural, Bool.or_eq_true, beq_iff_eq, Bool.and_eq_true] at natural
  rcases natural with zero | ⟨⟨present, positive⟩, _⟩
  · rw [zero]
    rfl
  · cases literal with
    | nil => cases present
    | cons first rest =>
      -- The first character is a digit, so no sign is cut off.
      have unsigned : isNumber (first :: rest)
          = (isWhole ((first :: rest).takeWhile Char.isDigit)
            && isFraction ((first :: rest).dropWhile Char.isDigit)) := by
        have notSign : first ≠ '-' := by
          rintro rfl
          exact absurd (digits '-' (by simp)) (by decide)
        unfold isNumber
        split <;> simp_all
      rw [unsigned, taken, left, isWhole_cons (by simpa using positive)]
      rfl

/-- A natural number is no word. -/
theorem atom?_of_isNatural {literal : List Char} (natural : isNatural literal = true) :
    atom? literal = some (.number literal) := by
  -- The three words are no natural numbers, so the literal is none of them.
  have notWord : ∀ word : List Char, isNatural word = false → literal ≠ word := by
    rintro word notNatural rfl
    rw [natural] at notNatural
    cases notNatural
  simp [atom?, notWord _ (show isNatural ['n', 'u', 'l', 'l'] = false by decide),
    notWord _ (show isNatural ['t', 'r', 'u', 'e'] = false by decide),
    notWord _ (show isNatural ['f', 'a', 'l', 's', 'e'] = false by decide),
    isNumber_of_isNatural natural]

/-- A natural number is well spelled. -/
theorem spelled_of_isNatural {literal : List Char} (natural : isNatural literal = true) :
    (Json.number literal).Spelled := by
  -- Digits are among the characters that a number is gathered from.
  have present : literal ≠ [] := by
    rintro rfl
    cases natural
  refine .number (atom?_of_isNatural natural) present fun c member => ?_
  simp [isRun, Char.isAlphanum, isDigit_of_isNatural natural c member]

/-- Only zero is written with a zero in front. -/
theorem head?_toDigits {n : Nat} (positive : 0 < n) : (Nat.toDigits 10 n).head? ≠ some '0' := by
  induction n using Nat.strongRecOn with
  | ind n ih =>
    rcases Nat.lt_or_ge n 10 with small | large
    · rw [Nat.toDigits_of_lt_base small]
      intro zero
      -- The digit of a number comes that many places after zero.
      have place := Nat.toNat_digitChar_of_lt_ten small
      rw [Option.some.inj zero] at place
      simp only [Char.reduceToNat] at place
      omega
    · -- The digits in front are those of the tenth part, which is not zero either.
      have front : (Nat.toDigits 10 (n / 10)).head?.isSome = true := by
        simp [Nat.toDigits_ne_nil]
      rw [Nat.toDigits_of_base_le (by decide) large, List.head?_append, Option.or_of_isSome front]
      exact ih (n / 10) (by omega) (by omega)

/-- The digits of a number are a natural number as it is written. -/
theorem isNatural_toDigits (n : Nat) : isNatural (Nat.toDigits 10 n) = true := by
  -- Zero is written by itself, and any other number without a zero in front.
  rcases Nat.eq_zero_or_pos n with zero | positive
  · rw [zero]
    rfl
  · have digits : (Nat.toDigits 10 n).all Char.isDigit = true :=
      List.all_eq_true.mpr fun _ member =>
        Nat.isDigit_of_mem_toDigits (by decide) (by decide) member
    simp [isNatural, head?_toDigits positive, digits, Nat.toDigits_ne_nil]

/-- A number is written as a well-spelled value. -/
theorem spelled_ofNat (n : Nat) : (ofNat n).Spelled :=
  spelled_of_isNatural (isNatural_toDigits n)

/-- A number that fits is read as itself. -/
theorem nat?_ofNat {n : Nat} (fits : n < wordBound) : (ofNat n).nat? = some n := by
  have valued : ofDigits (Nat.toDigits 10 n) = n := by
    -- The library multiplies from the other side.
    simpa only [ofDigits, Nat.ofDigitChars, Nat.mul_comm 10]
      using @Nat.ofDigitChars_ten_toDigits n
  simp [ofNat, nat?, isNatural_toDigits, valued, fits]

/-- Every number that is read fits. -/
theorem nat?_lt_wordBound {value : Json} {n : Nat} (found : value.nat? = some n) :
    n < wordBound := by
  -- Only a literal whose value is below the bound is taken as a number.
  cases value with
  | number literal =>
    simp only [nat?] at found
    split at found
    · rename_i fits
      simp only [Bool.and_eq_true, decide_eq_true_eq] at fits
      exact Option.some.inj found ▸ fits.2
    · cases found
  | _ => cases found

end Numbers

section Records

/-- An object is well spelled if its values are: its keys are written as texts are. -/
theorem spelled_ofFields {fields : List (String × Json)}
    (values : ∀ field ∈ fields, field.2.Spelled) : (ofFields fields).Spelled := by
  -- A member has the key and the value of a field.
  refine .object ?_ ?_
  · intro member among
    obtain ⟨field, _, same⟩ := List.mem_map.mp among
    rw [← same]
    exact isLiteral_encode _
  · intro member among
    obtain ⟨field, present, same⟩ := List.mem_map.mp among
    rw [← same]
    exact values field present

/-- The fields of an object are read back from its members. -/
theorem members?_ofFields (fields : List (String × Json)) :
    (ofFields fields).members? = some fields := by
  -- Field by field, the key is decoded from the way it is written.
  induction fields with
  | nil => rfl
  | cons field fields ih =>
    simp only [ofFields, members?, List.map_cons, List.mapM_cons] at ih ⊢
    simp [Quoted.decode_encode, ih]

/-- A record is read field by field, each by its name. -/
theorem record?_ofFields (names : List String) (fields : List (String × Json)) :
    (ofFields fields).record? names = names.mapM (field? fields) := by
  rw [ofFields, record?, ← ofFields, members?_ofFields, Option.bind_some]
  -- An object is no array, which would be read by position.
  nofun

end Records

end Surface.Json
