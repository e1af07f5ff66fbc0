import Surface.Json.Quoted

/-! Text between quotation marks stands for the characters it was written for. -/

namespace Surface.Quoted

/-- A digit has the value it was written for. -/
theorem hexValue?_hexDigit {value : Nat} (small : value < 16) :
    hexValue? (hexDigit value) = some value := by
  -- There are sixteen digits to look at.
  revert value
  decide

/--
How a character is written between quotation marks.

It stands behind a backslash, or in four digits of which the first two are zero, or as it is.
-/
theorem encodeChar_cases (c : Char) :
    (∃ mark, short? mark = some c ∧ encodeChar c = ['\\', mark])
      ∨ (∃ high low, hexValue? high = some (c.toNat / 16) ∧ hexValue? low = some (c.toNat % 16)
        ∧ c.toNat < 0x20 ∧ encodeChar c = ['\\', 'u', '0', '0', high, low])
      ∨ (c ≠ '"' ∧ c ≠ '\\' ∧ 0x20 ≤ c.toNat ∧ encodeChar c = [c]) := by
  unfold encodeChar
  split
  -- Seven characters have a letter or mark of their own.
  · exact .inl ⟨'"', rfl, rfl⟩
  · exact .inl ⟨'\\', rfl, rfl⟩
  · exact .inl ⟨'b', rfl, rfl⟩
  · exact .inl ⟨'t', rfl, rfl⟩
  · exact .inl ⟨'n', rfl, rfl⟩
  · exact .inl ⟨'f', rfl, rfl⟩
  · exact .inl ⟨'r', rfl, rfl⟩
  · rename_i notQuote notBackslash _ _ _ _ _
    by_cases control : c.toNat < 0x20
    · have high := hexValue?_hexDigit (show c.toNat / 16 < 16 by omega)
      have low := hexValue?_hexDigit (show c.toNat % 16 < 16 by omega)
      exact .inr (.inl ⟨_, _, high, low, control, if_pos control⟩)
    · exact .inr (.inr ⟨notQuote, notBackslash, by omega, if_neg control⟩)

/-- A character other than the backslash stands for itself. -/
theorem decode_plain {c : Char} (plain : c ≠ '\\') (rest : List Char) :
    decode (c :: rest) = (decode rest).map (c :: ·) := by
  rw [decode.eq_def]
  split <;> simp_all

/-- A backslash and a mark stand for the character that the mark is short for. -/
theorem decode_short {mark c : Char} (found : short? mark = some c) (rest : List Char) :
    decode ('\\' :: mark :: rest) = (decode rest).map (c :: ·) := by
  -- The letter of longer escapes is none of the marks.
  unfold short? at found
  split at found <;> cases found <;> rfl

/-- Four digits stand for a character if they are below the surrogates. -/
theorem decode_unit {a b c d : Char} {unit : Nat} (found : unit? a b c d = some unit)
    (low : unit < 0xD800) (rest : List Char) :
    decode ('\\' :: 'u' :: a :: b :: c :: d :: rest)
      = (decode rest).map (Char.ofNat unit :: ·) := by
  -- Below the surrogates, four digits stand for a character of their own.
  have notLeading : isLeading unit = false := by simp [isLeading]; omega
  have notTrailing : isTrailing unit = false := by simp [isTrailing]; omega
  rw [decode]
  simp [found, notLeading, notTrailing]

/-- A written character is read first, whatever follows it. -/
theorem decode_encodeChar_append (c : Char) (rest : List Char) :
    decode (encodeChar c ++ rest) = (decode rest).map (c :: ·) := by
  -- A character is written with a mark, with four digits or as it is.
  rcases encodeChar_cases c with ⟨mark, short, written⟩ | ⟨high, low, first, second, small, written⟩
    | ⟨_, plain, _, written⟩
  · rw [written]
    exact decode_short short rest
  · have unit : unit? '0' '0' high low = some c.toNat := by
      have zero : hexValue? '0' = some 0 := by decide
      simp only [unit?, first, second, zero, Option.pure_def, Option.bind_eq_bind,
        Option.bind_some, Option.some.injEq]
      omega
    rw [written]
    refine (decode_unit unit (by omega) rest).trans ?_
    rw [Char.ofNat_toNat]
  · rw [written]
    exact decode_plain plain rest

/-- Every text is read back from the way it is written. -/
theorem decode_encode (text : List Char) : decode (encode text) = some text := by
  -- By induction over the text: each character is read first, and then the others.
  induction text with
  | nil => rfl
  | cons c text ih =>
    have split : encode (c :: text) = encodeChar c ++ encode text := List.flatMap_cons
    rw [split, decode_encodeChar_append, ih]
    rfl

end Surface.Quoted
