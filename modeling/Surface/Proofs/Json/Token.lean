import Surface.Json.Token
import Surface.Json.Writer
import Surface.Proofs.Json.Quoted

/-! The tokens of a value on one line: the scanner finds them, each where the writer put it. -/

namespace Surface.Json

mutual

/-- The tokens that a value is written in. -/
def tokens : Json → List Token
  | .null => [.atom .null]
  | .bool value => [.atom (.bool value)]
  | .number literal => [.atom (.number literal)]
  | .string literal => [.quoted literal]
  | .array items => .openArray :: (itemTokens items ++ [.closeArray])
  | .object members => .openObject :: (memberTokens members ++ [.closeObject])

/-- The tokens of values with commas between them. -/
def itemTokens : List Json → List Token
  | [] => []
  | [item] => tokens item
  | item :: rest => tokens item ++ .comma :: itemTokens rest

/-- The tokens of keys and values with commas between them. -/
def memberTokens : List (List Char × Json) → List Token
  | [] => []
  | [(key, value)] => .quoted key :: .colon :: tokens value
  | (key, value) :: rest =>
    .quoted key :: .colon :: (tokens value ++ .comma :: memberTokens rest)

end

namespace Scanner

/-- The tokens of a text, when some of it has been scanned already. -/
def scan (scanner : Scanner) (text : List Char) : Option (List Token) :=
  (text.foldlM step scanner).bind finish

/-- The scanner takes one character and goes on with the others. -/
theorem scan_cons (scanner : Scanner) (c : Char) (text : List Char) :
    scanner.scan (c :: text) = (scanner.step c).bind fun next => next.scan text := by
  simp only [scan, List.foldlM_cons, Option.bind_eq_bind, Option.bind_assoc]

/-- After a character that the scanner takes, it goes on from where that leaves it. -/
theorem scan_of_step {scanner next : Scanner} {c : Char} (taken : scanner.step c = some next)
    (text : List Char) : scanner.scan (c :: text) = next.scan text := by
  rw [scan_cons, taken, Option.bind_some]

end Scanner

section Marks

/-- A character that is a token by itself is found between tokens. -/
theorem scan_mark {c : Char} {token : Token} (found : Token.ofChar? c = some token)
    (before : List Token) (rest : List Char) :
    Scanner.scan ⟨before, .gap⟩ (c :: rest) = Scanner.scan ⟨token :: before, .gap⟩ rest := by
  refine Scanner.scan_of_step ?_ rest
  -- None of these characters is a space, a quotation mark or part of a word.
  unfold Token.ofChar? at found
  split at found <;> cases found <;> rfl

/-- A character that is a token by itself is part of no word. -/
theorem isRun_mark {c : Char} {token : Token} (found : Token.ofChar? c = some token) :
    isRun c = false := by
  -- There are six such characters, and none is a letter, a digit or a sign.
  unfold Token.ofChar? at found
  split at found <;> cases found <;> rfl

end Marks

section Strings

/-- Text that the scanner passes over between quotation marks, as it is. -/
def IsLiteral (literal : List Char) : Prop :=
  ∀ before text rest, Scanner.scan ⟨before, .quoted text⟩ (literal ++ rest)
    = Scanner.scan ⟨before, .quoted (literal.reverse ++ text)⟩ rest

/-- Nothing at all is passed over. -/
theorem IsLiteral.nil : IsLiteral [] := fun _ _ _ => rfl

/-- One text after another is passed over if both are. -/
theorem IsLiteral.append {front back : List Char} (first : IsLiteral front)
    (second : IsLiteral back) : IsLiteral (front ++ back) := by
  -- What is kept of the first text lies below what is kept of the second.
  intro before text rest
  rw [List.append_assoc, first, second, List.reverse_append, List.append_assoc]

/-- A digit of an escape leaves one digit less to come. -/
theorem scan_hexDigit {c : Char} {value : Nat} (digit : Quoted.hexValue? c = some value)
    (missing : Nat) (before : List Token) (text rest : List Char) :
    Scanner.scan ⟨before, .hex (missing + 2) text⟩ (c :: rest)
      = Scanner.scan ⟨before, .hex (missing + 1) (c :: text)⟩ rest := by
  refine Scanner.scan_of_step ?_ rest
  simp [Scanner.step, digit]

/-- With the last digit of an escape, the string goes on. -/
theorem scan_hexDigit_last {c : Char} {value : Nat} (digit : Quoted.hexValue? c = some value)
    (before : List Token) (text rest : List Char) :
    Scanner.scan ⟨before, .hex 1 text⟩ (c :: rest)
      = Scanner.scan ⟨before, .quoted (c :: text)⟩ rest := by
  refine Scanner.scan_of_step ?_ rest
  simp [Scanner.step, digit]

/-- A written character is passed over, with its escape if it has one. -/
theorem isLiteral_encodeChar (c : Char) : IsLiteral (Quoted.encodeChar c) := by
  intro before text rest
  rcases Quoted.encodeChar_cases c with ⟨mark, short, written⟩
    | ⟨high, low, first, second, _, written⟩ | ⟨notQuote, notBackslash, printable, written⟩
  · -- The mark after a backslash is one that the scanner knows, and it is not the letter `u`.
    have known : (Quoted.short? mark).isSome = true := by rw [short]; rfl
    have notLong : mark ≠ 'u' := by
      rintro rfl
      cases short
    rw [written]
    refine (Scanner.scan_of_step rfl _).trans (Scanner.scan_of_step ?_ rest)
    simp [Scanner.step, notLong, known]
  · -- The letter `u` asks for four digits, and the last of them ends the escape.
    have zero : Quoted.hexValue? '0' = some 0 := by decide
    rw [written]
    calc Scanner.scan ⟨before, .quoted text⟩ ('\\' :: 'u' :: '0' :: '0' :: high :: low :: rest)
        = Scanner.scan ⟨before, .hex 4 ('u' :: '\\' :: text)⟩ ('0' :: '0' :: high :: low :: rest) :=
          (Scanner.scan_of_step rfl _).trans (Scanner.scan_of_step rfl _)
      _ = Scanner.scan ⟨before, .hex 2 ('0' :: '0' :: 'u' :: '\\' :: text)⟩ (high :: low :: rest) :=
          (scan_hexDigit zero 2 _ _ _).trans (scan_hexDigit zero 1 _ _ _)
      _ = Scanner.scan ⟨before, .quoted (low :: high :: '0' :: '0' :: 'u' :: '\\' :: text)⟩ rest :=
          (scan_hexDigit first 0 _ _ _).trans (scan_hexDigit_last second _ _ _)
  · rw [written]
    refine Scanner.scan_of_step ?_ rest
    simp [Scanner.step, notQuote, notBackslash, Nat.not_lt.mpr printable]

/-- A written text is passed over. -/
theorem isLiteral_encode (text : List Char) : IsLiteral (Quoted.encode text) := by
  -- Character by character, each with its escape.
  induction text with
  | nil => exact .nil
  | cons c text ih =>
    have split : Quoted.encode (c :: text) = Quoted.encodeChar c ++ Quoted.encode text :=
      List.flatMap_cons
    rw [split]
    exact (isLiteral_encodeChar c).append ih

/-- A string in its quotation marks is one token. -/
theorem scan_quote {literal : List Char} (plain : IsLiteral literal) (before : List Token)
    (rest : List Char) :
    Scanner.scan ⟨before, .gap⟩ (quote literal ++ rest)
      = Scanner.scan ⟨.quoted literal :: before, .gap⟩ rest := by
  have split : quote literal ++ rest = '"' :: (literal ++ '"' :: rest) := by
    simp only [quote, List.cons_append, List.append_assoc, List.nil_append]
  rw [split]
  refine (Scanner.scan_of_step rfl _).trans ((plain before [] _).trans ?_)
  -- The text was kept last character first, and the second mark turns it around.
  refine Scanner.scan_of_step ?_ rest
  simp [Scanner.step]

end Strings

section Words

/-- Text that ends a number or a word in front of it. -/
def Ends (rest : List Char) : Prop :=
  ∀ c ∈ rest.head?, isRun c = false

/-- The end of the text ends a word. -/
theorem ends_nil : Ends [] := by simp [Ends]

/-- A character that is a token by itself ends a word. -/
theorem ends_mark {c : Char} {token : Token} (found : Token.ofChar? c = some token)
    (rest : List Char) : Ends (c :: rest) := by
  simpa [Ends] using isRun_mark found

/-- The letters and digits of a word are gathered one by one. -/
theorem scan_run {word : List Char} (letters : ∀ c ∈ word, isRun c = true) (before : List Token)
    (text rest : List Char) :
    Scanner.scan ⟨before, .run text⟩ (word ++ rest)
      = Scanner.scan ⟨before, .run (word.reverse ++ text)⟩ rest := by
  -- By induction over the letters, which are kept with the last one on top.
  induction word generalizing text with
  | nil => rfl
  | cons c word ih =>
    have letter := letters c (by simp)
    have others : ∀ c ∈ word, isRun c = true := fun c member => letters c (by simp [member])
    calc Scanner.scan ⟨before, .run text⟩ (c :: (word ++ rest))
        = Scanner.scan ⟨before, .run (c :: text)⟩ (word ++ rest) :=
          Scanner.scan_of_step (by simp [Scanner.step, letter]) _
      _ = Scanner.scan ⟨before, .run (word.reverse ++ c :: text)⟩ rest := ih others _
      _ = Scanner.scan ⟨before, .run ((c :: word).reverse ++ text)⟩ rest := by simp

/-- Between tokens, a letter or digit starts a word: it is no space and no quotation mark. -/
theorem step_run {c : Char} (letter : isRun c = true) (before : List Token) :
    Scanner.step ⟨before, .gap⟩ c = some ⟨before, .run [c]⟩ := by
  -- The four spaces and the quotation mark are no letters.
  have notSpace : isSpace c = false := by
    refine Bool.eq_false_iff.mpr fun space => ?_
    simp only [isSpace, Bool.or_eq_true, beq_iff_eq] at space
    rcases space with ((rfl | rfl) | rfl) | rfl <;> exact absurd letter (by decide)
  have notQuote : c ≠ '"' := by
    rintro rfl
    exact absurd letter (by decide)
  simp [Scanner.step, Scanner.start, notSpace, notQuote, letter]

/-- A word that is over is one token. -/
theorem scan_atom {word : List Char} {value : Json} (found : atom? word = some value)
    (present : word ≠ []) (letters : ∀ c ∈ word, isRun c = true) (before : List Token)
    {rest : List Char} (ends : Ends rest) :
    Scanner.scan ⟨before, .gap⟩ (word ++ rest)
      = Scanner.scan ⟨.atom value :: before, .gap⟩ rest := by
  -- Gathered up to its last letter, the word waits for what ends it.
  have gathered : Scanner.scan ⟨before, .gap⟩ (word ++ rest)
      = Scanner.scan ⟨before, .run word.reverse⟩ rest := by
    cases word with
    | nil => exact absurd rfl present
    | cons c word =>
      have letter := letters c (by simp)
      have others : ∀ c ∈ word, isRun c = true := fun c member => letters c (by simp [member])
      rw [List.cons_append, Scanner.scan_of_step (step_run letter before), scan_run others,
        List.reverse_cons]
  rw [gathered]
  -- That is the end of the text or a character that would start the next token anyway.
  cases rest with
  | nil => simp [Scanner.scan, Scanner.finish, found]
  | cons c rest =>
    have other : isRun c = false := ends c rfl
    rw [Scanner.scan_cons, Scanner.scan_cons]
    simp [Scanner.step, other, found]

end Words

/-- A value whose literals are spelled as the scanner expects them. -/
inductive Spelled : Json → Prop where
  | null : Spelled .null
  | bool (value : Bool) : Spelled (.bool value)
  | number {literal : List Char} : atom? literal = some (.number literal) → literal ≠ [] →
    (∀ c ∈ literal, isRun c = true) → Spelled (.number literal)
  | string {literal : List Char} : IsLiteral literal → Spelled (.string literal)
  | array {items : List Json} : (∀ item ∈ items, Spelled item) → Spelled (.array items)
  | object {members : List (List Char × Json)} : (∀ member ∈ members, IsLiteral member.1) →
    (∀ member ∈ members, Spelled member.2) → Spelled (.object members)

/-- The tokens of a value on one line are found, whatever ends the value. -/
def Scans (value : Json) : Prop :=
  ∀ before {rest}, Ends rest → Scanner.scan ⟨before, .gap⟩ (value.compactText ++ rest)
    = Scanner.scan ⟨value.tokens.reverse ++ before, .gap⟩ rest

/-- The items of an array are found one after the other, with commas between them. -/
theorem scan_compactItems {items : List Json} (each : ∀ item ∈ items, item.Scans)
    (before : List Token) {rest : List Char} (ends : Ends rest) :
    Scanner.scan ⟨before, .gap⟩ (compactItems items ++ rest)
      = Scanner.scan ⟨(itemTokens items).reverse ++ before, .gap⟩ rest := by
  induction items generalizing before with
  | nil => rfl
  | cons item items ih =>
    have first := each item (by simp)
    cases items with
    | nil => exact first before ends
    | cons next items =>
      -- A comma ends the first item and is followed by the others.
      have split : compactItems (item :: next :: items) ++ rest
          = item.compactText ++ ',' :: (compactItems (next :: items) ++ rest) := by
        simp [compactItems]
      rw [split, first before (ends_mark rfl _), scan_mark rfl,
        ih fun other member => each other (by simp [member])]
      simp [itemTokens]

/-- A key, its colon and its value are found one after the other. -/
theorem scan_member {key : List Char} {value : Json} (plain : IsLiteral key) (scans : value.Scans)
    (before : List Token) {rest : List Char} (ends : Ends rest) :
    Scanner.scan ⟨before, .gap⟩ (quote key ++ ':' :: (value.compactText ++ rest))
      = Scanner.scan ⟨value.tokens.reverse ++ .colon :: .quoted key :: before, .gap⟩ rest := by
  rw [scan_quote plain, scan_mark rfl, scans _ ends]

/-- The members of an object are found one after the other, with commas between them. -/
theorem scan_compactMembers {members : List (List Char × Json)}
    (keys : ∀ member ∈ members, IsLiteral member.1) (each : ∀ member ∈ members, member.2.Scans)
    (before : List Token) {rest : List Char} (ends : Ends rest) :
    Scanner.scan ⟨before, .gap⟩ (compactMembers members ++ rest)
      = Scanner.scan ⟨(memberTokens members).reverse ++ before, .gap⟩ rest := by
  induction members generalizing before with
  | nil => rfl
  | cons member members ih =>
    obtain ⟨key, value⟩ := member
    have plain := keys (key, value) (by simp)
    have first := each (key, value) (by simp)
    -- Only behind a member that is not the last one does a comma follow.
    cases members with
    | nil =>
      have split : compactMembers [(key, value)] ++ rest
          = quote key ++ ':' :: (value.compactText ++ rest) := by
        simp [compactMembers]
      rw [split, scan_member plain first before ends]
      simp [memberTokens]
    | cons next members =>
      have split : compactMembers ((key, value) :: next :: members) ++ rest
          = quote key ++ ':' :: (value.compactText
            ++ ',' :: (compactMembers (next :: members) ++ rest)) := by
        simp [compactMembers]
      rw [split, scan_member plain first before (ends_mark rfl _), scan_mark rfl,
        ih (fun other among => keys other (by simp [among]))
          fun other among => each other (by simp [among])]
      simp [memberTokens]

/-- The tokens of every well-spelled value are found. -/
theorem Spelled.scans {value : Json} (spelled : value.Spelled) : value.Scans := by
  induction spelled with
  | null =>
    intro before _ ends
    exact scan_atom rfl (by decide) (List.all_eq_true.mp rfl) before ends
  | bool value =>
    intro before _ ends
    cases value <;> exact scan_atom rfl (by decide) (List.all_eq_true.mp rfl) before ends
  | number found present letters =>
    exact fun before _ ends => scan_atom found present letters before ends
  | string plain => exact fun before rest _ => scan_quote plain before rest
  | @array items _ ih =>
    intro before rest ends
    -- The closing bracket ends the last item.
    have split : (Json.array items).compactText ++ rest
        = '[' :: (compactItems items ++ ']' :: rest) := by
      simp [compactText]
    rw [split, scan_mark rfl, scan_compactItems ih _ (ends_mark rfl _), scan_mark rfl]
    simp [tokens]
  | @object members keys _ ih =>
    intro before rest ends
    have split : (Json.object members).compactText ++ rest
        = '\x7b' :: (compactMembers members ++ '\x7d' :: rest) := by
      simp [compactText]
    rw [split, scan_mark rfl, scan_compactMembers keys ih _ (ends_mark rfl _), scan_mark rfl]
    simp [tokens]

/-- The tokens of a value on one line are those it is written in. -/
theorem tokens?_compactText {value : Json} (spelled : value.Spelled) :
    tokens? value.compactText = some value.tokens := by
  have found := spelled.scans [] ends_nil
  -- Nothing is scanned before the value, and nothing is left behind it.
  simpa [Scanner.scan, Scanner.finish, tokens?] using found

end Surface.Json
