import Surface.Proofs.Json.Reader

/-! A value that is laid out over several lines has the same tokens, and is read back as well. -/

namespace Surface.Json

section Layout

/-- A space between tokens adds none. -/
theorem scan_space {c : Char} (space : isSpace c = true) (before : List Token) (rest : List Char) :
    Scanner.scan ⟨before, .gap⟩ (c :: rest) = Scanner.scan ⟨before, .gap⟩ rest := by
  refine Scanner.scan_of_step ?_ rest
  simp [Scanner.step, Scanner.start, space]

/-- A line end and the spaces behind it add no token. -/
theorem scan_newline (level : Nat) (before : List Token) (rest : List Char) :
    Scanner.scan ⟨before, .gap⟩ (newline level ++ rest) = Scanner.scan ⟨before, .gap⟩ rest := by
  rw [newline, List.cons_append, scan_space rfl]
  -- Behind the line end, the spaces are passed over one by one.
  induction 2 * level with
  | zero => rfl
  | succ count ih => rw [List.replicate_succ, List.cons_append, scan_space rfl, ih]

/-- A line end ends a word. -/
theorem ends_newline (level : Nat) (rest : List Char) : Ends (newline level ++ rest) := by
  rintro c (⟨⟩ : some '\n' = some c)
  rfl

end Layout

/-- The tokens of an item that follows another one. -/
def furtherItem (item : Json) : List Token :=
  .comma :: item.tokens

/-- The tokens of a member that follows another one. -/
def furtherMember (member : List Char × Json) : List Token :=
  .comma :: .quoted member.1 :: .colon :: member.2.tokens

/-- Behind the first item, each further one brings a comma and its tokens. -/
theorem itemTokens_cons (item : Json) (items : List Json) :
    itemTokens (item :: items) = item.tokens ++ items.flatMap furtherItem := by
  -- The comma between two items goes with the second one.
  induction items generalizing item with
  | nil => simp [itemTokens]
  | cons next items ih =>
    have split : itemTokens (item :: next :: items)
        = item.tokens ++ .comma :: itemTokens (next :: items) := by
      simp [itemTokens]
    rw [split, ih, List.flatMap_cons, furtherItem, List.cons_append]

/-- Behind the first member, each further one brings a comma and its tokens. -/
theorem memberTokens_cons (key : List Char) (value : Json) (members : List (List Char × Json)) :
    memberTokens ((key, value) :: members)
      = .quoted key :: .colon :: (value.tokens ++ members.flatMap furtherMember) := by
  -- The comma between two members goes with the second one.
  induction members generalizing key value with
  | nil => simp [memberTokens]
  | cons next members ih =>
    obtain ⟨other, inner⟩ := next
    have split : memberTokens ((key, value) :: (other, inner) :: members)
        = .quoted key :: .colon :: (value.tokens
          ++ .comma :: memberTokens ((other, inner) :: members)) := by
      simp [memberTokens]
    rw [split, ih, List.flatMap_cons, furtherMember]
    simp

/-- The tokens of a value that is laid out are found, at any level and whatever ends the value. -/
def ScansLaidOut (value : Json) : Prop :=
  ∀ level before {rest}, Ends rest → Scanner.scan ⟨before, .gap⟩ (value.prettyText level ++ rest)
    = Scanner.scan ⟨value.tokens.reverse ++ before, .gap⟩ rest

/-- Further items start with a comma, and without any the rest follows at once. -/
theorem ends_prettyItems (level : Nat) (items : List Json) {rest : List Char} (ends : Ends rest) :
    Ends (prettyItems level items ++ rest) := by
  cases items with
  | nil => exact ends
  | cons item items => exact ends_mark rfl _

/-- Further members start with a comma, and without any the rest follows at once. -/
theorem ends_prettyMembers (level : Nat) (members : List (List Char × Json)) {rest : List Char}
    (ends : Ends rest) : Ends (prettyMembers level members ++ rest) := by
  -- The comma is a token by itself.
  cases members with
  | nil => exact ends
  | cons member members =>
    obtain ⟨key, value⟩ := member
    exact ends_mark rfl _

/-- Further items are found, each behind a comma and a line end. -/
theorem scan_prettyItems {items : List Json} (each : ∀ item ∈ items, item.ScansLaidOut)
    (level : Nat) (before : List Token) {rest : List Char} (ends : Ends rest) :
    Scanner.scan ⟨before, .gap⟩ (prettyItems level items ++ rest)
      = Scanner.scan ⟨(items.flatMap furtherItem).reverse ++ before, .gap⟩ rest := by
  induction items generalizing before with
  | nil => rfl
  | cons item items ih =>
    have split : prettyItems level (item :: items) ++ rest
        = ',' :: (newline level ++ (item.prettyText level
          ++ (prettyItems level items ++ rest))) := by
      simp [prettyItems]
    -- The comma is found, the line end passed over, and then the item is scanned like any other.
    rw [split, scan_mark rfl, scan_newline,
      each item List.mem_cons_self level _ (ends_prettyItems level items ends),
      ih fun other member => each other (List.mem_cons_of_mem _ member)]
    simp [furtherItem]

/-- A key, its colon and a space stand in front of the value. -/
theorem scan_prettyMember {key : List Char} {value : Json} (plain : IsLiteral key)
    (scans : value.ScansLaidOut) (level : Nat) (before : List Token) {rest : List Char}
    (ends : Ends rest) :
    Scanner.scan ⟨before, .gap⟩ (quote key ++ ':' :: ' ' :: (value.prettyText level ++ rest))
      = Scanner.scan ⟨value.tokens.reverse ++ .colon :: .quoted key :: before, .gap⟩ rest := by
  rw [scan_quote plain, scan_mark rfl, scan_space rfl, scans level _ ends]

/-- Further members are found, each behind a comma and a line end. -/
theorem scan_prettyMembers {members : List (List Char × Json)}
    (keys : ∀ member ∈ members, IsLiteral member.1)
    (each : ∀ member ∈ members, member.2.ScansLaidOut) (level : Nat) (before : List Token)
    {rest : List Char} (ends : Ends rest) :
    Scanner.scan ⟨before, .gap⟩ (prettyMembers level members ++ rest)
      = Scanner.scan ⟨(members.flatMap furtherMember).reverse ++ before, .gap⟩ rest := by
  induction members generalizing before with
  | nil => rfl
  | cons member members ih =>
    obtain ⟨key, value⟩ := member
    have split : prettyMembers level ((key, value) :: members) ++ rest
        = ',' :: (newline level ++ (quote key ++ ':' :: ' ' :: (value.prettyText level
          ++ (prettyMembers level members ++ rest)))) := by
      simp [prettyMembers]
    -- Behind the comma and the line end, a member is scanned like the first one.
    rw [split, scan_mark rfl, scan_newline,
      scan_prettyMember (keys _ List.mem_cons_self) (each _ List.mem_cons_self) level _
        (ends_prettyMembers level members ends),
      ih (fun other among => keys other (List.mem_cons_of_mem _ among))
        fun other among => each other (List.mem_cons_of_mem _ among)]
    simp [furtherMember]

/-- The tokens of every well-spelled value are found when it is laid out. -/
theorem Spelled.scansLaidOut {value : Json} (spelled : value.Spelled) : value.ScansLaidOut := by
  induction spelled with
  -- What has nothing in it is laid out as it is on one line.
  | null => exact fun _ before _ ends => Spelled.null.scans before ends
  | bool value => exact fun _ before _ ends => (Spelled.bool value).scans before ends
  | number found present letters =>
    exact fun _ before _ ends => (Spelled.number found present letters).scans before ends
  | string plain => exact fun _ before _ ends => (Spelled.string plain).scans before ends
  | @array items _ ih =>
    intro level before rest ends
    cases items with
    | nil =>
      have split : (Json.array []).prettyText level ++ rest = '[' :: ']' :: rest := rfl
      rw [split, scan_mark rfl, scan_mark rfl]
      rfl
    | cons item items =>
      have split : (Json.array (item :: items)).prettyText level ++ rest
          = '[' :: (newline (level + 1) ++ (item.prettyText (level + 1)
            ++ (prettyItems (level + 1) items ++ (newline level ++ ']' :: rest)))) := by
        simp [prettyText]
      -- Before the closing bracket there is a line end, which ends the last item.
      have closes := ends_newline level (']' :: rest)
      rw [split, scan_mark rfl, scan_newline,
        ih item List.mem_cons_self _ _ (ends_prettyItems (level + 1) items closes),
        scan_prettyItems (fun other member => ih other (List.mem_cons_of_mem _ member)) _ _ closes,
        scan_newline, scan_mark rfl]
      simp [tokens, itemTokens_cons]
  | @object members keys _ ih =>
    intro level before rest ends
    cases members with
    | nil =>
      have split : (Json.object []).prettyText level ++ rest = '\x7b' :: '\x7d' :: rest := rfl
      rw [split, scan_mark rfl, scan_mark rfl]
      rfl
    | cons member members =>
      obtain ⟨key, value⟩ := member
      have split : (Json.object ((key, value) :: members)).prettyText level ++ rest
          = '\x7b' :: (newline (level + 1) ++ (quote key ++ ':' :: ' ' ::
            (value.prettyText (level + 1) ++ (prettyMembers (level + 1) members
              ++ (newline level ++ '\x7d' :: rest))))) := by
        simp [prettyText]
      have closes := ends_newline level ('\x7d' :: rest)
      rw [split, scan_mark rfl, scan_newline,
        scan_prettyMember (keys _ List.mem_cons_self) (ih _ List.mem_cons_self) _ _
          (ends_prettyMembers (level + 1) members closes),
        scan_prettyMembers (fun other among => keys other (List.mem_cons_of_mem _ among))
          (fun other among => ih other (List.mem_cons_of_mem _ among)) _ _ closes,
        scan_newline, scan_mark rfl]
      simp [tokens, memberTokens_cons]

/-- A value that is printed over several lines is read back from them. -/
theorem parse?_pretty {value : Json} (spelled : value.Spelled) :
    parse? (value.pretty ++ "\n") = some value := by
  -- The line end behind the value is one more that adds no token.
  have text : (value.pretty ++ "\n").toList = value.prettyText 0 ++ (newline 0 ++ []) := by
    simp [pretty, newline]
  have scanned := spelled.scansLaidOut 0 [] (ends_newline 0 [])
  have found : tokens? (value.prettyText 0 ++ (newline 0 ++ [])) = some value.tokens := by
    rw [scan_newline] at scanned
    simpa [Scanner.scan, Scanner.finish, tokens?] using scanned
  rw [parse?, text, found, Option.bind_some, ofTokens?_tokens]

end Surface.Json
