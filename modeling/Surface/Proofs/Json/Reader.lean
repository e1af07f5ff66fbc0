import Surface.Json.Reader
import Surface.Proofs.Json.Token

/-! A value is read back from the tokens it is written in, and so from its text. -/

namespace Surface.Json

/-- What holds of arrays and objects as soon as it holds of what is in them holds of every value. -/
@[elab_as_elim] theorem induction {motive : Json → Prop} (null : motive .null)
    (bool : ∀ value, motive (.bool value)) (number : ∀ literal, motive (.number literal))
    (string : ∀ literal, motive (.string literal))
    (array : ∀ items, (∀ item ∈ items, motive item) → motive (.array items))
    (object : ∀ members, (∀ member ∈ members, motive member.2) → motive (.object members))
    (value : Json) : motive value :=
  match value with
  | .null => null
  | .bool value => bool value
  | .number literal => number literal
  | .string literal => string literal
  | .array items => array items fun item _member =>
    induction null bool number string array object item
  | .object members => object members fun member _member =>
    induction null bool number string array object member.2
termination_by sizeOf value
decreasing_by
  · have smaller := List.sizeOf_lt_of_mem _member
    simp only [Json.array.sizeOf_spec]
    omega
  · -- A member holds its value together with a key.
    have smaller := List.sizeOf_lt_of_mem _member
    obtain ⟨key, value⟩ := member
    simp only [Prod.mk.sizeOf_spec, Json.object.sizeOf_spec] at smaller ⊢
    omega

namespace Reader

/-- The reader after some tokens. -/
def run (reader : Reader) (tokens : List Token) : Option Reader :=
  tokens.foldlM step reader

/-- After a token that the reader takes, it goes on from where that leaves it. -/
theorem run_of_step {reader next : Reader} {token : Token} (taken : reader.step token = some next)
    (rest : List Token) : reader.run (token :: rest) = next.run rest := by
  simp [run, taken]

/-- The reader takes one token and goes on with the others. -/
theorem run_cons (reader : Reader) (token : Token) (rest : List Token) :
    reader.run (token :: rest) = (reader.step token).bind fun next => next.run rest := by
  simp [run]

/-- A reader that takes the first token of a value, to put the value on a stack. -/
def Expects (reader : Reader) (stack : List Frame) : Prop :=
  ∀ token, token ≠ .closeArray → reader.step token = begin stack token

/-- Where a value is due, its first token is taken. -/
theorem expects_beforeValue (stack : List Frame) : Expects (.beforeValue stack) stack :=
  fun _ _ => rfl

/-- In an array that was just opened, the first item can follow. -/
theorem expects_beforeFirstItem (stack : List Frame) :
    Expects (.beforeFirstItem stack) (.array [] :: stack) := by
  intro token notClose
  -- Only the closing bracket is taken in another way.
  cases token with
  | closeArray => exact absurd rfl notClose
  | _ => rfl

/-- A reader that takes a key, for a member behind those that it has. -/
def ExpectsKey (reader : Reader) (members : List (List Char × Json)) (stack : List Frame) : Prop :=
  ∀ key, reader.step (.quoted key) = some (.beforeColon members key stack)

/-- A value is put where it belongs once its tokens are over. -/
def Reads (value : Json) : Prop :=
  ∀ ⦃reader stack⦄, Expects reader stack → ∀ rest,
    reader.run (value.tokens ++ rest) = (place value stack).bind fun next => next.run rest

/-- The items of an array are gathered up to its closing bracket. -/
theorem run_itemTokens {items : List Json} (each : ∀ item ∈ items, Reads item)
    (present : items ≠ []) {reader : Reader} {gathered : List Json} {stack : List Frame}
    (expects : Expects reader (.array gathered :: stack)) (rest : List Token) :
    reader.run (itemTokens items ++ .closeArray :: rest)
      = (place (.array (gathered.reverse ++ items)) stack).bind fun next => next.run rest := by
  induction items generalizing reader gathered with
  | nil => exact absurd rfl present
  | cons item items ih =>
    have first := each item (by simp)
    cases items with
    | nil =>
      rw [itemTokens, first expects]
      -- The last item goes in front of those gathered, and the bracket turns them around.
      refine (run_cons _ _ _).trans ?_
      simp [step]
    | cons next items =>
      have split : itemTokens (item :: next :: items) ++ .closeArray :: rest
          = item.tokens ++ .comma :: (itemTokens (next :: items) ++ .closeArray :: rest) := by
        simp [itemTokens]
      have others := ih (fun other member => each other (by simp [member])) (by simp)
        (expects_beforeValue (.array (item :: gathered) :: stack))
      rw [split, first expects]
      refine (run_of_step rfl _).trans ?_
      rw [others]
      simp

/-- The members of an object are gathered up to its closing brace. -/
theorem run_memberTokens {members : List (List Char × Json)}
    (each : ∀ member ∈ members, Reads member.2) (present : members ≠ []) {reader : Reader}
    {gathered : List (List Char × Json)} {stack : List Frame}
    (expects : ExpectsKey reader gathered stack) (rest : List Token) :
    reader.run (memberTokens members ++ .closeObject :: rest)
      = (place (.object (gathered.reverse ++ members)) stack).bind fun next => next.run rest := by
  induction members generalizing reader gathered with
  | nil => exact absurd rfl present
  | cons member members ih =>
    obtain ⟨key, value⟩ := member
    -- A key and its colon come first, then the value.
    have first : ∀ more, reader.run (.quoted key :: .colon :: (value.tokens ++ more))
        = Reader.run (.afterValue (.object ((key, value) :: gathered) :: stack)) more := by
      intro more
      rw [run_of_step (expects key), run_of_step rfl,
        each (key, value) (by simp) (expects_beforeValue (.member gathered key :: stack))]
      rfl
    cases members with
    | nil =>
      have split : memberTokens [(key, value)] ++ .closeObject :: rest
          = .quoted key :: .colon :: (value.tokens ++ .closeObject :: rest) := by
        simp [memberTokens]
      rw [split, first, run_cons]
      simp [step]
    | cons next members =>
      have split : memberTokens ((key, value) :: next :: members) ++ .closeObject :: rest
          = .quoted key :: .colon :: (value.tokens
            ++ .comma :: (memberTokens (next :: members) ++ .closeObject :: rest)) := by
        simp [memberTokens]
      have expectsNext : ExpectsKey (.beforeKey ((key, value) :: gathered) stack)
          ((key, value) :: gathered) stack := fun _ => rfl
      rw [split, first, run_of_step rfl,
        ih (fun other among => each other (by simp [among])) (by simp) expectsNext]
      simp

/-- A value of one token is put in its place at once. -/
theorem reads_of_begin {value : Json} {token : Token} (single : value.tokens = [token])
    (notClose : token ≠ .closeArray) (begins : ∀ stack, begin stack token = place value stack) :
    Reads value := by
  intro reader stack expects rest
  rw [single, List.singleton_append, run_cons, expects token notClose, begins]

/-- Every value is read from its tokens, wherever a value is expected. -/
theorem reads (value : Json) : Reads value := by
  -- Inside of an array or an object, the reader puts values on top of its frame.
  induction value using Json.induction with
  | null => exact reads_of_begin rfl (by simp) fun _ => rfl
  | bool value => exact reads_of_begin rfl (by simp) fun _ => rfl
  | number literal => exact reads_of_begin rfl (by simp) fun _ => rfl
  | string literal => exact reads_of_begin rfl (by simp) fun _ => rfl
  | array items ih =>
    intro reader stack expects rest
    have split : (Json.array items).tokens ++ rest
        = .openArray :: (itemTokens items ++ .closeArray :: rest) := by
      simp [tokens]
    have opened : reader.step .openArray = some (.beforeFirstItem stack) := expects _ (by simp)
    rw [split, run_of_step opened]
    cases items with
    | nil => exact run_cons _ _ rest
    | cons item items =>
      exact run_itemTokens ih (by simp) (expects_beforeFirstItem stack) rest
  | object members ih =>
    intro reader stack expects rest
    have split : (Json.object members).tokens ++ rest
        = .openObject :: (memberTokens members ++ .closeObject :: rest) := by
      simp [tokens]
    have opened : reader.step .openObject = some (.beforeFirstKey stack) := expects _ (by simp)
    rw [split, run_of_step opened]
    cases members with
    | nil => exact run_cons _ _ rest
    | cons member members =>
      have expectsKey : ExpectsKey (.beforeFirstKey stack) [] stack := fun _ => rfl
      exact run_memberTokens ih (by simp) expectsKey rest

end Reader

/-- A value is read back from the tokens it is written in. -/
theorem ofTokens?_tokens (value : Json) : ofTokens? value.tokens = some value := by
  have read := Reader.reads value (Reader.expects_beforeValue []) []
  -- Outside of all frames, a value that is put in its place is the whole value.
  rw [List.append_nil] at read
  simp only [Reader.run] at read
  rw [ofTokens?, read]
  rfl

/-- A value is read back from its text on one line. -/
theorem parse?_compact {value : Json} (spelled : value.Spelled) :
    parse? value.compact = some value := by
  rw [parse?, compact, String.toList_ofList, tokens?_compactText spelled, Option.bind_some,
    ofTokens?_tokens]

end Surface.Json
