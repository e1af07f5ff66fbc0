import Surface.Json.Quoted

/-! JSON values, with numbers and strings kept as they are spelled. -/

namespace Surface

/--
A JSON value.

A number is kept as its literal, and a string as what stands between its quotation marks, so that a
value can be passed over without asking what its literals stand for.
The members of an object are kept in order, also when two have the same key.
-/
inductive Json where
  | null
  | bool (value : Bool)
  | number (literal : List Char)
  | string (literal : List Char)
  | array (items : List Json)
  | object (members : List (List Char × Json))
  deriving Repr

namespace Json

/-- The value of a text. -/
def ofString (text : String) : Json :=
  .string (Quoted.encode text.toList)

/-- The value of a natural number. -/
def ofNat (n : Nat) : Json :=
  .number (Nat.toDigits 10 n)

/-- An object of fields that are present. -/
def ofFields (fields : List (String × Json)) : Json :=
  .object (fields.map fun (key, value) => (Quoted.encode key.toList, value))

/-- The text of a string. -/
def string? : Json → Option String
  | .string literal => (Quoted.decode literal).map String.ofList
  | _ => none

/-- The digits of a natural number, without needless zeros. -/
def isNatural (literal : List Char) : Bool :=
  literal == ['0'] || (!literal.isEmpty && literal.head? != some '0' && literal.all Char.isDigit)

/-- The value of some decimal digits. -/
def ofDigits (digits : List Char) : Nat :=
  digits.foldl (fun value digit => value * 10 + (digit.toNat - '0'.toNat)) 0

/-- The first number that does not fit in sixty-four bits. -/
def wordBound : Nat := 18446744073709551616

/-- The value of a literal that is a natural number of at most sixty-four bits. -/
def nat? : Json → Option Nat
  | .number literal =>
    if isNatural literal && decide (ofDigits literal < wordBound) then some (ofDigits literal)
    else none
  | _ => none

/-- The items of an array. -/
def array? : Json → Option (List Json)
  | .array items => some items
  | _ => none

/-- A value that may be absent or null. -/
def optional? {α : Type} (read : Json → Option α) : Option Json → Option (Option α)
  | none => some none
  | some .null => some none
  | some value => (read value).map some

/-- The members of an object by the text of their keys. -/
def members? : Json → Option (List (String × Json))
  | .object members =>
    members.mapM fun (key, value) =>
      (Quoted.decode key).map fun text => (String.ofList text, value)
  | _ => none

/-- The value of a field, absent or once: a field that comes twice is refused. -/
def field? (members : List (String × Json)) (name : String) : Option (Option Json) :=
  match members.filter (·.1 == name) with
  | [] => some none
  | [(_, value)] => some (some value)
  | _ => none

/--
The fields of a record, in the order of their names.

A record is an object, in which fields of other names are passed over, or an array of all fields.
-/
def record? (names : List String) : Json → Option (List (Option Json))
  | .array items => if items.length = names.length then some (items.map some) else none
  | value => value.members?.bind fun members => names.mapM (field? members)

/-- The name of a variant: a string, or an object whose only member has that key and null. -/
def variant? : Json → Option String
  | .string literal => (Json.string literal).string?
  | .object [(key, .null)] => (Json.string key).string?
  | _ => none

end Json

end Surface
