/-! Characters and texts: blanks, letter case, and cutting at every occurrence of a separator. -/

namespace Surface.Text

/-- The twenty-five characters of the Unicode property `White_Space`. -/
def isBlank (c : Char) : Bool :=
  let n := c.toNat
  (0x09 ≤ n && n ≤ 0x0D) || n == 0x20 || n == 0x85 || n == 0xA0 || n == 0x1680
    || (0x2000 ≤ n && n ≤ 0x200A) || n == 0x2028 || n == 0x2029 || n == 0x202F || n == 0x205F
    || n == 0x3000

/-- A text without the characters of a class at its end. -/
def dropEndWhile (drop : Char → Bool) (text : List Char) : List Char :=
  (text.reverse.dropWhile drop).reverse

/-- A text without the characters of a class at either end. -/
def dropAround (drop : Char → Bool) (text : List Char) : List Char :=
  dropEndWhile drop (text.dropWhile drop)

/-- A text without blanks at either end. -/
def trim (text : List Char) : List Char :=
  dropAround isBlank text

/--
The lower-case letter of a capital from `A` to `Z`, and of the Kelvin sign.

No other character has a lower-case form made of plain letters only.
So whether a name equals, starts with or ends in a word of plain lower-case letters never hangs on
the case of any other character, and these are left alone.
-/
def lowerChar (c : Char) : Char :=
  if c == '\u212A' then 'k' else c.toLower

/-- A name with its capitals in lower case. -/
def lower (text : List Char) : List Char :=
  text.map lowerChar

/-- Whether a word occurs in a text. -/
def occursIn (word : List Char) : List Char → Bool
  | [] => word.isEmpty
  | c :: rest => word.isPrefixOf (c :: rest) || occursIn word rest

section Split

variable {α : Type} [BEq α]

/-- An item put in front of the pieces that follow it; a separator opens a new piece. -/
def consPiece (separator item : α) (rest : List (List α)) : List (List α) :=
  if item == separator then [] :: rest
  else match rest with
    -- There always is a piece to put the item into, since even no items make one.
    | [] => [[item]]
    | piece :: more => (item :: piece) :: more

/-- The pieces between separators, one more than there are separators. -/
def split (separator : α) (items : List α) : List (List α) :=
  items.foldr (consPiece separator) [[]]

end Split

end Surface.Text
