import Surface.Json.Basic

/-! The tokens of a JSON text, found one character at a time. -/

namespace Surface.Json

/-- A token of a JSON text. -/
inductive Token where
  | openArray
  | closeArray
  | openObject
  | closeObject
  | comma
  | colon
  /-- A string, with what stands between its quotation marks. -/
  | quoted (literal : List Char)
  /-- A number, a truth value or null. -/
  | atom (value : Json)
  deriving Repr

/-- Where the scanner stands between two characters; texts are kept last character first. -/
inductive Mode where
  /-- Between tokens. -/
  | gap
  /-- Inside a string. -/
  | quoted (text : List Char)
  /-- After a backslash in a string. -/
  | escape (text : List Char)
  /-- In an escape that still lacks some digits. -/
  | hex (missing : Nat) (text : List Char)
  /-- In a number or a word. -/
  | run (text : List Char)
  deriving DecidableEq, Repr

/-- A scanner: the tokens so far, last one first, and where it stands. -/
structure Scanner where
  tokens : List Token
  mode : Mode
  deriving Repr

/-- Whether a character may stand between tokens. -/
def isSpace (c : Char) : Bool :=
  c == ' ' || c == '\n' || c == '\t' || c == '\r'

/-- Whether a character can be part of a number or a word. -/
def isRun (c : Char) : Bool :=
  c.isAlphanum || c == '+' || c == '-' || c == '.'

/-- Whether digits are the whole part of a number: no zero stands in front of others. -/
def isWhole (digits : List Char) : Bool :=
  match digits with
  | [] => false
  | ['0'] => true
  | '0' :: _ => false
  | _ => true

/-- Whether a text is an exponent, or nothing. -/
def isExponent (text : List Char) : Bool :=
  match text with
  | [] => true
  | mark :: rest =>
    let digits := match rest with
      | '+' :: digits => digits
      | '-' :: digits => digits
      | digits => digits
    (mark == 'e' || mark == 'E') && !digits.isEmpty && digits.all Char.isDigit

/-- Whether a text is a fraction, an exponent, both in this order, or nothing. -/
def isFraction (text : List Char) : Bool :=
  match text with
  | '.' :: rest =>
    !(rest.takeWhile Char.isDigit).isEmpty && isExponent (rest.dropWhile Char.isDigit)
  | rest => isExponent rest

/-- Whether a text is a number. -/
def isNumber (text : List Char) : Bool :=
  let unsigned := match text with
    | '-' :: rest => rest
    | rest => rest
  isWhole (unsigned.takeWhile Char.isDigit) && isFraction (unsigned.dropWhile Char.isDigit)

/-- The value of a word or a number. -/
def atom? (text : List Char) : Option Json :=
  if text = "null".toList then some .null
  else if text = "true".toList then some (.bool true)
  else if text = "false".toList then some (.bool false)
  else if isNumber text then some (.number text)
  else none

/-- The token that a single character is. -/
def Token.ofChar? (c : Char) : Option Token :=
  match c with
  | '[' => some .openArray
  | ']' => some .closeArray
  | '\x7b' => some .openObject
  | '\x7d' => some .closeObject
  | ',' => some .comma
  | ':' => some .colon
  | _ => none

/-- A character read between tokens. -/
def Scanner.start (tokens : List Token) (c : Char) : Option Scanner :=
  if isSpace c then some ⟨tokens, .gap⟩
  else if c == '"' then some ⟨tokens, .quoted []⟩
  else if isRun c then some ⟨tokens, .run [c]⟩
  else (Token.ofChar? c).map fun token => ⟨token :: tokens, .gap⟩

/-- One more character, unless the text is no JSON. -/
def Scanner.step (scanner : Scanner) (c : Char) : Option Scanner :=
  match scanner.mode with
  | .gap => Scanner.start scanner.tokens c
  | .quoted text =>
    if c == '"' then some ⟨.quoted text.reverse :: scanner.tokens, .gap⟩
    else if c == '\\' then some { scanner with mode := .escape (c :: text) }
    else if c.toNat < 0x20 then none
    else some { scanner with mode := .quoted (c :: text) }
  | .escape text =>
    if c == 'u' then some { scanner with mode := .hex 4 (c :: text) }
    else if (Quoted.short? c).isSome then some { scanner with mode := .quoted (c :: text) }
    else none
  | .hex missing text =>
    if (Quoted.hexValue? c).isSome then
      let mode := if missing ≤ 1 then Mode.quoted (c :: text) else .hex (missing - 1) (c :: text)
      some { scanner with mode }
    else none
  | .run text =>
    if isRun c then some { scanner with mode := .run (c :: text) }
    else (atom? text.reverse).bind fun value => Scanner.start (.atom value :: scanner.tokens) c

/-- The tokens once the text is over, unless it ends in the middle of one. -/
def Scanner.finish (scanner : Scanner) : Option (List Token) :=
  match scanner.mode with
  | .gap => some scanner.tokens.reverse
  | .run text => (atom? text.reverse).map fun value => (.atom value :: scanner.tokens).reverse
  | _ => none

/-- The tokens of a text. -/
def tokens? (text : List Char) : Option (List Token) :=
  (text.foldlM Scanner.step ⟨[], .gap⟩).bind Scanner.finish

end Surface.Json
