/-! Bytes as text: decoding that replaces what is not well-formed, and encoding. -/

namespace Surface

/-- A byte string: a source file, a path, a file name. -/
abbrev Bytes := List UInt8

namespace Utf8

/-- The character that stands for a part of the input that is no well-formed sequence. -/
def replacement : Char := '\uFFFD'

/--
A sequence of several bytes that has been started and not yet finished.

The next byte has to lie between `low` and `high`, `more` bytes follow that one, and `bits` is the
part of the code point read so far.
-/
structure Pending where
  low : UInt8
  high : UInt8
  more : Nat
  bits : Nat
  deriving DecidableEq, Repr

/-- What a byte can be at the start of a character. -/
inductive Lead where
  /-- A character of its own. -/
  | single (c : Char)
  /-- The first byte of a longer sequence. -/
  | opens (pending : Pending)
  /-- A byte no character starts with. -/
  | stray
  deriving DecidableEq, Repr

/--
How a byte starts a character.

The bounds on the second byte rule out overlong forms, surrogates and values past the last code
point.
-/
def lead (byte : UInt8) : Lead :=
  let n := byte.toNat
  if n < 0x80 then .single (Char.ofNat n)
  -- Bytes of the inside of a sequence, and two that would only start overlong ones.
  else if n < 0xC2 then .stray
  else if n < 0xE0 then .opens ⟨0x80, 0xBF, 0, n - 0xC0⟩
  -- Of three bytes, the lowest could be overlong and one leads to the surrogates.
  else if n = 0xE0 then .opens ⟨0xA0, 0xBF, 1, 0⟩
  else if n = 0xED then .opens ⟨0x80, 0x9F, 1, 0xD⟩
  else if n < 0xF0 then .opens ⟨0x80, 0xBF, 1, n - 0xE0⟩
  -- Of four bytes, the lowest could be overlong and the highest passes the last code point.
  else if n = 0xF0 then .opens ⟨0x90, 0xBF, 2, 0⟩
  else if n < 0xF4 then .opens ⟨0x80, 0xBF, 2, n - 0xF0⟩
  else if n = 0xF4 then .opens ⟨0x80, 0x8F, 2, 4⟩
  else .stray

/-- Whether a byte continues the sequence. -/
def Pending.admits (pending : Pending) (byte : UInt8) : Bool :=
  decide (pending.low ≤ byte) && decide (byte ≤ pending.high)

/-- A decoder between two bytes: the characters so far, last one first, and what is still open. -/
structure Decoder where
  done : List Char
  pending : Option Pending
  deriving DecidableEq, Repr

/-- A byte read where a character starts. -/
def Decoder.first (done : List Char) (byte : UInt8) : Decoder :=
  match lead byte with
  | .single c => ⟨c :: done, none⟩
  | .opens pending => ⟨done, some pending⟩
  | .stray => ⟨replacement :: done, none⟩

/--
One more byte.

A byte that does not continue the open sequence ends it, and the sequence becomes one replacement
character however many bytes it had.
-/
def Decoder.step (decoder : Decoder) (byte : UInt8) : Decoder :=
  match decoder.pending with
  | none => .first decoder.done byte
  | some pending =>
    if pending.admits byte then
      let bits := pending.bits * 64 + (byte.toNat - 0x80)
      match pending.more with
      | 0 => ⟨Char.ofNat bits :: decoder.done, none⟩
      | more + 1 => ⟨decoder.done, some ⟨0x80, 0xBF, more, bits⟩⟩
    -- The byte is not lost: it may start a character of its own.
    else .first (replacement :: decoder.done) byte

/-- The decoded text once the bytes are over. -/
def Decoder.finish (decoder : Decoder) : List Char :=
  match decoder.pending with
  | none => decoder.done.reverse
  | some _ => (replacement :: decoder.done).reverse

/-- The text of a byte string, with one replacement character for each maximal ill-formed part. -/
def decode (bytes : Bytes) : List Char :=
  (bytes.foldl Decoder.step ⟨[], none⟩).finish

/-- The bytes of a text. -/
def encode (text : List Char) : Bytes :=
  text.flatMap String.utf8EncodeChar

/-- The text of a byte string that is well-formed: nothing is lost in decoding it. -/
def decode? (bytes : Bytes) : Option (List Char) :=
  if encode (decode bytes) = bytes then some (decode bytes) else none

end Utf8

end Surface
