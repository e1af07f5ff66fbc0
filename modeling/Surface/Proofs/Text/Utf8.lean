import Mathlib.Data.List.Basic
import Surface.Text.Line
import Surface.Text.Utf8

/-!
Decoding of bytes: what was encoded comes back, and no plain character, such as a line end, is lost
or made up.
-/

namespace Surface.Utf8

open Text (lineFeed)

/-- The characters decoded so far have no say in what a byte does. -/
theorem Decoder.step_append (decoder : Decoder) (old : List Char) (byte : UInt8) :
    step ⟨decoder.done ++ old, decoder.pending⟩ byte
      = ⟨(decoder.step byte).done ++ old, (decoder.step byte).pending⟩ := by
  -- Where a character starts, the byte alone decides.
  have starts : ∀ done, first (done ++ old) byte
      = ⟨(first done byte).done ++ old, (first done byte).pending⟩ := by
    intro done
    unfold first
    cases lead byte <;> rfl
  obtain ⟨done, pending⟩ := decoder
  unfold step
  cases pending with
  | none => exact starts done
  | some pending =>
    dsimp only
    split
    · cases pending.more <;> rfl
    · exact starts (replacement :: done)

/-- What was decoded before stays below what is decoded next. -/
theorem Decoder.run_append (decoder : Decoder) (old : List Char) (bytes : Bytes) :
    bytes.foldl step ⟨decoder.done ++ old, decoder.pending⟩
      = ⟨(bytes.foldl step decoder).done ++ old, (bytes.foldl step decoder).pending⟩ := by
  induction bytes generalizing decoder with
  | nil => rfl
  | cons byte bytes ih => rw [List.foldl_cons, step_append, ih, List.foldl_cons]

/-- Decoding that goes on between two characters adds to what is there. -/
theorem Decoder.finish_run (old : List Char) (bytes : Bytes) :
    (bytes.foldl step ⟨old, none⟩).finish = old.reverse ++ decode bytes := by
  -- The bytes do what they do to an empty decoder, with the old characters kept behind.
  have run := run_append ⟨[], none⟩ old bytes
  rw [List.nil_append] at run
  rw [run, decode]
  generalize bytes.foldl step ⟨[], none⟩ = decoder
  obtain ⟨done, pending⟩ := decoder
  cases pending <;> simp [finish]

/-- A first byte of one is the character itself. -/
theorem lead_of_one {n : Nat} (small : n < 0x80) :
    lead (UInt8.ofNat n) = .single (Char.ofNat n) := by
  have value : (UInt8.ofNat n).toNat = n := UInt8.toNat_ofNat_of_lt' (show _ < 256 by omega)
  simp [lead, value, small]

/-- A first byte of two carries the top of the code point. -/
theorem lead_of_two {top : Nat} (low : 2 ≤ top) (high : top < 0x20) :
    lead (UInt8.ofNat (top + 0xC0)) = .opens ⟨0x80, 0xBF, 0, top⟩ := by
  have value : (UInt8.ofNat (top + 0xC0)).toNat = top + 0xC0 :=
    UInt8.toNat_ofNat_of_lt' (show _ < 256 by omega)
  simp only [lead, value]
  -- The byte is no character of its own, no continuation and not overlong.
  rw [if_neg (by omega), if_neg (by omega), if_pos (by omega), Nat.add_sub_cancel]

/-- A first byte of three also keeps overlong forms and surrogates out. -/
theorem lead_of_three {top : Nat} (high : top < 0x10) :
    lead (UInt8.ofNat (top + 0xE0)) = .opens
      ⟨if top = 0 then 0xA0 else 0x80, if top = 0xD then 0x9F else 0xBF, 1, top⟩ := by
  -- There are sixteen such bytes, and each is looked up.
  revert top
  decide

/-- A first byte of four also keeps overlong forms and values past the last code point out. -/
theorem lead_of_four {top : Nat} (high : top < 5) :
    lead (UInt8.ofNat (top + 0xF0)) = .opens
      ⟨if top = 0 then 0x90 else 0x80, if top = 4 then 0x8F else 0xBF, 2, top⟩ := by
  -- There are five such bytes, and each is looked up.
  revert top
  decide

/-- A byte that continues a sequence adds six bits to it, and may be the last one. -/
theorem Decoder.step_part (done : List Char) (pending : Pending) {part : Nat} (small : part < 0x40)
    (above : pending.low.toNat ≤ part + 0x80) (below : part + 0x80 ≤ pending.high.toNat) :
    step ⟨done, some pending⟩ (UInt8.ofNat (part + 0x80)) = match pending.more with
      | 0 => ⟨Char.ofNat (pending.bits * 64 + part) :: done, none⟩
      | more + 1 => ⟨done, some ⟨0x80, 0xBF, more, pending.bits * 64 + part⟩⟩ := by
  -- The byte is within the bounds of the sequence, whose six bits it holds.
  have value : (UInt8.ofNat (part + 0x80)).toNat = part + 0x80 :=
    UInt8.toNat_ofNat_of_lt' (show _ < 256 by omega)
  have admitted : pending.admits (UInt8.ofNat (part + 0x80)) = true := by
    simp only [Pending.admits, UInt8.le_iff_toNat_le, value, Bool.and_eq_true, decide_eq_true_eq]
    exact ⟨above, below⟩
  cases size : pending.more with
  | zero => simp only [step, admitted, value, size, Nat.add_sub_cancel, if_true]
  | succ more => simp only [step, admitted, value, size, Nat.add_sub_cancel, if_true]

/-- From the third byte on, every continuation byte is admitted. -/
theorem Decoder.step_tail (done : List Char) (more bits : Nat) {part : Nat} (small : part < 0x40) :
    step ⟨done, some ⟨0x80, 0xBF, more, bits⟩⟩ (UInt8.ofNat (part + 0x80)) = match more with
      | 0 => ⟨Char.ofNat (bits * 64 + part) :: done, none⟩
      | more + 1 => ⟨done, some ⟨0x80, 0xBF, more, bits * 64 + part⟩⟩ :=
  step_part done _ small (by simp) (by simp; omega)

/-- Between two characters, a first byte of several opens its sequence. -/
theorem Decoder.step_opens (done : List Char) {byte : UInt8} {pending : Pending}
    (opened : lead byte = .opens pending) : step ⟨done, none⟩ byte = ⟨done, some pending⟩ := by
  simp [step, first, opened]

/-- A code point in two bytes is read whole. -/
theorem Decoder.run_two (done : List Char) {v : Nat} (low : 0x7F < v) (high : v ≤ 0x7FF) :
    [UInt8.ofNat (v / 64 % 0x20 + 0xC0), UInt8.ofNat (v % 0x40 + 0x80)].foldl step ⟨done, none⟩
      = ⟨Char.ofNat v :: done, none⟩ := by
  have opened := lead_of_two (show 2 ≤ v / 64 % 0x20 by omega) (by omega)
  -- The bits of both bytes side by side are those of the code point.
  have whole : v / 64 % 0x20 * 64 + v % 0x40 = v := by omega
  simp only [List.foldl_cons, List.foldl_nil]
  rw [step_opens done opened, step_tail _ _ _ (by omega)]
  dsimp only
  rw [whole]

/-- A code point in three bytes is read whole, unless it is a surrogate. -/
theorem Decoder.run_three (done : List Char) {v : Nat} (low : 0x7FF < v) (high : v ≤ 0xFFFF)
    (valid : v < 0xD800 ∨ 0xDFFF < v) :
    [UInt8.ofNat (v / 4096 % 0x10 + 0xE0), UInt8.ofNat (v / 64 % 0x40 + 0x80),
      UInt8.ofNat (v % 0x40 + 0x80)].foldl step ⟨done, none⟩ = ⟨Char.ofNat v :: done, none⟩ := by
  have opened := lead_of_three (show v / 4096 % 0x10 < 0x10 by omega)
  -- The second byte lies in the narrower bounds that the first one sets at either end.
  have above : (if v / 4096 % 0x10 = 0 then 0xA0 else 0x80 : UInt8).toNat
      ≤ v / 64 % 0x40 + 0x80 := by
    split
    · simp
      omega
    · simp
  have below : v / 64 % 0x40 + 0x80
      ≤ (if v / 4096 % 0x10 = 0xD then 0x9F else 0xBF : UInt8).toNat := by
    split <;> simp <;> omega
  have whole : (v / 4096 % 0x10 * 64 + v / 64 % 0x40) * 64 + v % 0x40 = v := by omega
  simp only [List.foldl_cons, List.foldl_nil]
  rw [step_opens done opened, step_part _ _ (by omega) above below, step_tail _ _ _ (by omega)]
  dsimp only
  rw [whole]

/-- A code point in four bytes is read whole. -/
theorem Decoder.run_four (done : List Char) {v : Nat} (low : 0xFFFF < v) (high : v < 0x110000) :
    [UInt8.ofNat (v / 262144 % 0x08 + 0xF0), UInt8.ofNat (v / 4096 % 0x40 + 0x80),
      UInt8.ofNat (v / 64 % 0x40 + 0x80), UInt8.ofNat (v % 0x40 + 0x80)].foldl step ⟨done, none⟩
      = ⟨Char.ofNat v :: done, none⟩ := by
  have opened := lead_of_four (show v / 262144 % 0x08 < 5 by omega)
  -- Here the narrower bounds keep to what two or three bytes do not reach, up to the last one.
  have above : (if v / 262144 % 0x08 = 0 then 0x90 else 0x80 : UInt8).toNat
      ≤ v / 4096 % 0x40 + 0x80 := by
    split
    · simp
      omega
    · simp
  have below : v / 4096 % 0x40 + 0x80
      ≤ (if v / 262144 % 0x08 = 4 then 0x8F else 0xBF : UInt8).toNat := by
    split <;> simp <;> omega
  have whole : ((v / 262144 % 0x08 * 64 + v / 4096 % 0x40) * 64 + v / 64 % 0x40) * 64 + v % 0x40
      = v := by omega
  simp only [List.foldl_cons, List.foldl_nil]
  rw [step_opens done opened, step_part _ _ (by omega) above below, step_tail _ _ _ (by omega),
    step_tail _ _ _ (by omega)]
  dsimp only
  rw [whole]

/-- The bytes of a character are read as that character. -/
theorem Decoder.run_encodeChar (done : List Char) (c : Char) :
    (String.utf8EncodeChar c).foldl step ⟨done, none⟩ = ⟨c :: done, none⟩ := by
  -- From here on, the character is the number it stands for, which is no surrogate.
  have valid : c.val.toNat < 0xD800 ∨ 0xDFFF < c.val.toNat ∧ c.val.toNat < 0x110000 := c.valid
  have back : Char.ofNat c.val.toNat = c := Char.ofNat_toNat c
  unfold String.utf8EncodeChar
  generalize c.val.toNat = v at valid back ⊢
  subst back
  -- The number of bytes goes by the size of the code point.
  dsimp only
  split
  · simp [step, first, lead_of_one (show v < 0x80 by omega)]
  · split
    · exact run_two done (by omega) (by omega)
    · split
      · exact run_three done (by omega) (by omega) (by omega)
      · exact run_four done (by omega) (by omega)

/-- The bytes of a text are read as that text. -/
theorem Decoder.run_encode (done text : List Char) :
    (encode text).foldl step ⟨done, none⟩ = ⟨text.reverse ++ done, none⟩ := by
  -- Character by character, each one is complete when the next starts.
  induction text generalizing done with
  | nil => rfl
  | cons c text ih =>
    have split : encode (c :: text) = String.utf8EncodeChar c ++ encode text := rfl
    rw [split, List.foldl_append, run_encodeChar, ih]
    simp

/-- The bytes of one text after another follow each other. -/
theorem encode_append (front back : List Char) :
    encode (front ++ back) = encode front ++ encode back :=
  List.flatMap_append

/-- An encoded text in front of other bytes comes back whole. -/
theorem decode_encode_append (text : List Char) (bytes : Bytes) :
    decode (encode text ++ bytes) = text ++ decode bytes := by
  rw [decode, List.foldl_append, Decoder.run_encode, List.append_nil, Decoder.finish_run,
    List.reverse_reverse]

/-- An encoded text comes back. -/
@[simp] theorem decode_encode (text : List Char) : decode (encode text) = text := by
  -- No bytes behind the text is a case of any bytes behind it.
  have whole := decode_encode_append text []
  rw [List.append_nil] at whole
  rw [whole]
  exact List.append_nil text

/-- Bytes are well-formed exactly if they are the bytes of a text. -/
theorem decode?_eq_some_iff {bytes : Bytes} {text : List Char} :
    decode? bytes = some text ↔ encode text = bytes := by
  -- What decoding loses cannot be brought back by encoding.
  unfold decode?
  constructor
  · intro found
    split at found
    · rename_i lossless
      rw [← Option.some.inj found]
      exact lossless
    · simp at found
  · rintro rfl
    simp

/-- The bytes that follow a whole text in a whole text are those of a text themselves. -/
theorem encode_decode_of_append {front whole : List Char} {bytes : Bytes}
    (joined : encode front ++ bytes = encode whole) : encode (decode bytes) = bytes := by
  -- Decoding the whole splits it behind the front, and encoding again leaves the rest.
  have text := decode_encode_append front bytes
  rw [joined, decode_encode] at text
  rw [text, encode_append] at joined
  exact (List.append_cancel_left joined).symm

/--
An open sequence that cannot become a character below the continuation bytes.

Its next byte is no single character either.
-/
def Pending.Wide (pending : Pending) : Prop :=
  0x80 ≤ pending.low.toNat
    ∧ 0x80 ≤ (pending.bits * 64 + (pending.low.toNat - 0x80)) <<< (6 * pending.more)

/-- A decoder whose open sequence, if there is one, is a wide one. -/
def Decoder.Wide (decoder : Decoder) : Prop :=
  ∀ pending ∈ decoder.pending, pending.Wide

instance (pending : Pending) : Decidable pending.Wide :=
  inferInstanceAs (Decidable (_ ∧ _))

/-- What a byte of some number may be: the character of that number, or the start of a wide one. -/
def Lead.IsFor (n : Nat) : Lead → Prop
  | .single c => c = Char.ofNat n
  | .opens pending => pending.Wide
  | .stray => True

instance (n : Nat) (kind : Lead) : Decidable (kind.IsFor n) :=
  match kind with
  | .single c => inferInstanceAs (Decidable (c = Char.ofNat n))
  | .opens pending => inferInstanceAs (Decidable pending.Wide)
  | .stray => .isTrue trivial

/-- Every byte starts what the standard says it starts. -/
theorem lead_isFor (byte : UInt8) : (lead byte).IsFor byte.toNat := by
  -- There are no more than 256 bytes, and each is looked up.
  have every : ∀ n < 256, (lead (UInt8.ofNat n)).IsFor n := by decide +kernel
  simpa using every byte.toNat byte.toNat_lt

/-- Every first byte of several opens a wide sequence. -/
theorem lead_wide {byte : UInt8} {pending : Pending} (opened : lead byte = .opens pending) :
    pending.Wide := by
  have kind := lead_isFor byte
  rw [opened] at kind
  exact kind

/-- A byte that is admitted is no less than the lowest one. -/
theorem Pending.low_le_of_admits {pending : Pending} {byte : UInt8}
    (admitted : pending.admits byte = true) : pending.low.toNat ≤ byte.toNat := by
  simp only [admits, Bool.and_eq_true, decide_eq_true_eq] at admitted
  exact UInt8.le_iff_toNat_le.mp admitted.1

/-- A wide sequence admits no byte that is a character of its own. -/
theorem Pending.Wide.le_of_admits {pending : Pending} (wide : pending.Wide) {byte : UInt8}
    (admitted : pending.admits byte = true) : 0x80 ≤ byte.toNat :=
  Nat.le_trans wide.1 (low_le_of_admits admitted)

/-- A byte that an open sequence admits leaves it no smaller than its lowest one would. -/
theorem Pending.Wide.grow {pending : Pending} (wide : pending.Wide) {byte : UInt8}
    (admitted : pending.admits byte = true) :
    0x80 ≤ (pending.bits * 64 + (byte.toNat - 0x80)) <<< (6 * pending.more) := by
  have above := low_le_of_admits admitted
  -- The bytes that are still to come can only add to it.
  have larger : pending.bits * 64 + (pending.low.toNat - 0x80)
      ≤ pending.bits * 64 + (byte.toNat - 0x80) := by omega
  have lowest := wide.2
  rw [Nat.shiftLeft_eq] at lowest ⊢
  exact Nat.le_trans lowest (Nat.mul_le_mul_right _ larger)

/-- A byte read where a character starts leaves a wide decoder. -/
theorem Decoder.first_wide (done : List Char) (byte : UInt8) : (first done byte).Wide := by
  -- Only a byte that opens a sequence leaves something pending.
  unfold first Wide
  cases opened : lead byte with
  | single c => simp
  | stray => simp
  | opens pending => simpa using lead_wide opened

/-- No byte takes a decoder out of the wide ones. -/
theorem Decoder.step_wide {decoder : Decoder} (wide : decoder.Wide) (byte : UInt8) :
    (decoder.step byte).Wide := by
  obtain ⟨done, pending⟩ := decoder
  cases pending with
  | none => exact first_wide done byte
  | some pending =>
    obtain ⟨low, high, more, bits⟩ := pending
    have opened : Pending.Wide ⟨low, high, more, bits⟩ := wide _ rfl
    unfold step
    dsimp only
    split
    · rename_i admitted
      have grown := opened.grow admitted
      cases more with
      | zero => simp [Wide]
      | succ more =>
        -- Six bits that were still to come are now in place.
        have sooner : 6 * (more + 1) = 6 + 6 * more := by omega
        rw [sooner, Nat.shiftLeft_add, Nat.shiftLeft_eq _ 6] at grown
        intro pending same
        cases same
        exact ⟨by simp, by simpa using grown⟩
    · -- A byte that does not fit starts anew.
      exact first_wide (replacement :: done) byte

section Plain

/-- A byte that is a character of its own, and not the character zero. -/
def IsPlain (byte : UInt8) : Prop :=
  0 < byte.toNat ∧ byte.toNat < 0x80

instance (byte : UInt8) : Decidable (IsPlain byte) :=
  inferInstanceAs (Decidable (_ ∧ _))

variable {mark : UInt8} (plain : IsPlain mark)

include plain

/-- A number other than that of a plain byte stands for another character. -/
theorem ofNat_ne_of_isPlain {v : Nat} (other : v ≠ mark.toNat) :
    Char.ofNat v ≠ Char.ofNat mark.toNat := by
  intro same
  have marked : (Char.ofNat mark.toNat).toNat = mark.toNat := by
    have valid : mark.toNat.isValidChar := Or.inl (Nat.lt_trans plain.2 (by decide))
    rw [Char.ofNat, dif_pos valid]
    rfl
  have value : (Char.ofNat v).toNat = mark.toNat := (congrArg Char.toNat same).trans marked
  by_cases valid : v.isValidChar
  · rw [Char.ofNat, dif_pos valid] at value
    exact other value
  · -- A number that stands for no character becomes the character zero, which is no plain one.
    rw [Char.ofNat, dif_neg valid] at value
    exact absurd value (Nat.ne_of_lt plain.1)

/-- The replacement stands for no plain byte. -/
theorem replacement_ne_of_isPlain : replacement ≠ Char.ofNat mark.toNat := by
  have small := plain.2
  exact ofNat_ne_of_isPlain plain (show 0xFFFD ≠ mark.toNat by omega)

/-- A plain byte is a character of its own. -/
theorem lead_of_isPlain : lead mark = .single (Char.ofNat mark.toNat) := by
  simp [lead, plain.2]

/-- Where a character starts, a plain byte and nothing else adds the character that it is. -/
theorem Decoder.count_first (done : List Char) (byte : UInt8) :
    (first done byte).done.count (Char.ofNat mark.toNat)
      = done.count (Char.ofNat mark.toNat) + [byte].count mark := by
  by_cases same : byte = mark
  · subst same
    simp [first, lead_of_isPlain plain]
  · have other : byte.toNat ≠ mark.toNat := fun equal => same (UInt8.toNat.inj equal)
    unfold first
    cases read : lead byte with
    | single c =>
      -- A character of one byte has the number of that byte.
      have named : c = Char.ofNat byte.toNat := by
        have kind := lead_isFor byte
        rw [read] at kind
        exact kind
      have kept : c ≠ Char.ofNat mark.toNat := named ▸ ofNat_ne_of_isPlain plain other
      simp [same, kept]
    | opens pending => simp [same]
    | stray => simp [same, replacement_ne_of_isPlain plain]

/-- A plain byte and nothing else adds the character that it is. -/
theorem Decoder.count_step {decoder : Decoder} (wide : decoder.Wide) (byte : UInt8) :
    (decoder.step byte).done.count (Char.ofNat mark.toNat)
      = decoder.done.count (Char.ofNat mark.toNat) + [byte].count mark := by
  obtain ⟨done, pending⟩ := decoder
  have small := plain.2
  cases pending with
  | none => exact count_first plain done byte
  | some pending =>
    have opened : pending.Wide := wide pending rfl
    unfold step
    dsimp only
    split
    · rename_i admitted
      have grown := opened.grow admitted
      -- A byte that continues a sequence is none below the continuation bytes.
      have same : byte ≠ mark := by
        rintro rfl
        have above := opened.le_of_admits admitted
        omega
      cases size : pending.more with
      | zero =>
        -- The last byte completes a character, but none as small as a plain one.
        rw [size, Nat.mul_zero, Nat.shiftLeft_zero] at grown
        have kept := ofNat_ne_of_isPlain plain
          (show pending.bits * 64 + (byte.toNat - 0x80) ≠ mark.toNat by omega)
        simp [same, kept]
      | succ more => simp [same]
    · -- The replacement character is no plain one, and the byte starts anew.
      rw [count_first plain, List.count_cons_of_ne (replacement_ne_of_isPlain plain)]

/-- Decoding neither loses plain characters nor makes them up. -/
theorem Decoder.count_run {decoder : Decoder} (wide : decoder.Wide) (bytes : Bytes) :
    (bytes.foldl step decoder).done.count (Char.ofNat mark.toNat)
      = decoder.done.count (Char.ofNat mark.toNat) + bytes.count mark := by
  -- Byte by byte, a plain one adds its character and any other one adds none.
  induction bytes generalizing decoder with
  | nil => simp
  | cons byte bytes ih =>
    have split : (byte :: bytes).count mark = [byte].count mark + bytes.count mark := by
      rw [← List.count_append]
      rfl
    rw [List.foldl_cons, ih (step_wide wide byte), count_step plain wide byte, split, Nat.add_assoc]

/-- A decoded text has a plain character as often as its bytes have that byte. -/
theorem count_decode_of_isPlain (bytes : Bytes) :
    (decode bytes).count (Char.ofNat mark.toNat) = bytes.count mark := by
  -- A decoder with nothing open is a wide one.
  have start : Decoder.Wide ⟨[], none⟩ := by simp [Decoder.Wide]
  have run := Decoder.count_run plain start bytes
  rw [decode]
  generalize bytes.foldl Decoder.step ⟨[], none⟩ = decoder at run ⊢
  have kept := replacement_ne_of_isPlain plain
  obtain ⟨done, pending⟩ := decoder
  -- What is still open at the end becomes a replacement character, which is no plain one.
  cases pending with
  | none => simpa [Decoder.finish] using run
  | some pending => simpa [Decoder.finish, kept] using run

/-- A plain character is in a text if its byte is among the bytes of the text. -/
theorem mem_decode_of_isPlain {bytes : Bytes} :
    Char.ofNat mark.toNat ∈ decode bytes ↔ mark ∈ bytes := by
  rw [← List.count_pos_iff, ← List.count_pos_iff, count_decode_of_isPlain plain]

/-- A plain byte ends what is open, and the bytes behind it are decoded by themselves. -/
theorem decode_append_cons (front back : Bytes) :
    decode (front ++ mark :: back)
      = decode front ++ Char.ofNat mark.toNat :: decode back := by
  have wide : (front.foldl Decoder.step ⟨[], none⟩).Wide := by
    have start : Decoder.Wide ⟨[], none⟩ := by simp [Decoder.Wide]
    exact List.foldlRecOn front Decoder.step start fun _ kept byte _ => Decoder.step_wide kept byte
  -- An open sequence admits no plain byte, so it is replaced and the byte read as it is.
  have ended : (front.foldl Decoder.step ⟨[], none⟩).step mark
      = ⟨Char.ofNat mark.toNat :: (decode front).reverse, none⟩ := by
    rw [decode]
    generalize front.foldl Decoder.step ⟨[], none⟩ = decoder at wide ⊢
    obtain ⟨done, pending⟩ := decoder
    cases pending with
    | none => simp [Decoder.step, Decoder.first, lead_of_isPlain plain, Decoder.finish]
    | some pending =>
      have refused : pending.admits mark = false := by
        rw [Bool.eq_false_iff]
        intro admitted
        have above := (wide pending rfl).le_of_admits admitted
        have small := plain.2
        omega
      simp [Decoder.step, refused, Decoder.first, lead_of_isPlain plain, Decoder.finish]
  rw [decode, List.foldl_append, List.foldl_cons, ended, Decoder.finish_run, List.reverse_cons,
    List.reverse_reverse, List.append_assoc, List.singleton_append]

end Plain

/-- A decoded text has as many line ends as its bytes have line feeds. -/
theorem count_decode (bytes : Bytes) : (decode bytes).count '\n' = bytes.count lineFeed :=
  count_decode_of_isPlain (show IsPlain lineFeed by decide) bytes

/-- The bytes of a text have as many line feeds as the text has line ends. -/
theorem count_encode (text : List Char) : (encode text).count lineFeed = text.count '\n' := by
  rw [← count_decode, decode_encode]

end Surface.Utf8
