/-! Reading bytes as UTF-8 without ever failing. Where bytes are no text, the longest piece that
could have begun a character is replaced as one.
-/

namespace Scratchpad.Text

/-- The character that stands for bytes that are no text. -/
def replacement : Char := '\uFFFD'

/-- What the first byte of a longer character asks for: the bounds of the second byte, the bits of
its own that count, and how many bytes follow the second.
-/
structure LeadByte where
  low : UInt8
  high : UInt8
  bits : Nat
  more : Nat

/-- The meaning of a first byte. Forms that are longer than they need be, surrogates and numbers
beyond the last code point are ruled out by the bounds of the second byte.
-/
def leadByte? (byte : UInt8) : Option LeadByte :=
  let value := byte.toNat
  if 0xC2 ≤ byte ∧ byte ≤ 0xDF then
    some ⟨0x80, 0xBF, value - 0xC0, 0⟩
  else if byte = 0xE0 then
    some ⟨0xA0, 0xBF, value - 0xE0, 1⟩
  else if byte = 0xED then
    some ⟨0x80, 0x9F, value - 0xE0, 1⟩
  else if 0xE1 ≤ byte ∧ byte ≤ 0xEF then
    some ⟨0x80, 0xBF, value - 0xE0, 1⟩
  else if byte = 0xF0 then
    some ⟨0x90, 0xBF, value - 0xF0, 2⟩
  else if 0xF1 ≤ byte ∧ byte ≤ 0xF3 then
    some ⟨0x80, 0xBF, value - 0xF0, 2⟩
  else if byte = 0xF4 then
    some ⟨0x80, 0x8F, value - 0xF0, 2⟩
  else
    none

/-- The character that continues after a first byte, and the bytes behind it. The first byte out
of bounds is left for the next character.
-/
def continueChar (low high : UInt8) (bits more : Nat) : List UInt8 → Char × List UInt8
  | [] => (replacement, [])
  | byte :: rest =>
    if low ≤ byte ∧ byte ≤ high then
      let bits := bits * 64 + byte.toNat % 64
      match more with
      | 0 => (Char.ofNat bits, rest)
      | more + 1 => continueChar 0x80 0xBF bits more rest
    else
      (replacement, byte :: rest)

theorem length_continueChar (low high : UInt8) (bits more : Nat) (bytes : List UInt8)
    : (continueChar low high bits more bytes).2.length ≤ bytes.length := by
  induction bytes generalizing low high bits more with
  | nil => simp [continueChar]
  | cons byte rest ih =>
    unfold continueChar
    split
    · cases more with
      | zero => simp
      | succ more => exact Nat.le_succ_of_le (ih ..)
    · simp

/-- The first character of a nonempty list of bytes, and the bytes behind it. -/
def firstChar (byte : UInt8) (rest : List UInt8) : Char × List UInt8 :=
  if byte < 0x80 then
    (Char.ofNat byte.toNat, rest)
  else
    match leadByte? byte with
    | none => (replacement, rest)
    | some lead => continueChar lead.low lead.high lead.bits lead.more rest

theorem length_firstChar (byte : UInt8) (rest : List UInt8)
    : (firstChar byte rest).2.length ≤ rest.length := by
  unfold firstChar
  split
  · simp
  · split
    · simp
    · exact length_continueChar ..

/-- Appends the text of the bytes. -/
def decodeInto (out : String) : List UInt8 → String
  | [] => out
  | byte :: rest =>
    have := length_firstChar byte rest
    decodeInto (out.push (firstChar byte rest).1) (firstChar byte rest).2
termination_by bytes => bytes.length
decreasing_by simp only [List.length_cons]; omega

/-- The text of the bytes. -/
def decodeLossy (bytes : List UInt8) : String :=
  decodeInto "" bytes

end Scratchpad.Text
