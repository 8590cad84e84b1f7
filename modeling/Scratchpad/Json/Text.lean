import Scratchpad.Json.Cursor

/-! Reading strings, byte by byte behind the opening quotation mark. Bytes above the controls stand
for themselves; a backslash starts an escape, and two escapes in base 16 may make up one character.
-/

namespace Scratchpad.Json

/-- The value of a digit of base 16. -/
def hexValue? (byte : UInt8) : Option Nat :=
  if 48 ≤ byte ∧ byte ≤ 57 then
    some (byte.toNat - 48)
  else if 65 ≤ byte ∧ byte ≤ 70 then
    some (byte.toNat - 55)
  else if 97 ≤ byte ∧ byte ≤ 102 then
    some (byte.toNat - 87)
  else
    none

/-- The value of four digits of base 16. -/
def hexValue4? (a b c d : UInt8) : Option Nat := do
  let a ← hexValue? a
  let b ← hexValue? b
  let c ← hexValue? c
  let d ← hexValue? d
  return ((a * 16 + b) * 16 + c) * 16 + d

/-- The byte that an escape of one letter stands for. -/
def shortEscape? (byte : UInt8) : Option UInt8 :=
  if byte = 34 ∨ byte = 92 ∨ byte = 47 then
    some byte
  else if byte = 98 then
    some 8
  else if byte = 102 then
    some 12
  else if byte = 110 then
    some 10
  else if byte = 114 then
    some 13
  else if byte = 116 then
    some 9
  else
    none

/-- Whether a number is that of a surrogate that comes first in a pair. -/
def isHighSurrogate (unit : Nat) : Bool :=
  0xD800 ≤ unit && unit ≤ 0xDBFF

/-- Whether a number is that of a surrogate that comes second in a pair. -/
def isLowSurrogate (unit : Nat) : Bool :=
  0xDC00 ≤ unit && unit ≤ 0xDFFF

/-- The character of a pair of surrogates. -/
def pairChar (high low : Nat) : Char :=
  Char.ofNat (0x10000 + (high - 0xD800) * 1024 + (low - 0xDC00))

/-- Where a reader of a string stands. -/
inductive StringState where
  /-- Between characters. -/
  | plain
  /-- Behind a backslash. -/
  | escape
  /-- Among the four digits of an escape, behind some of them and perhaps behind the first
  surrogate of a pair. -/
  | digits (seen : List UInt8) (high : Option Nat)
  /-- Behind the first surrogate of a pair, before the next backslash. -/
  | betweenPair (high : Nat)
  /-- Behind that backslash. -/
  | escapeInPair (high : Nat)

/-- What reading one byte of a string leads to. -/
inductive StringStep where
  | go (state : StringState) (text : Array UInt8)
  | close
  | wrong (fault : Fault)

/-- Appends the bytes of a character. -/
def pushChar (text : Array UInt8) (char : Char) : Array UInt8 :=
  text ++ (String.utf8EncodeChar char).toArray

/-- What the last digit of an escape completes. -/
def StringStep.ofDigits (text : Array UInt8) (high : Option Nat) : Option Nat → StringStep
  | none => .wrong .invalidEscape
  | some unit =>
    match high with
    | some high =>
      if isLowSurrogate unit then
        .go .plain (pushChar text (pairChar high unit))
      else
        .wrong .loneSurrogate
    | none =>
      if isLowSurrogate unit then
        .wrong .loneSurrogate
      else if isHighSurrogate unit then
        .go (.betweenPair unit) text
      else
        .go .plain (pushChar text (Char.ofNat unit))

/-- Reads one byte of a string. The digits of an escape are judged when all four are there. -/
def StringState.step (text : Array UInt8) (byte : UInt8) : StringState → StringStep
  | plain =>
    if byte = 34 then
      .close
    else if byte = 92 then
      .go .escape text
    else if byte < 32 then
      .wrong .controlCharacter
    else
      .go .plain (text.push byte)
  | escape =>
    match shortEscape? byte with
    | some meant => .go .plain (text.push meant)
    | none => if byte = 117 then .go (.digits [] none) text else .wrong .invalidEscape
  | digits [a, b, c] high => .ofDigits text high (hexValue4? a b c byte)
  | digits seen high => .go (.digits (seen ++ [byte]) high) text
  | betweenPair high =>
    if byte = 92 then .go (.escapeInPair high) text else .wrong .endOfHexEscape
  | escapeInPair high =>
    if byte = 117 then .go (.digits [] (some high)) text else .wrong .endOfHexEscape

namespace Cursor

/-- Reads the rest of a string, behind a part that is read. -/
def stringFrom (state : StringState) (text : Array UInt8) (place : Place)
    : List UInt8 → Except ReadError (Array UInt8 × Cursor)
  | [] => .error ⟨.endInString, place⟩
  | byte :: rest =>
    match state.step text byte with
    | .go state text => stringFrom state text (place.after byte) rest
    | .close => .ok (text, ⟨place.after byte, rest⟩)
    | .wrong fault => .error ⟨fault, place.after byte⟩

/-- Reads a string behind its opening quotation mark. -/
def string (cursor : Cursor) : Except ReadError (String × Cursor) := do
  let (bytes, cursor) ← stringFrom .plain #[] cursor.place cursor.rest
  match String.fromUTF8? ⟨bytes⟩ with
  | none => cursor.fail .invalidUnicode
  | some text => return (text, cursor)

theorem ahead_string {cursor after : Cursor} {text : String}
    (found : cursor.string = .ok (text, after))
    : after.ahead < cursor.ahead := by
  have run : ∀ rest state bytes place read,
      stringFrom state bytes place rest = .ok (read, after) → after.ahead < rest.length := by
    intro rest
    induction rest with
    | nil => simp [stringFrom]
    | cons byte rest ih =>
      intro state bytes place read found
      unfold stringFrom at found
      split at found
      · exact Nat.lt_succ_of_lt (ih _ _ _ _ found)
      · obtain ⟨-, rfl⟩ := by simpa using found
        simp [ahead]
      · contradiction
  simp only [string, bind, Except.bind, pure, Except.pure, fail] at found
  repeat' split at found
  all_goals first | contradiction | skip
  rename_i read _ _ _
  obtain ⟨-, rfl⟩ := by simpa using found
  exact run _ _ _ _ _ read

end Cursor

end Scratchpad.Json
