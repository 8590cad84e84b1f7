/-! URL-safe base64 without padding. Bytes are written three at a time as four digits of six bits;
reading accepts exactly what writing produces and names the first place where a text differs.
-/

namespace Scratchpad.Base64Url

------------------------------------------------------------------------------------------
-- The alphabet
------------------------------------------------------------------------------------------

/-- The digit that stands for a value below 64: letters, small letters, figures, `-`, `_`. -/
def digit (value : Nat) : Char :=
  if value < 26 then
    Char.ofNat (value + 65)
  else if value < 52 then
    Char.ofNat (value + 71)
  else if value < 62 then
    Char.ofNat (value - 4)
  else if value = 62 then
    '-'
  else
    '_'

/-- The value of a byte that is a digit of the alphabet. -/
def value? (byte : UInt8) : Option Nat :=
  if 65 ≤ byte ∧ byte ≤ 90 then
    some (byte.toNat - 65)
  else if 97 ≤ byte ∧ byte ≤ 122 then
    some (byte.toNat - 71)
  else if 48 ≤ byte ∧ byte ≤ 57 then
    some (byte.toNat + 4)
  else if byte = 45 then
    some 62
  else if byte = 95 then
    some 63
  else
    none

/-- The padding byte `=`, which other dialects write and this one refuses. -/
def padding : UInt8 := 61

------------------------------------------------------------------------------------------
-- Writing
------------------------------------------------------------------------------------------

/-- Appends the digits of the bytes to a text. A last group of one or two bytes is written with
two or three digits whose unused low bits are zero.
-/
def encodeInto (out : String) : List UInt8 → String
  | a :: b :: c :: rest =>
    let out := out.push (digit (a.toNat / 4))
    let out := out.push (digit (a.toNat % 4 * 16 + b.toNat / 16))
    let out := out.push (digit (b.toNat % 16 * 4 + c.toNat / 64))
    encodeInto (out.push (digit (c.toNat % 64))) rest
  | [a, b] =>
    let out := out.push (digit (a.toNat / 4))
    let out := out.push (digit (a.toNat % 4 * 16 + b.toNat / 16))
    out.push (digit (b.toNat % 16 * 4))
  | [a] =>
    let out := out.push (digit (a.toNat / 4))
    out.push (digit (a.toNat % 4 * 16))
  | [] => out

/-- The text of the bytes. -/
def encode (bytes : List UInt8) : String :=
  encodeInto "" bytes

------------------------------------------------------------------------------------------
-- Reading
------------------------------------------------------------------------------------------

/-- Why a text is no encoding. Offsets count bytes of its UTF-8 form. -/
inductive Fault where
  | invalidByte (offset : Nat) (byte : UInt8)
  | invalidLength (length : Nat)
  | invalidPadding
  | invalidLastSymbol (offset : Nat) (byte : UInt8)
deriving DecidableEq

/-- The wording of a fault. -/
def Fault.message : Fault → String
  | .invalidByte offset byte => s!"Invalid symbol {byte.toNat}, offset {offset}."
  | .invalidLength length => s!"Invalid input length: {length}"
  | .invalidPadding => "Invalid padding"
  | .invalidLastSymbol offset byte => s!"Invalid last symbol {byte.toNat}, offset {offset}."

/-- The value of the digit at an offset, or the fault that it is none. -/
def valueAt (offset : Nat) (byte : UInt8) : Except Fault Nat :=
  match value? byte with
  | some value => .ok value
  | none => .error (.invalidByte offset byte)

/-- Appends the bytes of whole groups of four digits, which start at `offset`. -/
def decodeGroups (offset : Nat) (out : Array UInt8) : List UInt8 → Except Fault (Array UInt8)
  | a :: b :: c :: d :: rest => do
    let a ← valueAt offset a
    let b ← valueAt (offset + 1) b
    let c ← valueAt (offset + 2) c
    let d ← valueAt (offset + 3) d
    let out := out.push (UInt8.ofNat (a * 4 + b / 16))
    let out := out.push (UInt8.ofNat (b % 16 * 16 + c / 4))
    decodeGroups (offset + 4) (out.push (UInt8.ofNat (c % 4 * 64 + d))) rest
  | _ => .ok out

/-- What the last group of one to four bytes holds: its digits, and where its padding starts. -/
structure LastGroup where
  digits : List (UInt8 × Nat)
  paddedAt : Option Nat

/-- Reads the last group from left to right. Padding may follow two digits, and only padding may
follow padding; it is refused later, after the count of digits.
-/
def LastGroup.read (start index : Nat) (group : LastGroup)
    : List UInt8 → Except Fault LastGroup
  | [] => .ok group
  | byte :: rest =>
    if byte = padding then
      if index < 2 then
        .error (.invalidByte (start + index) padding)
      else
        let paddedAt := group.paddedAt.getD (start + index)
        LastGroup.read start (index + 1) { group with paddedAt := some paddedAt } rest
    else
      match group.paddedAt with
      | some offset => .error (.invalidByte offset padding)
      | none => do
        let value ← valueAt (start + index) byte
        let digits := group.digits ++ [(byte, value)]
        LastGroup.read start (index + 1) { group with digits := digits } rest

/-- The bytes of the last group, appended to `out`. The digits must fill at least one byte, no
padding may follow, and the bits beyond the last byte must be zero.
-/
def LastGroup.decode (start : Nat) (group : LastGroup) (out : Array UInt8)
    : Except Fault (Array UInt8) :=
  if group.digits.length < 2 then
    .error (.invalidLength (start + group.digits.length))
  else if group.paddedAt.isSome then
    .error .invalidPadding
  else
    match group.digits with
    | [(_, a), (last, b)] =>
      if b % 16 ≠ 0 then
        .error (.invalidLastSymbol (start + 1) last)
      else
        .ok (out.push (UInt8.ofNat (a * 4 + b / 16)))
    | [(_, a), (_, b), (last, c)] =>
      if c % 4 ≠ 0 then
        .error (.invalidLastSymbol (start + 2) last)
      else
        let out := out.push (UInt8.ofNat (a * 4 + b / 16))
        .ok (out.push (UInt8.ofNat (b % 16 * 16 + c / 4)))
    | (_, a) :: (_, b) :: (_, c) :: (_, d) :: _ =>
      let out := out.push (UInt8.ofNat (a * 4 + b / 16))
      let out := out.push (UInt8.ofNat (b % 16 * 16 + c / 4))
      .ok (out.push (UInt8.ofNat (c % 4 * 64 + d)))
    | _ => .ok out

/-- A single byte left over cannot be a whole group, and one that is no digit either is named
before anything else.
-/
def checkLeftover (text : List UInt8) : Except Fault Unit :=
  match text.getLast? with
  | some last =>
    if text.length % 4 = 1 ∧ last ≠ padding ∧ (value? last).isNone then
      .error (.invalidByte (text.length - 1) last)
    else
      .ok ()
  | none => .ok ()

/-- The bytes that a text encodes. The groups before the last are judged before the last one. -/
def decode (text : List UInt8) : Except Fault (Array UInt8) := do
  checkLeftover text
  match text with
  | [] => .ok #[]
  | _ =>
    let start := (text.length - 1) / 4 * 4
    let out ← decodeGroups 0 #[] (text.take start)
    let group ← LastGroup.read start 0 ⟨[], none⟩ (text.drop start)
    group.decode start out

end Scratchpad.Base64Url
