import Scratchpad.Zlib.Bits

/-! Reading a stream bit by bit. The view of a reader is the list of the bits ahead of it; every
successful read takes them from the front, so the number of bits ahead bounds any decoder.
-/

namespace Scratchpad.Zlib

/-- A place in a stream: the bits left of the current byte, and the bytes behind it. -/
structure BitReader where
  pending : List Bool
  rest : List UInt8

namespace BitReader

/-- A reader at the start of the bytes. -/
def ofBytes (bytes : List UInt8) : BitReader :=
  ⟨[], bytes⟩

/-- The bits ahead of a reader. -/
def bits (reader : BitReader) : List Bool :=
  reader.pending ++ reader.rest.flatMap bitsOfByte

/-- The number of bits ahead of a reader. -/
def bitCount (reader : BitReader) : Nat :=
  reader.pending.length + 8 * reader.rest.length

/-- The next bit. -/
def next? (reader : BitReader) : Option (Bool × BitReader) :=
  match reader.pending with
  | bit :: pending => some (bit, { reader with pending := pending })
  | [] =>
    match reader.rest with
    | [] => none
    | byte :: rest =>
      match bitsOfByte byte with
      | [] => none
      | bit :: pending => some (bit, ⟨pending, rest⟩)

/-- The next `count` bits. -/
def take? : (count : Nat) → BitReader → Option (List Bool × BitReader)
  | 0, reader => some ([], reader)
  | count + 1, reader =>
    match reader.next? with
    | none => none
    | some (bit, reader) =>
      match take? count reader with
      | none => none
      | some (bits, reader) => some (bit :: bits, reader)

/-- The number that the next `count` bits make up. -/
def number? (count : Nat) (reader : BitReader) : Option (Nat × BitReader) :=
  (reader.take? count).map fun (bits, reader) => (natOfBits bits, reader)

/-- Skips to the next byte boundary, whatever the bits before it are. -/
def align (reader : BitReader) : BitReader :=
  { reader with pending := [] }

/-- The next whole byte, after the boundary. -/
def byte? (reader : BitReader) : Option (UInt8 × BitReader) :=
  match reader.rest with
  | [] => none
  | byte :: rest => some (byte, ⟨[], rest⟩)

------------------------------------------------------------------------------------------
-- Reading makes a stream shorter
------------------------------------------------------------------------------------------

theorem bitCount_next {reader after : BitReader} {bit : Bool}
    (read : reader.next? = some (bit, after))
    : after.bitCount < reader.bitCount := by
  unfold next? at read
  split at read
  · rename_i pending h
    obtain ⟨-, rfl⟩ := by simpa using read
    simp [bitCount, h]
  · rename_i h
    split at read
    · simp at read
    · rename_i byte rest hrest
      simp only [bitsOfByte] at read
      obtain ⟨-, rfl⟩ := by simpa using read
      simp [bitCount, h, hrest]
      omega

theorem bitCount_take {count : Nat} {reader after : BitReader} {bits : List Bool}
    (read : reader.take? count = some (bits, after))
    : after.bitCount + count ≤ reader.bitCount := by
  induction count generalizing reader bits with
  | zero => simp_all [take?]
  | succ count ih =>
    unfold take? at read
    split at read
    · simp at read
    · rename_i bit middle first
      split at read
      · simp at read
      · rename_i bits' after' more
        obtain ⟨-, rfl⟩ := by simpa using read
        have := ih more
        have := bitCount_next first
        omega

theorem bitCount_number {count number : Nat} {reader after : BitReader}
    (read : reader.number? count = some (number, after))
    : after.bitCount + count ≤ reader.bitCount := by
  obtain ⟨⟨bits, middle⟩, taken, same⟩ := Option.map_eq_some_iff.1 read
  obtain ⟨-, rfl⟩ := by simpa using same
  exact bitCount_take taken

theorem bitCount_align (reader : BitReader)
    : reader.align.bitCount ≤ reader.bitCount := by
  simp [align, bitCount]

theorem bitCount_byte {reader after : BitReader} {byte : UInt8}
    (read : reader.byte? = some (byte, after))
    : after.bitCount + 8 ≤ reader.bitCount := by
  unfold byte? at read
  split at read
  · simp at read
  · rename_i h
    obtain ⟨-, rfl⟩ := by simpa using read
    simp [bitCount, h]
    omega

end BitReader

end Scratchpad.Zlib
