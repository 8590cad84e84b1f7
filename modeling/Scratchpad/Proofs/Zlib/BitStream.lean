import Mathlib
import Scratchpad.Zlib.BitReader
import Scratchpad.Zlib.BitWriter

/-! Readers and writers as lists of bits. A reader with less than a byte pending is determined by
the bits ahead of it, so every read is an equation between lists; a writer only appends.
-/

namespace Scratchpad.Zlib

@[simp]
theorem length_bitsOfByte (byte : UInt8)
    : (bitsOfByte byte).length = 8 := rfl

theorem length_flatMap_bitsOfByte (bytes : List UInt8)
    : (bytes.flatMap bitsOfByte).length % 8 = 0 := by
  induction bytes with
  | nil => rfl
  | cons byte bytes ih =>
      rw [List.flatMap_cons, List.length_append, length_bitsOfByte]
      omega

/-- Eight bits are read back from the byte they make up. -/
theorem bitsOfByte_byteOfBits {bits : List Bool} (eight : bits.length = 8)
    : bitsOfByte (byteOfBits bits) = bits := by
  have all : ∀ a b c d e f g h : Bool,
      bitsOfByte (byteOfBits [a, b, c, d, e, f, g, h]) = [a, b, c, d, e, f, g, h] := by
    decide +kernel
  match bits, eight with
  | [a, b, c, d, e, f, g, h], _ => exact all a b c d e f g h

/-- The bits of a byte that holds fewer than eight, with the missing ones zero. -/
theorem bitsOfByte_padded {bits : List Bool} (short : bits.length ≤ 8)
    : bitsOfByte (byteOfBits bits) = bits ++ List.replicate (8 - bits.length) false := by
  have zeros : ∀ count, natOfBits (List.replicate count false) = 0 := by
    intro count
    induction count with
    | zero => rfl
    | succ count ih => simp [List.replicate_succ, natOfBits, ih]
  have same : ∀ (bits : List Bool) (count : Nat),
      natOfBits (bits ++ List.replicate count false) = natOfBits bits := by
    intro bits count
    induction bits with
    | nil => exact zeros count
    | cons bit bits ih => simp [natOfBits, ih]
  rw [byteOfBits, ← same bits (8 - bits.length)]
  exact bitsOfByte_byteOfBits (by simp; omega)

/-- A number that fits is read back from its bits. -/
theorem natOfBits_bitsOfNat {count number : Nat} (fits : number < 2 ^ count)
    : natOfBits (bitsOfNat count number) = number := by
  induction count generalizing number with
  | zero =>
      have zero : number = 0 := by omega
      rw [zero]
      rfl
  | succ count ih =>
      have half : number / 2 < 2 ^ count := by
        rw [Nat.pow_succ] at fits
        omega
      rw [bitsOfNat, natOfBits, ih half]
      rcases Nat.mod_two_eq_zero_or_one number with even | odd
      · simp [even]
        omega
      · simp [odd]
        omega

------------------------------------------------------------------------------------------
-- Reading
------------------------------------------------------------------------------------------

namespace BitReader

/-- The reader with the given bits ahead, of which whole bytes at the end are not yet begun. -/
def ofBits : List Bool → BitReader
  | [] => ⟨[], []⟩
  | bit :: more =>
      let reader := ofBits more
      if reader.pending.length = 7 then
        ⟨[], byteOfBits (bit :: reader.pending) :: reader.rest⟩
      else
        ⟨bit :: reader.pending, reader.rest⟩

theorem length_pending_ofBits (bits : List Bool)
    : (ofBits bits).pending.length = bits.length % 8 := by
  induction bits with
  | nil => rfl
  | cons bit more ih =>
      simp only [ofBits]
      split
      · simp only [List.length_nil, List.length_cons]
        omega
      · simp only [List.length_cons]
        omega

theorem pending_ofBits {bits : List Bool} (whole : bits.length % 8 = 0)
    : (ofBits bits).pending = [] :=
  List.eq_nil_of_length_eq_zero ((length_pending_ofBits bits).trans whole)

@[simp]
theorem next?_ofBits (bit : Bool) (more : List Bool)
    : (ofBits (bit :: more)).next? = some (bit, ofBits more) := by
  simp only [ofBits]
  split
  · rename_i seven
    have back : bitsOfByte (byteOfBits (bit :: (ofBits more).pending))
        = bit :: (ofBits more).pending :=
      bitsOfByte_byteOfBits (by simp [seven])
    simp only [next?, back]
  · rfl

@[simp]
theorem take?_ofBits (bits more : List Bool)
    : (ofBits (bits ++ more)).take? bits.length = some (bits, ofBits more) := by
  induction bits with
  | nil => rfl
  | cons bit bits ih => simp [take?, ih]

/-- A number that fits in a count of bits is read back. -/
theorem number?_ofBits {count number : Nat} (fits : number < 2 ^ count) (more : List Bool)
    : (ofBits (bitsOfNat count number ++ more)).number? count
      = some (number, ofBits more) := by
  have taken := take?_ofBits (bitsOfNat count number) more
  rw [length_bitsOfNat] at taken
  simp only [number?, taken, Option.map_some, natOfBits_bitsOfNat fits]

/-- A whole byte ahead of whole bytes stands as it is in the reader. -/
theorem ofBits_byte (byte : UInt8) {more : List Bool} (whole : more.length % 8 = 0)
    : ofBits (bitsOfByte byte ++ more) = ⟨[], byte :: (ofBits more).rest⟩ := by
  have empty := pending_ofBits whole
  have back := byteOfBits_bitsOfByte byte
  simp only [bitsOfByte] at back
  simp only [bitsOfByte, List.cons_append, List.nil_append, ofBits, empty]
  simpa using back

theorem ofBytes_eq_ofBits (bytes : List UInt8)
    : ofBytes bytes = ofBits (bytes.flatMap bitsOfByte) := by
  induction bytes with
  | nil => rfl
  | cons byte bytes ih =>
      have rest : (ofBits (bytes.flatMap bitsOfByte)).rest = bytes := by rw [← ih]; rfl
      rw [List.flatMap_cons, ofBits_byte byte (length_flatMap_bitsOfByte bytes), rest]
      rfl

/-- Skipping to the boundary drops the bits that do not make up a byte. -/
theorem align_ofBits {pad more : List Bool} (short : pad.length < 8)
    (whole : more.length % 8 = 0)
    : (ofBits (pad ++ more)).align = ofBits more := by
  induction pad with
  | nil =>
      rw [List.nil_append, align, ← pending_ofBits whole]
  | cons bit pad ih =>
      simp only [List.length_cons] at short
      have pending := length_pending_ofBits (pad ++ more)
      rw [List.length_append] at pending
      have few : (ofBits (pad ++ more)).pending.length ≠ 7 := by omega
      rw [← ih (by omega)]
      simp only [List.cons_append, ofBits, if_neg few]
      rfl

theorem byte?_align (reader : BitReader)
    : reader.align.byte? = reader.byte? := rfl

@[simp]
theorem byte?_ofBits (byte : UInt8) {more : List Bool} (whole : more.length % 8 = 0)
    : (ofBits (bitsOfByte byte ++ more)).byte? = some (byte, ofBits more) := by
  rw [ofBits_byte byte whole]
  simp only [byte?]
  rw [← pending_ofBits whole]

end BitReader

------------------------------------------------------------------------------------------
-- Writing
------------------------------------------------------------------------------------------

namespace BitWriter

theorem bits_pack (bytes : Array UInt8) (pending : List Bool)
    : (pack bytes pending).bits = bytes.toList.flatMap bitsOfByte ++ pending := by
  fun_induction pack bytes pending with
  | case1 bytes a b c d e f g h rest ih =>
      rw [ih]
      simp [bitsOfByte_byteOfBits]
  | case2 => rfl

theorem length_pending_pack (bytes : Array UInt8) (pending : List Bool)
    : (pack bytes pending).pending.length < 8 := by
  fun_induction pack bytes pending with
  | case1 => assumption
  | case2 bytes pending few =>
      match pending with
      | [] | [_] | [_, _] | [_, _, _] | [_, _, _, _] | [_, _, _, _, _] | [_, _, _, _, _, _]
      | [_, _, _, _, _, _, _] => simp
      | a :: b :: c :: d :: e :: f :: g :: h :: rest => exact (few a b c d e f g h rest rfl).elim

@[simp]
theorem bits_append (writer : BitWriter) (bits : List Bool)
    : (writer.append bits).bits = writer.bits ++ bits := by
  rw [append, bits_pack, ← List.append_assoc]
  rfl

theorem length_pending_append (writer : BitWriter) (bits : List Bool)
    : (writer.append bits).pending.length < 8 :=
  length_pending_pack _ _

@[simp]
theorem bits_number (writer : BitWriter) (count value : Nat)
    : (writer.number count value).bits = writer.bits ++ bitsOfNat count value :=
  bits_append writer _

@[simp]
theorem pending_align (writer : BitWriter)
    : writer.align.pending = [] := by
  rw [align]
  split
  · assumption
  · rfl

/-- Filling up to the boundary appends fewer than eight bits. -/
theorem bits_align {writer : BitWriter} (short : writer.pending.length < 8)
    : ∃ pad, pad.length < 8 ∧ writer.align.bits = writer.bits ++ pad := by
  rw [align]
  split
  · exact ⟨[], by simp, by simp⟩
  · rename_i pending nonempty
    refine ⟨List.replicate (8 - writer.pending.length) false, ?_, ?_⟩
    · have : writer.pending.length ≠ 0 := by simpa using nonempty
      rw [List.length_replicate]
      omega
    · simp only [bits, Array.toList_push, List.flatMap_append, List.flatMap_singleton,
        List.append_nil, bitsOfByte_padded (Nat.le_of_lt short), List.append_assoc]

theorem length_bits_align (writer : BitWriter)
    : writer.align.bits.length % 8 = 0 := by
  rw [bits, pending_align, List.append_nil]
  exact length_flatMap_bitsOfByte _

@[simp]
theorem pending_appendBytes (writer : BitWriter) (more : Array UInt8)
    : (writer.appendBytes more).pending = [] :=
  pending_align writer

@[simp]
theorem bits_appendBytes (writer : BitWriter) (more : Array UInt8)
    : (writer.appendBytes more).bits
      = writer.align.bits ++ more.toList.flatMap bitsOfByte := by
  simp [appendBytes, bits]

end BitWriter

end Scratchpad.Zlib
