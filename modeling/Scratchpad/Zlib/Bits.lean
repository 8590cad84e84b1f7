/-! Bits of bytes and numbers. A byte holds eight bits with the lowest first, and so does every
number of a compressed stream; the codewords of symbols are bit lists of their own.
-/

namespace Scratchpad.Zlib

/-- The eight bits of a byte, lowest first. -/
def bitsOfByte (byte : UInt8) : List Bool :=
  [ byte &&& 0x01 != 0, byte &&& 0x02 != 0, byte &&& 0x04 != 0, byte &&& 0x08 != 0,
    byte &&& 0x10 != 0, byte &&& 0x20 != 0, byte &&& 0x40 != 0, byte &&& 0x80 != 0 ]

/-- The number whose bits are given, lowest first. -/
def natOfBits : List Bool → Nat
  | [] => 0
  | bit :: rest => bit.toNat + 2 * natOfBits rest

/-- The lowest `count` bits of a number, lowest first. -/
def bitsOfNat : (count : Nat) → (number : Nat) → List Bool
  | 0, _ => []
  | count + 1, number => (number % 2 == 1) :: bitsOfNat count (number / 2)

/-- The byte that up to eight bits make up, the missing ones being zero. -/
def byteOfBits (bits : List Bool) : UInt8 :=
  UInt8.ofNat (natOfBits bits)

@[simp]
theorem length_bitsOfNat (count number : Nat)
    : (bitsOfNat count number).length = count := by
  induction count generalizing number with
  | zero => rfl
  | succ count ih => simp [bitsOfNat, ih]

/-- A byte is read back from its bits. -/
theorem byteOfBits_bitsOfByte (byte : UInt8)
    : byteOfBits (bitsOfByte byte) = byte := by
  have all : ∀ n : Fin 256, byteOfBits (bitsOfByte (UInt8.ofNat n.val)) = UInt8.ofNat n.val := by
    decide +kernel
  simpa using all ⟨byte.toNat, byte.toNat_lt⟩

end Scratchpad.Zlib
