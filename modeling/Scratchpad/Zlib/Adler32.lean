/-! The checksum at the end of a stream: two sums modulo the largest prime below 2^16, of the
bytes and of the running first sum.
-/

namespace Scratchpad.Zlib

/-- The two running sums. -/
structure Adler32 where
  low : Nat
  high : Nat
deriving DecidableEq

namespace Adler32

/-- The largest prime below 2^16. -/
def modulus : Nat := 65521

/-- The sums before the first byte. -/
def start : Adler32 := ⟨1, 0⟩

/-- The sums after one more byte. -/
def add (sums : Adler32) (byte : UInt8) : Adler32 :=
  let low := (sums.low + byte.toNat) % modulus
  ⟨low, (sums.high + low) % modulus⟩

/-- The checksum as a number. -/
def value (sums : Adler32) : Nat :=
  sums.high * 65536 + sums.low

/-- The checksum of the bytes. -/
def ofBytes (bytes : Array UInt8) : Nat :=
  (bytes.foldl add start).value

/-- The four bytes that hold a checksum, highest first. -/
def toBytes (checksum : Nat) : List UInt8 :=
  [ UInt8.ofNat (checksum / 16777216), UInt8.ofNat (checksum / 65536),
    UInt8.ofNat (checksum / 256), UInt8.ofNat checksum ]

end Adler32

end Scratchpad.Zlib
