import Scratchpad.Zlib.Bits

/-! Writing a stream bit by bit. The view of a writer is the list of all bits written, and every
operation appends to it.
-/

namespace Scratchpad.Zlib

/-- What has been written: whole bytes, and fewer than eight bits behind them. -/
structure BitWriter where
  bytes : Array UInt8
  pending : List Bool

namespace BitWriter

/-- A writer with nothing written. -/
def empty : BitWriter := ⟨#[], []⟩

/-- All bits written, in order. -/
def bits (writer : BitWriter) : List Bool :=
  writer.bytes.toList.flatMap bitsOfByte ++ writer.pending

/-- Moves bits into whole bytes as long as there are eight. -/
def pack (bytes : Array UInt8) : List Bool → BitWriter
  | a :: b :: c :: d :: e :: f :: g :: h :: rest =>
    pack (bytes.push (byteOfBits [a, b, c, d, e, f, g, h])) rest
  | pending => ⟨bytes, pending⟩

/-- Appends bits. -/
def append (writer : BitWriter) (bits : List Bool) : BitWriter :=
  pack writer.bytes (writer.pending ++ bits)

/-- Appends a number in `count` bits. -/
def number (writer : BitWriter) (count value : Nat) : BitWriter :=
  writer.append (bitsOfNat count value)

/-- Fills up to the next byte boundary with zeros. -/
def align (writer : BitWriter) : BitWriter :=
  match writer.pending with
  | [] => writer
  | pending => ⟨writer.bytes.push (byteOfBits pending), []⟩

/-- Appends whole bytes at a byte boundary. -/
def appendBytes (writer : BitWriter) (more : Array UInt8) : BitWriter :=
  { writer.align with bytes := writer.align.bytes ++ more }

end BitWriter

end Scratchpad.Zlib
