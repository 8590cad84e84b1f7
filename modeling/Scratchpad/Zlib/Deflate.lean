import Scratchpad.Zlib.Adler32
import Scratchpad.Zlib.BitWriter
import Scratchpad.Zlib.Strategy

/-! Writing a compressed stream. The segments that a level finds in a text are compared with the
text and written as blocks, each in the shortest of the three forms that is tried. The comparison
makes the stream right whatever the search does; it never finds a difference, so that the way out
which stores the whole text is never taken.
-/

namespace Scratchpad.Zlib

/-- The two bytes that open a stream: the method and window, and flags that name the level and
make the whole a multiple of 31.
-/
def openingBytes (level : Nat) : List UInt8 :=
  let method := if level = 0 then 0x08 else 0x78
  let speed := if level ≤ 1 then 0 else if level ≤ 3 then 1 else if level ≤ 8 then 2 else 3
  let flags := speed * 64
  [UInt8.ofNat method, UInt8.ofNat (flags + (31 - (method * 256 + flags) % 31))]

/-- A stream in the making, and how much of the data it holds. -/
structure Draft where
  writer : BitWriter
  position : Nat

namespace Draft

/-- A stream of which only the opening is written. -/
def opened (level : Nat) : Draft :=
  ⟨⟨(openingBytes level).toArray, []⟩, 0⟩

/-- Whether tokens say what stands in the data from a position on, and where they end. -/
def replay? (data : Array UInt8) (position : Nat) : List Token → Option Nat
  | [] => some position
  | token :: rest =>
    if token.fits data position then replay? data (position + token.size) rest else none

/-- Writes the rest of a stored block of `size` bytes, behind the bit that marks the last. -/
def storeBody (data : Array UInt8) (size : Nat) (draft : Draft) : Draft :=
  let stop := draft.position + size
  let writer := (draft.writer.append [false, false]).align
  let writer := (writer.number 16 size).number 16 (0xFFFF - size)
  ⟨writer.appendBytes (data.extract draft.position stop), stop⟩

/-- Writes `size` bytes as a stored block. -/
def store (data : Array UInt8) (last : Bool) (size : Nat) (draft : Draft) : Draft :=
  storeBody data size { draft with writer := draft.writer.append [last] }

/-- Writes a segment, if it is right. -/
def write? (data : Array UInt8) (last : Bool) (segment : Segment) (draft : Draft)
    : Option Draft := do
  let stop ← replay? data draft.position segment.tokens
  let bits ← segment.bits?
  let writer := draft.writer.append [last]
  if segment.isBetterStored writer.pending.length bits.length then
    if stop = draft.position + segment.size then
      return storeBody data segment.size { draft with writer := writer }
    else
      none
  else
    return ⟨writer.append bits, stop⟩

/-- Writes segments, of which the final one makes the last block. -/
def writeAll? (data : Array UInt8) : List Segment → Draft → Option Draft
  | [], _ => none
  | [segment], draft => draft.write? data true segment
  | segment :: rest, draft =>
    match draft.write? data false segment with
    | none => none
    | some draft => writeAll? data rest draft

/-- The most bytes that are stored in one block. -/
def storedSize : Nat := 31745

/-- Stores whole blocks, and what is left of the data, perhaps nothing, in the last one. -/
def storeAll (data : Array UInt8) : (blocks : Nat) → Draft → Draft
  | 0, draft => draft.store data true (data.size - draft.position)
  | blocks + 1, draft => storeAll data blocks (draft.store data false storedSize)

/-- The stream, with the checksum of the data behind it. -/
def close (data : Array UInt8) (draft : Draft) : Array UInt8 :=
  (draft.writer.appendBytes (Adler32.toBytes (Adler32.ofBytes data)).toArray).bytes

end Draft

/-- A stream of stored blocks. -/
def storedStream (level : Nat) (data : Array UInt8) : Array UInt8 :=
  ((Draft.opened level).storeAll data (data.size / Draft.storedSize)).close data

/-- A stream of the segments of a level, if they cover the data. -/
def compressedStream? (level : Nat) (data : Array UInt8) : Option (Array UInt8) := do
  let draft ← (Draft.opened level).writeAll? data (Segment.ofLevel level data).toList
  if draft.position = data.size then some (draft.close data) else none

/-- The stream of the data at a level from 0, which stores, to 10. -/
def compress (level : Nat) (data : Array UInt8) : Array UInt8 :=
  if level = 0 then
    storedStream level data
  else
    (compressedStream? level data).getD (storedStream level data)

end Scratchpad.Zlib
