/-! What a compressor has found in a text: literals and matches, gathered in segments of bounded
size, each of which becomes a block of its own.
-/

namespace Scratchpad.Zlib

/-- A piece of a text: one byte, or a repetition of what stands `distance` bytes before. -/
inductive Token where
  | literal (byte : UInt8)
  | copy (length distance : Nat)
deriving DecidableEq

/-- The number of bytes that a token stands for. -/
def Token.size : Token → Nat
  | literal _ => 1
  | copy length _ => length

/-- Whether a token says what stands in the data at a position. -/
def Token.fits (data : Array UInt8) (position : Nat) : Token → Bool
  | literal byte => data[position]? == some byte
  | copy length distance =>
    1 ≤ distance && distance ≤ position && position + length ≤ data.size &&
      (List.range length).all fun index =>
        data[position + index]? == data[position + index - distance]?

/-- A run of tokens that is written as one block. `recallable` says that all its bytes are still
in the window at its end, so that it may also be stored as it is.
-/
structure Segment where
  tokens : List Token
  size : Nat
  recallable : Bool

/-- A segment in the making, behind the finished ones. -/
structure SegmentLog where
  finished : Array Segment
  start : Nat
  tokens : Array Token
  size : Nat
  literals : Nat
  copies : Nat

namespace SegmentLog

/-- A log of nothing. -/
def empty : SegmentLog := ⟨#[], 0, #[], 0, 0, 0⟩

/-- Adds a literal to the segment in the making. -/
def literal : SegmentLog → UInt8 → SegmentLog
  | ⟨finished, start, tokens, size, literals, copies⟩, byte =>
    ⟨finished, start, tokens.push (.literal byte), size + 1, literals + 1, copies⟩

/-- Adds a match to the segment in the making. -/
def copy : SegmentLog → (length distance : Nat) → SegmentLog
  | ⟨finished, start, tokens, size, literals, copies⟩, length, distance =>
    ⟨finished, start, tokens.push (.copy length distance), size + length, literals, copies + 1⟩

/-- The memory that the tokens of a segment take: a byte for a literal, three for a match, and one
for every eight tokens.
-/
def footprint (log : SegmentLog) : Nat :=
  1 + log.literals + 3 * log.copies + (log.literals + log.copies) / 8

/-- Whether the memory for the tokens of a segment is used up. -/
def isFull (log : SegmentLog) : Bool :=
  65528 < log.footprint

/-- Whether a long segment has turned out to be hardly shorter than its bytes. -/
def isPoor (log : SegmentLog) : Bool :=
  31744 < log.size && log.size ≤ log.footprint * 115 / 128

/-- Ends the segment in the making. `position` is where the search stands, and `window` how many
bytes before it are still known.
-/
def close : SegmentLog → (position window : Nat) → SegmentLog
  | ⟨finished, start, tokens, size, _, _⟩, position, window =>
    let segment := ⟨tokens.toList, size, position - start ≤ window⟩
    ⟨finished.push segment, start + size, #[], 0, 0, 0⟩

end SegmentLog

end Scratchpad.Zlib
