import Scratchpad.Zlib.BitReader

/-! Lengths and distances are written as the symbol of a rung, which fixes the smallest value, and
extra bits that count up from there.
-/

namespace Scratchpad.Zlib

/-- A run of values that share a symbol: the smallest, and how many extra bits follow. -/
structure Rung where
  base : Nat
  extra : Nat
deriving DecidableEq

namespace Rung

/-- Whether a value can be written on the rung. -/
def covers (rung : Rung) (value : Nat) : Bool :=
  rung.base ≤ value && value - rung.base < Nat.pow 2 rung.extra

/-- Rungs that follow one another without gaps, from a first value and the extra bits of each. -/
def ladder (first : Nat) : List Nat → List Rung
  | [] => []
  | extra :: rest => ⟨first, extra⟩ :: ladder (first + Nat.pow 2 extra) rest

/-- The rungs of match lengths: 3 to 258 without gaps, and 258 once more on a rung of its own. -/
def lengths : Array Rung :=
  let gapless := ladder 3
    [0, 0, 0, 0, 0, 0, 0, 0, 1, 1, 1, 1, 2, 2, 2, 2, 3, 3, 3, 3, 4, 4, 4, 4, 5, 5, 5, 5]
  gapless.toArray.push ⟨258, 0⟩

/-- The rungs of match distances, 1 to 32768. -/
def distances : Array Rung :=
  (ladder 1
    [0, 0, 0, 0, 1, 1, 2, 2, 3, 3, 4, 4, 5, 5, 6, 6, 7, 7, 8, 8, 9, 9, 10, 10, 11, 11, 12, 12,
      13, 13]).toArray

/-- The last rung that covers a value, with its number. -/
def find? (rungs : Array Rung) (value : Nat) : Option (Nat × Rung) :=
  go rungs.size
where
  /-- The search among the first `count` rungs. -/
  go : Nat → Option (Nat × Rung)
    | 0 => none
    | index + 1 =>
      match rungs[index]? with
      | none => go index
      | some rung => if rung.covers value then some (index, rung) else go index

/-- Reads the extra bits of a rung and gives the value. -/
def read? (rung : Rung) (reader : BitReader) : Option (Nat × BitReader) :=
  (reader.number? rung.extra).map fun (more, reader) => (rung.base + more, reader)

/-- The extra bits of a value on a rung that covers it. -/
def bits (rung : Rung) (value : Nat) : List Bool :=
  bitsOfNat rung.extra (value - rung.base)

theorem bitCount_read {rung : Rung} {reader after : BitReader} {value : Nat}
    (found : rung.read? reader = some (value, after))
    : after.bitCount ≤ reader.bitCount := by
  obtain ⟨⟨more, middle⟩, number, same⟩ := Option.map_eq_some_iff.1 found
  obtain ⟨-, rfl⟩ := by simpa using same
  have := BitReader.bitCount_number number
  omega

end Rung

end Scratchpad.Zlib
