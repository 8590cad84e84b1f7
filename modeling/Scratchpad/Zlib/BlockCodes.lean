import Scratchpad.Zlib.PrefixCode
import Scratchpad.Zlib.Rung

/-! The two codes of a compressed block, one for literals and match lengths and one for distances:
the fixed pair, and the pair that a block describes by its own list of codeword lengths.
-/

namespace Scratchpad.Zlib

/-- The codes that a compressed block is written in. -/
structure BlockCodes where
  literals : PrefixCode
  distances : PrefixCode
deriving DecidableEq

namespace BlockCodes

/-- The symbol that ends a block; literals lie below it and match lengths above. -/
def endOfBlock : Nat := 256

/-- The codeword lengths of the fixed literal code. -/
def fixedLiteralLengths : List Nat :=
  List.replicate 144 8 ++ List.replicate 112 9 ++ List.replicate 24 7 ++ List.replicate 8 8

/-- The codeword lengths of the fixed distance code. -/
def fixedDistanceLengths : List Nat :=
  List.replicate 32 5

/-- The pair of codes that needs no description. -/
def fixed : BlockCodes :=
  ⟨(PrefixCode.place fixedLiteralLengths).1, (PrefixCode.place fixedDistanceLengths).1⟩

/-- The codes with the given lengths, the first `literals` of which are for literals. -/
def ofLengths? (literals : Nat) (lengths : List Nat) : Option BlockCodes := do
  let literalCode ← PrefixCode.ofLengths? (lengths.take literals)
  let distanceCode ← PrefixCode.ofLengths? (lengths.drop literals)
  return ⟨literalCode, distanceCode⟩

------------------------------------------------------------------------------------------
-- Described codes
------------------------------------------------------------------------------------------

/-- The order in which a description gives the lengths of its own code: likely unused ones last,
so that they can be left out.
-/
def descriptionOrder : List Nat :=
  [16, 17, 18, 0, 8, 7, 9, 6, 10, 5, 11, 4, 12, 3, 13, 2, 14, 1, 15]

/-- The most literal and length symbols, and the most distance symbols, that may be described. -/
def maxLiterals : Nat := 286

/-- The most distance symbols that may be described. -/
def maxDistances : Nat := 30

/-- Reads `count` numbers of three bits. -/
def readTriples : (count : Nat) → BitReader → Except Flaw (List Nat × BitReader)
  | 0, reader => .ok ([], reader)
  | count + 1, reader =>
    match reader.number? 3 with
    | none => .error .truncated
    | some (number, reader) => do
      let (numbers, reader) ← readTriples count reader
      return (number :: numbers, reader)

/-- The lengths of the description code, by symbol, from those read in description order. -/
def descriptionLengths (inOrder : List Nat) : List Nat :=
  let given := descriptionOrder.zip inOrder
  (List.range 19).map fun symbol => (given.lookup symbol).getD 0

/-- A run in a list of lengths: what a symbol of the description code stands for. -/
inductive LengthRun where
  | single (length : Nat)
  | again (count : Nat)
  | zeros (count : Nat)
deriving DecidableEq

/-- Reads a run. `started` says whether a length has been read before; only then can one be
repeated, which is judged before the count is read.
-/
def LengthRun.read (code : PrefixCode) (started : Bool) (reader : BitReader)
    : Except Flaw (LengthRun × BitReader) := do
  let (symbol, reader) ← code.read reader
  if symbol < 16 then
    return (.single symbol, reader)
  else if symbol = 16 then
    if started then
      match reader.number? 2 with
      | none => .error .truncated
      | some (more, reader) => return (.again (3 + more), reader)
    else
      .error .invalid
  else if symbol = 17 then
    match reader.number? 3 with
    | none => .error .truncated
    | some (more, reader) => return (.zeros (3 + more), reader)
  else
    match reader.number? 7 with
    | none => .error .truncated
    | some (more, reader) => return (.zeros (11 + more), reader)

/-- The lengths that a run adds after the given ones, of which the latest comes first. -/
def LengthRun.extend (run : LengthRun) (latestFirst : List Nat) : List Nat :=
  match run with
  | .single length => length :: latestFirst
  | .again count => List.replicate count (latestFirst.headD 0) ++ latestFirst
  | .zeros count => List.replicate count 0 ++ latestFirst

theorem LengthRun.length_lt_extend {code : PrefixCode} {started : Bool} {run : LengthRun}
    {reader after : BitReader} (found : LengthRun.read code started reader = .ok (run, after))
    (latestFirst : List Nat)
    : latestFirst.length < (run.extend latestFirst).length := by
  simp only [LengthRun.read, bind, Except.bind, pure, Except.pure] at found
  repeat' split at found
  all_goals first | contradiction | skip
  all_goals
    obtain ⟨rfl, -⟩ := by simpa using found
    simp only [LengthRun.extend, List.length_append, List.length_replicate, List.length_cons]
    omega

/-- Reads runs until `total` lengths are there, and gives these in order. A run may cross from the
literal lengths to the distance lengths, but not the end.
-/
def readLengths (code : PrefixCode) (total : Nat) (latestFirst : List Nat) (reader : BitReader)
    : Except Flaw (List Nat × BitReader) :=
  if total ≤ latestFirst.length then
    if latestFirst.length = total then .ok (latestFirst.reverse, reader) else .error .invalid
  else
    match found : LengthRun.read code (!latestFirst.isEmpty) reader with
    | .error flaw => .error flaw
    | .ok (run, reader) =>
      have := run.length_lt_extend found latestFirst
      readLengths code total (run.extend latestFirst) reader
termination_by total - latestFirst.length
decreasing_by omega

/-- Reads the description of a pair of codes: three counts, the lengths of the description code,
which must be complete, and in that code the lengths of both codes.
-/
def read (reader : BitReader) : Except Flaw (BlockCodes × BitReader) := do
  let some (moreLiterals, reader) := reader.number? 5 | .error .truncated
  let some (moreDistances, reader) := reader.number? 5 | .error .truncated
  let some (moreDescribed, reader) := reader.number? 4 | .error .truncated
  let literals := 257 + moreLiterals
  let distances := 1 + moreDistances
  if maxLiterals < literals ∨ maxDistances < distances then
    .error .invalid
  let (inOrder, reader) ← readTriples (4 + moreDescribed) reader
  let some code := PrefixCode.ofCompleteLengths? (descriptionLengths inOrder)
    | .error .invalid
  let (lengths, reader) ← readLengths code (literals + distances) [] reader
  let some codes := ofLengths? literals lengths | .error .invalid
  return (codes, reader)

------------------------------------------------------------------------------------------
-- Reading makes a stream shorter
------------------------------------------------------------------------------------------

theorem bitCount_readTriples {count : Nat} {reader after : BitReader} {numbers : List Nat}
    (found : readTriples count reader = .ok (numbers, after))
    : after.bitCount ≤ reader.bitCount := by
  induction count generalizing reader numbers with
  | zero => simp_all [readTriples]
  | succ count ih =>
    simp only [readTriples, bind, Except.bind, pure, Except.pure] at found
    split at found
    · contradiction
    · rename_i number middle first
      have := BitReader.bitCount_number first
      split at found
      · contradiction
      · rename_i more
        obtain ⟨-, rfl⟩ := by simpa using found
        have := ih more
        omega

theorem LengthRun.bitCount_read {code : PrefixCode} {started : Bool} {run : LengthRun}
    {reader after : BitReader} (found : LengthRun.read code started reader = .ok (run, after))
    : after.bitCount ≤ reader.bitCount := by
  simp only [LengthRun.read, bind, Except.bind, pure, Except.pure] at found
  split at found
  · contradiction
  · rename_i symbol first
    have shorter := PrefixCode.bitCount_read first
    repeat' split at found
    all_goals first | contradiction | skip
    · obtain ⟨-, rfl⟩ := by simpa using found
      omega
    all_goals
      rename_i number
      obtain ⟨-, rfl⟩ := by simpa using found
      have := BitReader.bitCount_number number
      omega

theorem bitCount_readLengths {code : PrefixCode} {total : Nat} {latestFirst lengths : List Nat}
    {reader after : BitReader}
    (found : readLengths code total latestFirst reader = .ok (lengths, after))
    : after.bitCount ≤ reader.bitCount := by
  fun_induction readLengths code total latestFirst reader with
  | case1 => simp_all
  | case2 => simp at found
  | case3 => simp at found
  | case4 latestFirst reader _ run middle first _ ih =>
    have := LengthRun.bitCount_read first
    have := ih found
    omega

/-- A description is never read backwards. -/
theorem bitCount_read {codes : BlockCodes} {reader after : BitReader}
    (found : read reader = .ok (codes, after))
    : after.bitCount ≤ reader.bitCount := by
  simp only [read, bind, Except.bind, pure, Except.pure] at found
  repeat' split at found
  all_goals first | contradiction | skip
  rename_i _ _ _ first _ _ _ second _ _ _ third _ _ _ triples _ _ _ _ _ described _ _ _
  obtain ⟨-, rfl⟩ := by simpa using found
  have := BitReader.bitCount_number first
  have := BitReader.bitCount_number second
  have := BitReader.bitCount_number third
  have := bitCount_readTriples triples
  have := bitCount_readLengths described
  omega

end BlockCodes

end Scratchpad.Zlib
