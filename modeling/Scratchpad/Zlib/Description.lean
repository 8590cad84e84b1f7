import Scratchpad.Zlib.BlockCodes
import Scratchpad.Zlib.CodewordLengths

/-! Writing the description of a pair of codes. The lengths are gathered in runs, and the runs are
written in a code of their own. Whatever is written is checked to be read back as it was meant.
-/

namespace Scratchpad.Zlib

/-- The codeword of a symbol in a table. -/
def codeword? (table : Array (List Bool)) (symbol : Nat) : Option (List Bool) :=
  match table[symbol]? with
  | some (bit :: more) => some (bit :: more)
  | _ => none

namespace BlockCodes

/-- A number of runs of the largest size, and a last smaller run or single lengths if what is left
is too short for one.
-/
def splitRun (largest length count : Nat) (run : Nat → LengthRun) : List LengthRun :=
  let left := count % largest
  let last := if left < 3 then List.replicate left (LengthRun.single length) else [run left]
  List.replicate (count / largest) (run largest) ++ last

/-- The runs for a length that stands `count` times in a row. -/
def runsOf (length count : Nat) : List LengthRun :=
  if length = 0 then
    splitRun 138 0 count .zeros
  else
    .single length :: splitRun 6 length (count - 1) .again

/-- The runs for a list of lengths. -/
def runs (lengths : List Nat) : List LengthRun :=
  (lengths.splitBy (· == ·)).flatMap fun equal => runsOf (equal.headD 0) equal.length

/-- The lengths that runs stand for. -/
def expand (runs : List LengthRun) : List Nat :=
  (runs.foldl (fun latestFirst run => run.extend latestFirst) []).reverse

namespace LengthRun

/-- The symbol of a run. -/
def symbol : LengthRun → Nat
  | single length => length
  | again _ => 16
  | zeros count => if count ≤ 10 then 17 else 18

/-- The bits behind the symbol of a run, which tell its size. -/
def extraBits : LengthRun → List Bool
  | single _ => []
  | again count => bitsOfNat 2 (count - 3)
  | zeros count => if count ≤ 10 then bitsOfNat 3 (count - 3) else bitsOfNat 7 (count - 11)

/-- Whether a run has a form to be written in. -/
def writable : LengthRun → Bool
  | single length => length < 16
  | again count => 3 ≤ count && count ≤ 6
  | zeros count => 3 ≤ count && count ≤ 138

/-- The bits of a run. -/
def bits? (table : Array (List Bool)) (run : LengthRun) : Option (List Bool) :=
  if run.writable then
    (codeword? table run.symbol).map (· ++ run.extraBits)
  else
    none

end LengthRun

/-- Drops the unused symbols at the end, but keeps the first `least`. -/
def trimmed (least : Nat) (lengths : List Nat) : List Nat :=
  let dropped := ((lengths.drop least).reverse.dropWhile (· == 0)).reverse
  lengths.take least ++ dropped

/-- Lengths to be described, checked to give a pair of codes. -/
structure Described where
  literals : Nat
  lengths : List Nat
  codes : BlockCodes
  gives : ofLengths? literals lengths = some codes

/-- The codes for the given weights of literals and lengths and of distances. -/
def Described.ofWeights? (literalWeights distanceWeights : List Nat) : Option Described :=
  let literals := trimmed 257
    ((CodewordLengths.ofWeights PrefixCode.maxLength literalWeights).take maxLiterals)
  let distances := trimmed 1
    ((CodewordLengths.ofWeights PrefixCode.maxLength distanceWeights).take maxDistances)
  match gives : ofLengths? literals.length (literals ++ distances) with
  | none => none
  | some codes => some ⟨literals.length, literals ++ distances, codes, gives⟩

/-- How often each symbol of the description code is used. -/
def runWeights (runs : List LengthRun) : List Nat :=
  (runs.foldl (fun weights run => weights.modify run.symbol (· + 1))
    (Array.replicate 19 0)).toList

/-- The bits of runs, one after another. -/
def runBits? (table : Array (List Bool)) (reversed : List Bool)
    : List LengthRun → Option (List Bool)
  | [] => some reversed.reverse
  | run :: rest =>
    match run.bits? table with
    | none => none
    | some bits => runBits? table (bits.reverseAux reversed) rest

/-- The bits of a description, if it can be read back. -/
def Described.bits? (described : Described) : Option (List Bool) := do
  let runs := runs described.lengths
  let own := CodewordLengths.ofWeights 7 (runWeights runs)
  let inOrder := trimmed 4 (descriptionOrder.map fun symbol => own.getD symbol 0)
  let literals := described.literals
  let distances := described.lengths.length - literals
  let counted := 257 ≤ literals && literals ≤ maxLiterals && 1 ≤ distances &&
    distances ≤ maxDistances && inOrder.length ≤ 19 && inOrder.all (· < 8)
  if counted && descriptionLengths inOrder == own && expand runs == described.lengths then
    let code ← PrefixCode.ofCompleteLengths? own
    let body ← runBits? (code.table 19) [] runs
    let counts := bitsOfNat 5 (literals - 257) ++ bitsOfNat 5 (distances - 1) ++
      bitsOfNat 4 (inOrder.length - 4)
    return counts ++ inOrder.flatMap (bitsOfNat 3) ++ body
  else
    none

end BlockCodes

end Scratchpad.Zlib
