import Scratchpad.Zlib.Description
import Scratchpad.Zlib.Segment

/-! How a segment is written as a block: in fixed codes if it is short, else in codes that are made
for it, and as it is if that takes no more room. The room that a block takes depends on where it
begins, because a stored block goes on at a byte boundary.
-/

namespace Scratchpad.Zlib

/-- The codewords of a pair of codes. -/
structure BlockTables where
  literals : Array (List Bool)
  distances : Array (List Bool)

/-- The codewords of a pair of codes. -/
def BlockCodes.tables (codes : BlockCodes) : BlockTables :=
  ⟨codes.literals.table 288, codes.distances.table 32⟩

/-- The symbol of a token among literals and lengths. -/
def Token.literalSymbol? : Token → Option Nat
  | literal byte => some byte.toNat
  | copy length _ =>
    (Rung.find? Rung.lengths length).map fun (index, _) => BlockCodes.endOfBlock + 1 + index

/-- The symbol of a token among distances. -/
def Token.distanceSymbol? : Token → Option Nat
  | literal _ => none
  | copy _ distance => (Rung.find? Rung.distances distance).map Prod.fst

/-- The bits of a token. -/
def Token.bits? (tables : BlockTables) : Token → Option (List Bool)
  | literal byte => codeword? tables.literals byte.toNat
  | copy length distance => do
    let (index, rung) ← Rung.find? Rung.lengths length
    let word ← codeword? tables.literals (BlockCodes.endOfBlock + 1 + index)
    let (farIndex, farRung) ← Rung.find? Rung.distances distance
    let farWord ← codeword? tables.distances farIndex
    return word ++ rung.bits length ++ farWord ++ farRung.bits distance

/-- The bits of tokens and of the end of their block, behind bits in reverse. -/
def tokenBits? (tables : BlockTables) (reversed : List Bool) : List Token → Option (List Bool)
  | [] => (codeword? tables.literals BlockCodes.endOfBlock).map fun word =>
    (word.reverseAux reversed).reverse
  | token :: rest =>
    match token.bits? tables with
    | none => none
    | some bits => tokenBits? tables (bits.reverseAux reversed) rest

/-- How often the tokens of a block use each literal and length; the end is used once. -/
def literalWeights (tokens : List Token) : List Nat :=
  let once := (Array.replicate 288 0).setIfInBounds BlockCodes.endOfBlock 1
  (tokens.foldl (fun weights token =>
    match token.literalSymbol? with
    | none => weights
    | some symbol => weights.modify symbol (· + 1)) once).toList

/-- How often the tokens of a block use each distance. -/
def distanceWeights (tokens : List Token) : List Nat :=
  (tokens.foldl (fun weights token =>
    match token.distanceSymbol? with
    | none => weights
    | some symbol => weights.modify symbol (· + 1)) (Array.replicate 32 0)).toList

/-- A block of fewer bytes is not worth codes of its own. -/
def leastDescribed : Nat := 48

/-- The bits of a compressed block after the one that marks the last block. -/
def Segment.bits? (segment : Segment) : Option (List Bool) :=
  if segment.size < leastDescribed then
    (tokenBits? BlockCodes.fixed.tables [] segment.tokens).map ([true, false] ++ ·)
  else do
    let described ← BlockCodes.Described.ofWeights?
      (literalWeights segment.tokens) (distanceWeights segment.tokens)
    let description ← described.bits?
    let body ← tokenBits? described.codes.tables [] segment.tokens
    return [false, true] ++ description ++ body

/-- Whether a segment takes at least as many bytes compressed, from a bit position on, as it has,
and may be stored. Segments of up to 32 bytes are not looked at.
-/
def Segment.isBetterStored (segment : Segment) (bitPosition bitCount : Nat) : Bool :=
  32 < segment.size && segment.size ≤ (bitPosition + bitCount) / 8 + 1 &&
    segment.recallable && segment.size < 65536

/-- The bits that the block of a segment takes from a bit position of the stream on, with the mark
of the last block.
-/
def Segment.width (segment : Segment) (bitPosition : Nat) : Nat :=
  let bitCount := (segment.bits?.map List.length).getD 0
  if segment.isBetterStored ((bitPosition + 1) % 8) bitCount then
    (bitPosition + 3 + 7) / 8 * 8 - bitPosition + 32 + 8 * segment.size
  else
    1 + bitCount

end Scratchpad.Zlib
