/-! Choosing codeword lengths by Huffman's method. The two lightest weights are joined until one
tree is left; lengths beyond a limit are then evened out, and the heaviest symbols get the
shortest codewords.
-/

namespace Scratchpad.Zlib

/-- The shape of a code tree. -/
inductive TreeShape where
  | tip
  | fork (left right : TreeShape)

namespace TreeShape

/-- The depths of the tips below a place at depth `depth`. -/
def depths (depth : Nat) : TreeShape → List Nat
  | tip => [depth]
  | fork left right => left.depths (depth + 1) ++ right.depths (depth + 1)

/-- The tips not yet joined, lightest first, and the joined trees in the order of their making,
which is by weight as well.
-/
structure Queues where
  tips : List Nat
  forks : List (Nat × TreeShape)

/-- Takes the lightest tree; of a tip and a joined tree of equal weight, the tip. -/
def Queues.pop? : Queues → Option ((Nat × TreeShape) × Queues)
  | ⟨[], []⟩ => none
  | ⟨[], joined :: forks⟩ => some (joined, ⟨[], forks⟩)
  | ⟨weight :: tips, []⟩ => some ((weight, tip), ⟨tips, []⟩)
  | ⟨weight :: tips, joined :: forks⟩ =>
    if joined.1 < weight then
      some (joined, ⟨weight :: tips, forks⟩)
    else
      some ((weight, tip), ⟨tips, joined :: forks⟩)

/-- Joins the two lightest trees at most `rounds` times, and gives the last tree made. -/
def joinAll : (rounds : Nat) → Queues → TreeShape
  | 0, queues => (queues.pop?.map fun (lightest, _) => lightest.2).getD tip
  | rounds + 1, queues =>
    match queues.pop? with
    | none => tip
    | some ((weight, left), queues) =>
      match queues.pop? with
      | none => left
      | some ((more, right), ⟨tips, forks⟩) =>
        joinAll rounds ⟨tips, forks ++ [(weight + more, fork left right)]⟩

end TreeShape

namespace CodewordLengths

/-- How many codewords have each length from 0 to `limit`, longer ones being cut to it. -/
def histogram (limit : Nat) (depths : List Nat) : Array Nat :=
  depths.foldl (fun counts depth => counts.modify (min depth limit) (· + 1))
    (Array.replicate (limit + 1) 0)

/-- The part of a full tree of depth `limit` that the codewords take. -/
def demand (limit : Nat) (counts : Array Nat) : Nat :=
  (List.range limit).foldl
    (fun sum shorter => sum + counts.getD (shorter + 1) 0 * Nat.pow 2 (limit - (shorter + 1))) 0

/-- The longest length below `limit` that is in use. -/
def longestBelow (counts : Array Nat) : (limit : Nat) → Option Nat
  | 0 => none
  | limit + 1 =>
    if limit = 0 then
      none
    else if counts.getD limit 0 ≠ 0 then
      some limit
    else
      longestBelow counts limit

/-- Lowers the demand by one: a codeword of the longest length below the limit becomes a place for
two, one of which is taken by a codeword of the limit.
-/
def lower (limit : Nat) (counts : Array Nat) : Array Nat :=
  let counts := counts.modify limit (· - 1)
  match longestBelow counts limit with
  | none => counts
  | some length => (counts.modify length (· - 1)).modify (length + 1) (· + 2)

/-- The lengths of codewords of at most `limit` bits for symbols with the given weights, of which
0 says that a symbol is unused. Of equal weights the later symbol counts as the heavier.
-/
def ofWeights (limit : Nat) (weights : List Nat) : List Nat :=
  let used := weights.zipIdx.filter fun (weight, _) => weight ≠ 0
  let ascending := used.mergeSort fun left right => left.1 ≤ right.1
  let unused := Array.replicate weights.length 0
  match ascending with
  | [] => unused.toList
  | [(_, symbol)] => (unused.setIfInBounds symbol 1).toList
  | _ =>
    let shape := TreeShape.joinAll (ascending.length - 1) ⟨ascending.map Prod.fst, []⟩
    let counts := histogram limit (shape.depths 0)
    let excess := demand limit counts - Nat.pow 2 limit
    let counts := Nat.repeat (lower limit) excess counts
    let shortestFirst := (List.range (limit + 1)).flatMap fun length =>
      List.replicate (counts.getD length 0) length
    let assigned := (ascending.reverse.map Prod.snd).zip shortestFirst
    (assigned.foldl (fun lengths (symbol, length) => lengths.setIfInBounds symbol length)
      unused).toList

end CodewordLengths

end Scratchpad.Zlib
