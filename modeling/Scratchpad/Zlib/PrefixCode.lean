import Scratchpad.Zlib.BitReader

/-! Prefix codes. A code is a binary tree whose leaves are symbols; a codeword is the path to a
leaf, so reading and writing share one object. Codes are given by the lengths of their codewords
and are canonical: shorter codewords come first, and equal lengths are in the order of symbols.
-/

namespace Scratchpad.Zlib

/-- Why a stream has no text. -/
inductive Flaw where
  | invalid
  | truncated
  | checksum
deriving DecidableEq, Repr

/-- The name under which a flaw is reported. -/
def Flaw.name : Flaw → String
  | .invalid => "Failed"
  | .truncated => "FailedCannotMakeProgress"
  | .checksum => "Adler32Mismatch"

------------------------------------------------------------------------------------------
-- Trees
------------------------------------------------------------------------------------------

/-- A binary tree with symbols at its leaves. A place that no codeword reaches is `absent`. -/
inductive CodeTree where
  | leaf (symbol : Nat)
  | node (zero one : CodeTree)
  | absent
deriving DecidableEq

namespace CodeTree

/-- Whether every path ends at a symbol. -/
def isFull : CodeTree → Bool
  | leaf _ => true
  | node zero one => zero.isFull && one.isFull
  | absent => false

/-- The bits of a codeword that are looked up at once; the others are followed one by one. -/
def lookupBits : Nat := 10

/-- A tree at depth `depth` in which no place is absent behind the bits that are looked up at once:
what no codeword reaches there stands for symbol 0.
-/
def filled (depth : Nat) : CodeTree → CodeTree
  | leaf symbol => leaf symbol
  | node zero one => node (zero.filled (depth + 1)) (one.filled (depth + 1))
  | absent => if lookupBits < depth then leaf 0 else absent

/-- The symbols of a tree with their paths, from left to right. `path` is the way to the tree,
last step first.
-/
def paths (path : List Bool) : CodeTree → List (Nat × List Bool)
  | leaf symbol => [(symbol, path.reverse)]
  | node zero one => zero.paths (false :: path) ++ one.paths (true :: path)
  | absent => []

/-- Follows the bits of a stream down the tree to a symbol. A codeword ends where its leaf is, and
a wrong turn is noticed where it is taken; nothing behind is looked at.
-/
def read : CodeTree → BitReader → Except Flaw (Nat × BitReader)
  | leaf symbol, reader => .ok (symbol, reader)
  | absent, _ => .error .invalid
  | node zero one, reader =>
    match reader.next? with
    | none => .error .truncated
    | some (bit, reader) => if bit then one.read reader else zero.read reader

/-- Builds the tree below a place at depth `depth`, with `room` levels left, from the symbols not
yet placed, in canonical order; also gives those that are left over. The next symbol is placed
here if its codeword has this length, and else as far to the left as it goes.
-/
def build : (room depth : Nat) → List (Nat × Nat) → CodeTree × List (Nat × Nat)
  | _, _, [] => (absent, [])
  | 0, depth, (length, symbol) :: rest =>
    if length = depth then (leaf symbol, rest) else (absent, (length, symbol) :: rest)
  | room + 1, depth, (length, symbol) :: rest =>
    if length = depth then
      (leaf symbol, rest)
    else
      let (zero, rest) := build room (depth + 1) ((length, symbol) :: rest)
      let (one, rest) := build room (depth + 1) rest
      (node zero one, rest)

theorem bitCount_read {tree : CodeTree} {reader after : BitReader} {symbol : Nat}
    (found : tree.read reader = .ok (symbol, after))
    : after.bitCount ≤ reader.bitCount := by
  induction tree generalizing reader with
  | leaf => simp_all [read]
  | absent => simp [read] at found
  | node zero one zeroIh oneIh =>
    unfold read at found
    split at found
    · simp at found
    · rename_i bit middle step
      have := BitReader.bitCount_next step
      split at found
      · have := oneIh found; omega
      · have := zeroIh found; omega

end CodeTree

------------------------------------------------------------------------------------------
-- Codes
------------------------------------------------------------------------------------------

/-- A prefix code: the two halves of its tree, so that every codeword has at least one bit. -/
structure PrefixCode where
  zero : CodeTree
  one : CodeTree
deriving DecidableEq

namespace PrefixCode

/-- The longest codeword that a stream can describe. -/
def maxLength : Nat := 15

/-- The code without symbols. -/
def empty : PrefixCode := ⟨.absent, .absent⟩

/-- The used symbols with the lengths of their codewords, in canonical order: by length, and by
symbol where lengths are equal.
-/
def canonical (lengths : List Nat) : List (Nat × Nat) :=
  let numbered := lengths.zipIdx
  (List.range maxLength).flatMap fun shorter =>
    numbered.filter fun (length, _) => length = shorter + 1

/-- Whether the symbols left nothing over and no gap. -/
def isComplete (code : PrefixCode) : Bool :=
  code.zero.isFull && code.one.isFull

/-- The code with the given lengths, of which 0 says that a symbol is unused, together with the
symbols that found no place because the lengths ask for too much.
-/
def place (lengths : List Nat) : PrefixCode × List (Nat × Nat) :=
  let (zero, rest) := CodeTree.build (maxLength - 1) 1 (canonical lengths)
  let (one, rest) := CodeTree.build (maxLength - 1) 1 rest
  (⟨zero, one⟩, rest)

/-- A code in which what no codeword reaches behind the bits that are looked up at once stands for
symbol 0.
-/
def filled (code : PrefixCode) : PrefixCode :=
  ⟨code.zero.filled 1, code.one.filled 1⟩

/-- The code with the given lengths. They must fill the tree exactly; a code of one symbol or of
none is also taken, and filled where its codeword is long.
-/
def ofLengths? (lengths : List Nat) : Option PrefixCode :=
  let (code, excess) := place lengths
  if excess.isEmpty then
    if code.isComplete then
      some code
    else if (canonical lengths).length ≤ 1 then
      some code.filled
    else
      none
  else
    none

/-- The code with the given lengths, which must fill the tree exactly. -/
def ofCompleteLengths? (lengths : List Nat) : Option PrefixCode :=
  let (code, excess) := place lengths
  if excess.isEmpty && code.isComplete then some code else none

/-- Follows the bits of a stream to a symbol. -/
def read (code : PrefixCode) (reader : BitReader) : Except Flaw (Nat × BitReader) :=
  (CodeTree.node code.zero code.one).read reader

/-- The symbols of a code with their codewords. -/
def codewords (code : PrefixCode) : List (Nat × List Bool) :=
  (CodeTree.node code.zero code.one).paths []

/-- The codewords as a table over `count` symbols, in which an unused symbol has no bits. -/
def table (code : PrefixCode) (count : Nat) : Array (List Bool) :=
  code.codewords.foldl (fun table (symbol, word) => table.setIfInBounds symbol word)
    (Array.replicate count [])

/-- Every symbol takes at least one bit. -/
theorem bitCount_read {code : PrefixCode} {reader after : BitReader} {symbol : Nat}
    (found : code.read reader = .ok (symbol, after))
    : after.bitCount < reader.bitCount := by
  unfold read CodeTree.read at found
  split at found
  · simp at found
  · rename_i bit middle step
    have shorter := BitReader.bitCount_next step
    split at found
    · have := CodeTree.bitCount_read found; omega
    · have := CodeTree.bitCount_read found; omega

end PrefixCode

end Scratchpad.Zlib
