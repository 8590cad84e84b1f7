import Scratchpad.Zlib.Segment

/-! Finding earlier occurrences. Positions with equal hashes of their next three bytes are linked
from the latest to the earliest; positions are kept modulo 2^16, and links modulo the window.
-/

namespace Scratchpad.Zlib

/-- How far back a match may reach. -/
def windowSize : Nat := 32768

/-- The longest match. -/
def maxMatch : Nat := 258

/-- A match in a search: how far back it starts, which is 0 if there is none, and its length. -/
structure Match where
  distance : Nat
  length : Nat

/-- Counts how many bytes from two positions on are equal, up to a bound. -/
def commonLength (data : Array UInt8) (left right : Nat) : (bound : Nat) → (counted : Nat) → Nat
  | 0, counted => counted
  | bound + 1, counted =>
    if data.getD (left + counted) 0 == data.getD (right + counted) 0 then
      commonLength data left right bound (counted + 1)
    else
      counted

/-- For every hash the latest position, and for every position in the window the one before it. -/
structure HashChain where
  latest : Array Nat
  earlier : Array Nat

namespace HashChain

/-- Chains without positions. -/
def empty : HashChain :=
  ⟨Array.replicate windowSize 0, Array.replicate windowSize 0⟩

/-- The hash of the three bytes at a position: fifteen bits, into which each is moved by five. -/
def hash (data : Array UInt8) (position : Nat) : Nat :=
  let first := (data.getD position 0).toNat
  let second := (data.getD (position + 1) 0).toNat
  let third := (data.getD (position + 2) 0).toNat
  ((first <<< 10) ^^^ (second <<< 5) ^^^ third) % windowSize

/-- Puts a position at the front of its chain. -/
def insert (data : Array UInt8) (position : Nat) : HashChain → HashChain
  | ⟨latest, earlier⟩ =>
    let slot := hash data position
    let before := latest.getD slot 0
    ⟨latest.setIfInBounds slot (position % 65536),
      earlier.setIfInBounds (position % windowSize) before⟩

/-- Puts `count` positions at the front of their chains, one after another. -/
def insertAll (data : Array UInt8) : (count position : Nat) → HashChain → HashChain
  | 0, _, chain => chain
  | count + 1, position, chain =>
    insertAll data count (position + 1) (chain.insert data position)

/-- Where three steps along a chain lead. -/
inductive Walk where
  | ended
  | missed (place : Nat)
  | found (place distance : Nat)

/-- Follows a chain for at most `steps` links to a place where two bytes, the last of the best
match so far and the one behind it, are as they would have to be in a longer match. Position 0
and places beyond the window end a chain.
-/
def walk (chain : HashChain) (data : Array UInt8) (position window : Nat) (length : Nat)
    : (steps place : Nat) → Walk
  | 0, place => .missed place
  | steps + 1, place =>
    let next := chain.earlier.getD (place % windowSize) 0
    let distance := (position + 65536 - next) % 65536
    if next = 0 ∨ window < distance then
      .ended
    else
      let place := position - distance
      if data.getD (place + length) 0 == data.getD (position + length) 0 &&
          data.getD (place + length - 1) 0 == data.getD (position + length - 1) 0 then
        .found place distance
      else
        chain.walk data position window length steps place

/-- Improves a match with at most `rounds` places along a chain. `reach` bounds its length. -/
def improve (chain : HashChain) (data : Array UInt8) (position window reach : Nat)
    : (rounds place : Nat) → Match → Match
  | 0, _, best => best
  | rounds + 1, place, best =>
    match chain.walk data position window best.length 3 place with
    | .ended => best
    | .missed place => chain.improve data position window reach rounds place best
    | .found place distance =>
      if distance = 0 then
        best
      else if data.getD place 0 != data.getD position 0 ||
          data.getD (place + 1) 0 != data.getD (position + 1) 0 then
        chain.improve data position window reach rounds place best
      else
        let length := commonLength data place position reach 0
        if best.length < length then
          if reach ≤ length then
            ⟨distance, length⟩
          else
            chain.improve data position window reach rounds place ⟨distance, length⟩
        else
          chain.improve data position window reach rounds place best

end HashChain

end Scratchpad.Zlib
