import Scratchpad.Zlib.Block
import Scratchpad.Zlib.HashChain

/-! How a text is split into literals and matches. Level 1 looks at one earlier place for each
position; the higher levels follow chains of earlier places, and from level 4 on they put a match
off while the next position has a longer one. What is found here is only proposed: it is compared
with the text before it is written.
-/

namespace Scratchpad.Zlib

/-- Matches of three bytes from so far back take more room than the literals. -/
def farForThree : Nat := 8192

/-- Ends the segment in the making when it has grown large or turned out poor. -/
def SegmentLog.closeIf (log : SegmentLog) (due : Bool) (position window : Nat) : SegmentLog :=
  if due then log.close position window else log

------------------------------------------------------------------------------------------
-- Level 1
------------------------------------------------------------------------------------------

/-- The room that blocks are put out to: how many bytes it holds, and how many bits are out. -/
structure OutputRoom where
  capacity : Nat
  bits : Nat

namespace OutputRoom

/-- The bytes that must be left after an overflow. With fewer left, the room is doubled once more.
-/
def reserve : Nat := 30

/-- The room for the stream of a text: half of its size at first. The opening is out. -/
def ofSize (size : Nat) : OutputRoom :=
  ⟨max (size / 2) 2, 16⟩

/-- The first capacity that suffices, of those reached by doubling. -/
def enough (bytes capacity : Nat) : Nat :=
  if 0 < capacity ∧ capacity < bytes then enough bytes (2 * capacity) else capacity
termination_by bytes - capacity

/-- Whether the whole bytes that are out go beyond the room. -/
def overflows (room : OutputRoom) : Bool :=
  room.capacity < room.bits / 8

/-- The room made larger after an overflow. -/
def enlarged (room : OutputRoom) : OutputRoom :=
  let bytes := room.bits / 8
  let capacity := enough bytes room.capacity
  ⟨if capacity < bytes + reserve then 2 * capacity else capacity, room.bits⟩

end OutputRoom

/-- A search that keeps the latest position for every hash of three bytes. The bytes before
`chunkEnd` are known to it.
-/
structure QuickSearch where
  position : Nat
  chunkEnd : Nat
  window : Nat
  latest : Array Nat
  log : SegmentLog
  room : OutputRoom

namespace QuickSearch

/-- The text is taken in chunks of this size, and no match crosses the end of one. -/
def chunkSize : Nat := 4096

/-- A search before the first byte of a text of a size. -/
def start (size : Nat) : QuickSearch :=
  ⟨0, 0, 0, Array.replicate 4096 0, .empty, .ofSize size⟩

/-- The hash of the three bytes at a position: twelve bits. -/
def hash (data : Array UInt8) (position : Nat) : Nat :=
  let first := (data.getD position 0).toNat
  let second := (data.getD (position + 1) 0).toNat
  let third := (data.getD (position + 2) 0).toNat
  let three := first + (second <<< 8) + (third <<< 16)
  (three ^^^ (three >>> 17)) % 4096

/-- Ends the segment in the making if it has grown large. If its block finds no room, room is made
and the search goes on with a new chunk.
-/
def closeIfFull : QuickSearch → QuickSearch
  | ⟨position, chunkEnd, window, latest, log, room⟩ =>
    if log.isFull then
      let log := log.close position window
      let width := (log.finished.back?.map (·.width room.bits)).getD 0
      let room := { room with bits := room.bits + width }
      if room.overflows then
        ⟨position, position, window, latest, log, room.enlarged⟩
      else
        ⟨position, chunkEnd, window, latest, log, room⟩
    else
      ⟨position, chunkEnd, window, latest, log, room⟩

/-- Adds a literal and moves on by its byte. -/
def takeLiteral (data : Array UInt8) : QuickSearch → QuickSearch
  | ⟨position, chunkEnd, window, latest, log, room⟩ =>
    let window := min (window + 1) windowSize
    let log := log.literal (data.getD position 0)
    closeIfFull ⟨position + 1, chunkEnd, window, latest, log, room⟩

/-- Adds a match and moves on by its length. -/
def takeMatch (length distance : Nat) : QuickSearch → QuickSearch
  | ⟨position, chunkEnd, window, latest, log, room⟩ =>
    let window := min (window + length) windowSize
    let log := log.copy length distance
    closeIfFull ⟨position + length, chunkEnd, window, latest, log, room⟩

/-- Handles the next position, if there is one. The next chunk is taken once the last one is used
up, and the last three bytes of a chunk are literals.
-/
def step (data : Array UInt8) : QuickSearch → QuickSearch
  | ⟨position, chunkEnd, window, latest, log, room⟩ =>
    if data.size ≤ position then
      ⟨position, chunkEnd, window, latest, log, room⟩
    else
      let usedUp := decide (chunkEnd ≤ position)
      let chunkEnd := if usedUp then min data.size (position + chunkSize) else chunkEnd
      let ahead := chunkEnd - position
      let window := if usedUp then min (windowSize - ahead) window else window
      if ahead < 4 then
        takeLiteral data ⟨position, chunkEnd, window, latest, log, room⟩
      else
        let slot := hash data position
        let distance := (position + 65536 - latest.getD slot 0) % 65536
        let latest := latest.setIfInBounds slot (position % 65536)
        let search : QuickSearch := ⟨position, chunkEnd, window, latest, log, room⟩
        if distance = 0 ∨ window < distance then
          takeLiteral data search
        else
          let length := commonLength data position (position - distance) (min maxMatch ahead) 0
          if length < 3 ∨ (length = 3 ∧ farForThree ≤ distance) then
            takeLiteral data search
          else
            takeMatch length distance search

/-- The segments of a text. Every step before the end moves on, so there are no more steps than
bytes.
-/
def segments (data : Array UInt8) : Array Segment :=
  let search := Nat.repeat (step data) data.size (start data.size)
  (search.log.close search.position search.window).finished

end QuickSearch

------------------------------------------------------------------------------------------
-- Levels 2 to 10
------------------------------------------------------------------------------------------

/-- How much a level spends on the search. -/
structure Effort where
  /-- The places tried along a chain, in rounds of three links. -/
  rounds : Nat
  /-- The rounds for improving a match that is already long. -/
  roundsWhenLong : Nat
  /-- Whether every match is taken at once. -/
  greedy : Bool

/-- The effort of a level. -/
def Effort.ofLevel (level : Nat) : Effort :=
  let probes := #[0, 1, 6, 32, 16, 32, 128, 256, 512, 768, 1500].getD level 1500
  ⟨(probes + 2) / 3, (probes / 4 + 2) / 3, level ≤ 3⟩

/-- A match that is put off, with the literal to write if the next position has a longer one. -/
structure Deferred where
  byte : UInt8
  length : Nat
  distance : Nat

/-- A search along hash chains. `inserted` is the number of positions in the chains. -/
structure ChainSearch where
  position : Nat
  inserted : Nat
  window : Nat
  chain : HashChain
  deferred : Option Deferred
  log : SegmentLog

namespace ChainSearch

/-- A match of this length is taken without a look at the next position. -/
def longEnough : Nat := 128

/-- A best match of this length makes further search less worthwhile. -/
def alreadyLong : Nat := 32

/-- A search before the first byte. -/
def start : ChainSearch :=
  ⟨0, 0, 0, .empty, none, .empty⟩

/-- The best match at a position, which has to be longer than a deferred one. Of the bytes ahead at
most `maxMatch` are looked at. A match of three bytes from far back is not worth taking, and one
that reaches back to where the window wraps is not taken either.
-/
def bestMatch (effort : Effort) (data : Array UInt8) (chain : HashChain)
    (position window ahead beaten : Nat) : Match :=
  let reach := min maxMatch ahead
  let best : Match := ⟨0, beaten⟩
  let best :=
    if reach ≤ beaten then
      best
    else
      let rounds := if beaten < alreadyLong then effort.rounds else effort.roundsWhenLong
      chain.improve data position window reach rounds position best
  if (best.length = 3 ∧ farForThree ≤ best.distance) ∨
      position % windowSize = best.distance then
    ⟨0, 0⟩
  else
    best

/-- What is decided at a position: how far to move on, what is put off, and the log. -/
structure Decision where
  advance : Nat
  deferred : Option Deferred
  log : SegmentLog

/-- Takes a match, or puts it off. -/
def takeOrDefer (data : Array UInt8) (position : Nat) (found : Match) (greedy : Bool)
    (log : SegmentLog) : Decision :=
  if greedy ∨ longEnough ≤ found.length then
    ⟨found.length, none, log.copy found.length found.distance⟩
  else
    ⟨1, some ⟨data.getD position 0, found.length, found.distance⟩, log⟩

/-- Decides between a deferred match and the one found at a position. -/
def settle (effort : Effort) (data : Array UInt8) (position : Nat) (found : Match)
    (log : SegmentLog) : Option Deferred → Decision
  | some deferred =>
    if deferred.length < found.length then
      takeOrDefer data position found false (log.literal deferred.byte)
    else
      ⟨deferred.length - 1, none, log.copy deferred.length deferred.distance⟩
  | none =>
    if found.distance = 0 then
      ⟨1, none, log.literal (data.getD position 0)⟩
    else
      takeOrDefer data position found effort.greedy log

/-- Handles the next position. -/
def step (effort : Effort) (data : Array UInt8) : ChainSearch → ChainSearch
  | ⟨position, inserted, window, chain, deferred, log⟩ =>
    if data.size ≤ position then
      ⟨position, inserted, window, chain, deferred, log⟩
    else
      let ahead := min (data.size - position) maxMatch
      let known := position + ahead - 2
      let chain := chain.insertAll data (known - inserted) inserted
      let inserted := max inserted known
      let window := min (windowSize - ahead) window
      let beaten := (deferred.map Deferred.length).getD 2
      let found := bestMatch effort data chain position window ahead beaten
      let decision := settle effort data position found log deferred
      let position := position + decision.advance
      let window := min (window + decision.advance) windowSize
      let log := decision.log
      let log := log.closeIf (log.isFull || log.isPoor) position window
      ⟨position, inserted, window, chain, decision.deferred, log⟩

/-- The segments of a text. Every step before the end moves on, so there are no more steps than
bytes.
-/
def segments (effort : Effort) (data : Array UInt8) : Array Segment :=
  let search := Nat.repeat (step effort data) data.size start
  (search.log.close search.position search.window).finished

end ChainSearch

/-- The segments that a level finds in a text. -/
def Segment.ofLevel (level : Nat) (data : Array UInt8) : Array Segment :=
  if level ≤ 1 then
    QuickSearch.segments data
  else
    ChainSearch.segments (Effort.ofLevel level) data

end Scratchpad.Zlib
