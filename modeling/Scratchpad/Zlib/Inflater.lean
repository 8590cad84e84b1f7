import Scratchpad.Zlib.Adler32
import Scratchpad.Zlib.BlockCodes

/-! Reading a compressed stream in pieces. An inflater goes through the stream strictly from left
to right and writes one byte at a time; it can be suspended before any byte for want of room and
taken up again. Every step reads bits or uses up what was already read, so every run ends.
-/

namespace Scratchpad.Zlib

/-- What does not change inside a compressed block: its codes, and whether it is the last one. -/
structure BlockContext where
  codes : BlockCodes
  last : Bool

/-- Where an inflater stands in its stream. -/
inductive Phase where
  /-- Before the two bytes that open the stream. -/
  | header
  /-- Before the three bits that open a block. -/
  | block
  /-- In a stored block, of which `left` bytes are still to be copied. -/
  | stored (left : Nat) (last : Bool)
  /-- In a compressed block, before a symbol. -/
  | symbol (context : BlockContext)
  /-- With a literal read but not written. -/
  | literal (byte : UInt8) (context : BlockContext)
  /-- With a match read, of which `left` bytes are still to be written. -/
  | matching (left : Fin 259) (distance : Nat) (context : BlockContext)
  /-- Before the checksum. -/
  | trailer

namespace Phase

/-- Whether the next step of a phase writes a byte. -/
def writes : Phase → Bool
  | stored left _ => left ≠ 0
  | literal _ _ => true
  | matching left _ _ => left.val ≠ 0
  | _ => false

/-- An upper bound on the steps that a phase can take without reading a bit. -/
def patience : Phase → Nat
  | header | block | symbol _ | trailer => 0
  | stored _ _ | literal _ _ => 1
  | matching left _ _ => left.val + 1

theorem patience_lt (phase : Phase)
    : phase.patience < 260 := by
  cases phase <;> simp [patience]
  omega

/-- What follows a block. -/
def after (last : Bool) : Phase :=
  if last then trailer else block

theorem patience_after (last : Bool)
    : (after last).patience = 0 := by
  cases last <;> rfl

end Phase

/-- A decoder in the middle of a stream, with all that it has written. -/
structure Inflater where
  phase : Phase
  reader : BitReader
  out : Array UInt8

/-- What a step leads to: more work, the end of the stream with all that was written and the bytes
left unread, or a flaw.
-/
inductive Inflater.Step where
  | more (next : Inflater)
  | done (out : Array UInt8) (rest : List UInt8)
  | flawed (flaw : Flaw)

namespace Inflater

/-- An inflater before the first byte of a payload. -/
def ofPayload (payload : List UInt8) : Inflater :=
  ⟨.header, .ofBytes payload, #[]⟩

/-- Whether two bytes may open a stream: a multiple of 31 as a number, the method that is in use,
a window of at most 2^15 bytes and no dictionary.
-/
def opens (method flags : Nat) : Bool :=
  (method * 256 + flags) % 31 = 0 && flags / 32 % 2 = 0 && method % 16 = 8 && method / 16 ≤ 7

/-- Reads the two bytes that open the stream. -/
def readHeader (reader : BitReader) (out : Array UInt8) : Step :=
  match reader.byte? with
  | none => .flawed .truncated
  | some (method, reader) =>
    match reader.byte? with
    | none => .flawed .truncated
    | some (flags, reader) =>
      if opens method.toNat flags.toNat then
        .more ⟨.block, reader, out⟩
      else
        .flawed .invalid

/-- Reads the start of a stored block: a length and its complement, from a byte boundary on. -/
def readStored (last : Bool) (reader : BitReader) (out : Array UInt8) : Step :=
  match reader.align.number? 16 with
  | none => .flawed .truncated
  | some (length, reader) =>
    match reader.number? 16 with
    | none => .flawed .truncated
    | some (complement, reader) =>
      if length + complement = 0xFFFF then
        .more ⟨.stored length last, reader, out⟩
      else
        .flawed .invalid

/-- Reads the start of a block: whether it is the last, its kind, and what its kind asks for. -/
def readBlock (reader : BitReader) (out : Array UInt8) : Step :=
  match reader.number? 1 with
  | none => .flawed .truncated
  | some (last, reader) =>
    match reader.number? 2 with
    | none => .flawed .truncated
    | some (0, reader) => readStored (last == 1) reader out
    | some (1, reader) => .more ⟨.symbol ⟨.fixed, last == 1⟩, reader, out⟩
    | some (2, reader) =>
      match BlockCodes.read reader with
      | .error flaw => .flawed flaw
      | .ok (codes, reader) => .more ⟨.symbol ⟨codes, last == 1⟩, reader, out⟩
    | some _ => .flawed .invalid

/-- Reads the distance of a match of known length. It must not reach back beyond the start. -/
def readDistance (context : BlockContext) (length : Nat) (reader : BitReader)
    (out : Array UInt8) : Step :=
  match context.codes.distances.read reader with
  | .error flaw => .flawed flaw
  | .ok (symbol, reader) =>
    match Rung.distances[symbol]? with
    | none => .flawed .invalid
    | some rung =>
      match rung.read? reader with
      | none => .flawed .truncated
      | some (distance, reader) =>
        if out.size < distance then
          .flawed .invalid
        else
          .more ⟨.matching (Fin.ofNat 259 length) distance context, reader, out⟩

/-- Reads a literal, a match or the end of the block. -/
def readSymbol (context : BlockContext) (reader : BitReader) (out : Array UInt8) : Step :=
  match context.codes.literals.read reader with
  | .error flaw => .flawed flaw
  | .ok (symbol, reader) =>
    if symbol < BlockCodes.endOfBlock then
      .more ⟨.literal (UInt8.ofNat symbol) context, reader, out⟩
    else if symbol = BlockCodes.endOfBlock then
      .more ⟨.after context.last, reader, out⟩
    else
      match Rung.lengths[symbol - (BlockCodes.endOfBlock + 1)]? with
      | none => .flawed .invalid
      | some rung =>
        match rung.read? reader with
        | none => .flawed .truncated
        | some (length, reader) => readDistance context length reader out

/-- Reads the four bytes of a checksum, highest first. -/
def readChecksum (reader : BitReader) : Option (Nat × BitReader) := do
  let (a, reader) ← reader.byte?
  let (b, reader) ← reader.byte?
  let (c, reader) ← reader.byte?
  let (d, reader) ← reader.byte?
  return (((a.toNat * 256 + b.toNat) * 256 + c.toNat) * 256 + d.toNat, reader)

/-- Ends the stream if the checksum of all that was written follows. -/
def readTrailer (reader : BitReader) (out : Array UInt8) : Step :=
  match readChecksum reader with
  | none => .flawed .truncated
  | some (checksum, reader) =>
    if checksum = Adler32.ofBytes out then
      .done out reader.rest
    else
      .flawed .checksum

/-- One step: reads what comes next, or writes one byte. -/
def step : Inflater → Step
  | ⟨.header, reader, out⟩ => readHeader reader out
  | ⟨.block, reader, out⟩ => readBlock reader out
  | ⟨.stored left last, reader, out⟩ =>
    match left with
    | 0 => .more ⟨.after last, reader, out⟩
    | left + 1 =>
      match reader.byte? with
      | none => .flawed .truncated
      | some (byte, reader) => .more ⟨.stored left last, reader, out.push byte⟩
  | ⟨.symbol context, reader, out⟩ => readSymbol context reader out
  | ⟨.literal byte context, reader, out⟩ => .more ⟨.symbol context, reader, out.push byte⟩
  | ⟨.matching left distance context, reader, out⟩ =>
    match left with
    | ⟨0, _⟩ => .more ⟨.symbol context, reader, out⟩
    | ⟨left + 1, bound⟩ =>
      let byte := out.getD (out.size - distance) 0
      .more ⟨.matching ⟨left, by omega⟩ distance context, reader, out.push byte⟩
  | ⟨.trailer, reader, out⟩ => readTrailer reader out

------------------------------------------------------------------------------------------
-- Runs
------------------------------------------------------------------------------------------

/-- The steps that are left at most: each either reads a bit or uses up patience. -/
def remaining (inflater : Inflater) : Nat :=
  inflater.reader.bitCount * 260 + inflater.phase.patience

/-- The bits ahead of an inflater. -/
def ahead (inflater : Inflater) : Nat :=
  inflater.reader.bitCount

theorem ahead_readHeader {reader : BitReader} {out : Array UInt8} {after : Inflater}
    (stepped : readHeader reader out = .more after)
    : after.ahead < reader.bitCount := by
  simp only [readHeader] at stepped
  repeat' split at stepped
  all_goals first | contradiction | skip
  rename_i _ _ _ first _ _ _ second _
  obtain rfl := Step.more.inj stepped
  have := BitReader.bitCount_byte first
  have := BitReader.bitCount_byte second
  simp only [ahead]
  omega

theorem ahead_readStored {last : Bool} {reader : BitReader} {out : Array UInt8}
    {after : Inflater} (stepped : readStored last reader out = .more after)
    : after.ahead < reader.bitCount := by
  simp only [readStored] at stepped
  repeat' split at stepped
  all_goals first | contradiction | skip
  rename_i _ _ _ first _ _ _ second _
  obtain rfl := Step.more.inj stepped
  have := reader.bitCount_align
  have := BitReader.bitCount_number first
  have := BitReader.bitCount_number second
  simp only [ahead]
  omega

theorem ahead_readBlock {reader : BitReader} {out : Array UInt8} {after : Inflater}
    (stepped : readBlock reader out = .more after)
    : after.ahead < reader.bitCount := by
  simp only [readBlock] at stepped
  split at stepped
  · contradiction
  · rename_i last first
    have := BitReader.bitCount_number first
    split at stepped
    · contradiction
    · rename_i second
      have := BitReader.bitCount_number second
      have := ahead_readStored stepped
      omega
    · rename_i second
      have := BitReader.bitCount_number second
      obtain rfl := Step.more.inj stepped
      simp only [ahead]
      omega
    · rename_i second
      have := BitReader.bitCount_number second
      split at stepped
      · contradiction
      · rename_i described
        have := BlockCodes.bitCount_read described
        obtain rfl := Step.more.inj stepped
        simp only [ahead]
        omega
    · contradiction

theorem ahead_readDistance {context : BlockContext} {length : Nat} {reader : BitReader}
    {out : Array UInt8} {after : Inflater}
    (stepped : readDistance context length reader out = .more after)
    : after.ahead < reader.bitCount := by
  simp only [readDistance] at stepped
  repeat' split at stepped
  all_goals first | contradiction | skip
  rename_i _ _ _ symbol _ _ _ _ _ _ distance _
  obtain rfl := Step.more.inj stepped
  have := PrefixCode.bitCount_read symbol
  have := Rung.bitCount_read distance
  simp only [ahead]
  omega

theorem ahead_readSymbol {context : BlockContext} {reader : BitReader} {out : Array UInt8}
    {after : Inflater} (stepped : readSymbol context reader out = .more after)
    : after.ahead < reader.bitCount := by
  simp only [readSymbol] at stepped
  split at stepped
  · contradiction
  · rename_i read
    have := PrefixCode.bitCount_read read
    split at stepped
    · obtain rfl := Step.more.inj stepped
      simpa only [ahead] using this
    · split at stepped
      · obtain rfl := Step.more.inj stepped
        simpa only [ahead] using this
      · split at stepped
        · cases stepped
        · split at stepped
          · cases stepped
          · rename_i length
            have := Rung.bitCount_read length
            have := ahead_readDistance stepped
            omega

theorem remaining_lt_of_reads {before after : Inflater} (reads : after.ahead < before.ahead)
    : after.remaining < before.remaining := by
  have := after.phase.patience_lt
  simp only [ahead] at reads
  simp only [remaining]
  omega

/-- Every step leaves fewer steps to come. -/
theorem remaining_step {before after : Inflater} (stepped : before.step = .more after)
    : after.remaining < before.remaining := by
  obtain ⟨phase, reader, out⟩ := before
  cases phase with
  | header => exact remaining_lt_of_reads (ahead_readHeader stepped)
  | block => exact remaining_lt_of_reads (ahead_readBlock stepped)
  | stored left last =>
    cases left with
    | zero =>
      obtain rfl := Step.more.inj stepped
      simp only [remaining, Phase.patience_after]
      simp [Phase.patience]
    | succ left =>
      apply remaining_lt_of_reads
      simp only [step] at stepped
      split at stepped
      · contradiction
      · rename_i read
        have := BitReader.bitCount_byte read
        obtain rfl := Step.more.inj stepped
        simp only [ahead]
        omega
  | symbol context => exact remaining_lt_of_reads (ahead_readSymbol stepped)
  | literal byte context =>
    obtain rfl := Step.more.inj stepped
    simp [remaining, Phase.patience]
  | matching left distance context =>
    obtain ⟨left, bound⟩ := left
    cases left <;>
    · obtain rfl := Step.more.inj stepped
      simp [remaining, Phase.patience]
  | trailer =>
    simp only [step, readTrailer] at stepped
    repeat' split at stepped
    all_goals contradiction

/-- How a run came to its end. -/
inductive Halt where
  /-- A byte is to be written and there is no room for it. -/
  | full (suspended : Inflater)
  /-- The stream has ended with these bytes written, and these follow it. -/
  | done (out : Array UInt8) (rest : List UInt8)
  /-- The stream has no text. -/
  | flawed (flaw : Flaw)

/-- Runs until the stream ends or a byte is to be written while `capacity` bytes are out. -/
def run (capacity : Nat) (inflater : Inflater) : Halt :=
  if inflater.phase.writes && capacity ≤ inflater.out.size then
    .full inflater
  else
    match _stepped : inflater.step with
    | .more next => run capacity next
    | .done out rest => .done out rest
    | .flawed flaw => .flawed flaw
termination_by inflater.remaining
decreasing_by exact remaining_step ‹_›

end Inflater

------------------------------------------------------------------------------------------
-- Growing room
------------------------------------------------------------------------------------------

/-- Why a payload gives no bytes within a limit. -/
inductive InflateError where
  | tooLarge
  | flawed (flaw : Flaw)
  | trailing (count : Nat)
deriving DecidableEq

/-- The next capacity: twice the last, at least 64, and never beyond the limit. -/
def grownCapacity (limit capacity : Nat) : Nat :=
  min (max (2 * capacity) 64) limit

theorem lt_grownCapacity {limit capacity : Nat} (below : capacity < limit)
    : capacity < grownCapacity limit capacity := by
  simp only [grownCapacity]
  omega

/-- Runs an inflater with more and more room, until the stream ends or the limit is in the way. -/
def inflateFrom (limit capacity : Nat) (inflater : Inflater)
    : Except InflateError (Array UInt8) :=
  match inflater.run capacity with
  | .done out [] => .ok out
  | .done _ rest => .error (.trailing rest.length)
  | .flawed flaw => .error (.flawed flaw)
  | .full inflater =>
    if below : capacity < limit then
      have := lt_grownCapacity below
      inflateFrom limit (grownCapacity limit capacity) inflater
    else
      .error .tooLarge
termination_by limit - capacity
decreasing_by omega

/-- The bytes that a payload holds, if they are at most `limit`. The room to write starts at twice
the size of the payload.
-/
def inflate (limit : Nat) (payload : List UInt8) : Except InflateError (Array UInt8) :=
  inflateFrom limit (min (2 * payload.length) limit) (.ofPayload payload)

end Scratchpad.Zlib
