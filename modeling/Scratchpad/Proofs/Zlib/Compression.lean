import Scratchpad.Proofs.Zlib.Matches
import Scratchpad.Proofs.Zlib.Runs

/-! The compressor never falls back. What a search finds says what stands in the text and can be
coded, the codes that are made for it have a codeword for every symbol, and they can be described;
so at every level that compresses, the segments of a text are written as they were found.
-/

namespace Scratchpad.Zlib

------------------------------------------------------------------------------------------
-- Rungs
------------------------------------------------------------------------------------------

namespace Rung

/-- Rungs that follow one another leave no gap, by induction over them. -/
theorem exists_mem_ladder {first value : Nat} {extras : List Nat} (above : first ≤ value)
    (below : value < first + (extras.map (2 ^ ·)).sum)
    : ∃ rung ∈ ladder first extras, rung.covers value = true := by
  induction extras generalizing first with
  | nil => exact absurd below (Nat.not_lt.mpr above)
  | cons extra rest ih =>
      rw [List.map_cons, List.sum_cons] at below
      by_cases here : value - first < 2 ^ extra
      · exact ⟨⟨first, extra⟩, List.mem_cons_self, covers_iff.mpr ⟨above, here⟩⟩
      · have later : first + Nat.pow 2 extra ≤ value := by
          rw [Nat.pow_eq]
          omega
        obtain ⟨rung, listed, covers⟩ := ih later (by rw [Nat.pow_eq]; omega)
        exact ⟨rung, List.mem_cons_of_mem _ listed, covers⟩

/-- If a rung covers a value, one is found. -/
theorem exists_find? {rungs : Array Rung} {value : Nat}
    (covered : ∃ rung ∈ rungs, rung.covers value = true)
    : ∃ index rung, find? rungs value = some (index, rung) := by
  obtain ⟨covering, listed, covers⟩ := covered
  obtain ⟨place, stands⟩ := Array.mem_iff_getElem?.mp listed
  have inside : place < rungs.size := (Array.getElem?_eq_some_iff.mp stands).1
  rw [find?]
  generalize rungs.size = count at inside
  induction count with
  | zero => exact absurd inside (Nat.not_lt_zero place)
  | succ count ih =>
      have earlier (other : place ≠ count) := ih (by omega)
      rw [find?.go]
      split
      · rename_i missing
        exact earlier fun same => by rw [same, missing] at stands; contradiction
      · rename_i rung found
        split
        · exact ⟨count, rung, rfl⟩
        · rename_i other
          exact earlier fun same => by
            rw [same, found] at stands
            exact other (Option.some.inj stands ▸ covers)

theorem exists_find?_lengths {length : Nat} (least : 3 ≤ length) (most : length ≤ maxMatch)
    : ∃ index rung, find? lengths length = some (index, rung) := by
  obtain ⟨rung, listed, covers⟩ := exists_mem_ladder least
    (Nat.lt_of_le_of_lt most (by decide
      : maxMatch < 3 + ([0, 0, 0, 0, 0, 0, 0, 0, 1, 1, 1, 1, 2, 2, 2, 2, 3, 3, 3, 3, 4, 4, 4, 4,
        5, 5, 5, 5].map (2 ^ ·)).sum))
  exact exists_find? ⟨rung, Array.mem_push_of_mem _ (List.mem_toArray.mpr listed), covers⟩

theorem exists_find?_distances {distance : Nat} (least : 1 ≤ distance)
    (most : distance ≤ windowSize)
    : ∃ index rung, find? distances distance = some (index, rung) := by
  obtain ⟨rung, listed, covers⟩ := exists_mem_ladder least
    (Nat.lt_of_le_of_lt most (by decide
      : windowSize < 1 + ([0, 0, 0, 0, 1, 1, 2, 2, 3, 3, 4, 4, 5, 5, 6, 6, 7, 7, 8, 8, 9, 9, 10,
        10, 11, 11, 12, 12, 13, 13].map (2 ^ ·)).sum))
  exact exists_find? ⟨rung, List.mem_toArray.mpr listed, covers⟩

end Rung

------------------------------------------------------------------------------------------
-- Tokens
------------------------------------------------------------------------------------------

namespace Token

theorem lt_of_literalSymbol {token : Token} {symbol : Nat}
    (found : token.literalSymbol? = some symbol)
    : symbol < BlockCodes.maxLiterals := by
  cases token with
  | literal byte =>
      obtain rfl := Option.some.inj found
      exact Nat.lt_trans byte.toNat_lt (by decide)
  | copy length distance =>
      obtain ⟨⟨index, rung⟩, stands, rfl⟩ := Option.map_eq_some_iff.mp found
      obtain ⟨listed, -⟩ := Rung.find?_spec stands
      have inside : index < 29 := (Array.getElem?_eq_some_iff.mp listed).1
      exact (by omega : 256 + 1 + index < 286)

theorem lt_of_distanceSymbol {token : Token} {symbol : Nat}
    (found : token.distanceSymbol? = some symbol)
    : symbol < BlockCodes.maxDistances := by
  cases token with
  | literal byte => contradiction
  | copy length distance =>
      obtain ⟨⟨index, rung⟩, stands, rfl⟩ := Option.map_eq_some_iff.mp found
      obtain ⟨listed, -⟩ := Rung.find?_spec stands
      exact (Array.getElem?_eq_some_iff.mp listed).1

/-- The symbols of a token, of which it may have one in either code, are among some. -/
structure UsesOnly (token : Token) (literal distance : Nat → Prop) : Prop where
  literal : ∀ symbol, token.literalSymbol? = some symbol → literal symbol
  distance : ∀ symbol, token.distanceSymbol? = some symbol → distance symbol

/-- A token that can be coded has bits where its symbols have codewords. -/
theorem Coded.exists_bits {token : Token} (coded : token.Coded) {tables : BlockTables}
    (given : token.UsesOnly
      (fun symbol => ∃ word, codeword? tables.literals symbol = some word)
      (fun symbol => ∃ word, codeword? tables.distances symbol = some word))
    : ∃ bits, token.bits? tables = some bits := by
  cases token with
  | literal byte => exact given.literal byte.toNat rfl
  | copy length distance =>
      obtain ⟨least, most, near, far⟩ := coded
      obtain ⟨index, rung, found⟩ := Rung.exists_find?_lengths least most
      obtain ⟨farIndex, farRung, farFound⟩ := Rung.exists_find?_distances near far
      obtain ⟨word, listed⟩ := given.literal (BlockCodes.endOfBlock + 1 + index)
        (by rw [literalSymbol?, found]; rfl)
      obtain ⟨farWord, farListed⟩ := given.distance farIndex
        (by rw [distanceSymbol?, farFound]; rfl)
      simp only [bits?, found, listed, farFound, farListed, Option.bind_eq_bind, Option.bind_some]
      exact ⟨_, rfl⟩

end Token

/-- Tokens have bits if each of them and the end of the block has, by induction over them. -/
theorem exists_tokenBits {tables : BlockTables} {tokens : List Token}
    (each : ∀ token ∈ tokens, ∃ bits, token.bits? tables = some bits)
    (ends : ∃ word, codeword? tables.literals BlockCodes.endOfBlock = some word)
    (reversed : List Bool)
    : ∃ bits, tokenBits? tables reversed tokens = some bits := by
  induction tokens generalizing reversed with
  | nil =>
      obtain ⟨word, found⟩ := ends
      exact ⟨_, by rw [tokenBits?, found]; rfl⟩
  | cons token rest ih =>
      obtain ⟨bits, found⟩ := each token List.mem_cons_self
      rw [tokenBits?, found]
      exact ih (fun other listed => each other (List.mem_cons_of_mem token listed)) _

/-- Tokens have bits in codes that serve all their symbols. -/
theorem BlockCodes.exists_tokenBits {codes : BlockCodes} {literals distances : List Nat}
    (literalsServe : codes.literals.Serves literals)
    (distancesServe : codes.distances.Serves distances) {tokens : List Token}
    (coded : ∀ token ∈ tokens, token.Coded)
    (used
      : ∀ token ∈ tokens,
          token.UsesOnly (literals.getD · 0 ≠ 0) (distances.getD · 0 ≠ 0))
    (ends : literals.getD endOfBlock 0 ≠ 0)
    : ∃ bits, tokenBits? codes.tables [] tokens = some bits := by
  refine Zlib.exists_tokenBits (fun token listed => (coded token listed).exists_bits ?_)
    (literalsServe.exists_codeword ends (by decide)) []
  constructor
  case literal =>
    exact fun symbol found => literalsServe.exists_codeword
      ((used token listed).literal symbol found)
      (Nat.lt_trans (Token.lt_of_literalSymbol found) (by decide))
  case distance =>
    exact fun symbol found => distancesServe.exists_codeword
      ((used token listed).distance symbol found)
      (Nat.lt_trans (Token.lt_of_distanceSymbol found) (by decide))

------------------------------------------------------------------------------------------
-- Segments
------------------------------------------------------------------------------------------

/-- The fixed codes serve all symbols. -/
theorem BlockCodes.fixed_serves
    : fixed.literals.Serves fixedLiteralLengths ∧ fixed.distances.Serves fixedDistanceLengths := by
  constructor
  · exact (PrefixCode.place_spec (by decide +kernel) (by decide +kernel)).2.2
  · exact (PrefixCode.place_spec (by decide +kernel) (by decide +kernel)).2.2

/-- Tokens that can be coded have bits in the fixed codes. -/
theorem BlockCodes.exists_fixed_bits {tokens : List Token}
    (coded : ∀ token ∈ tokens, token.Coded)
    : ∃ bits, tokenBits? fixed.tables [] tokens = some bits := by
  have literals : ∀ symbol < maxLiterals, fixedLiteralLengths.getD symbol 0 ≠ 0 := by
    decide +kernel
  have distances : ∀ symbol < maxDistances, fixedDistanceLengths.getD symbol 0 ≠ 0 := by
    decide +kernel
  refine exists_tokenBits fixed_serves.1 fixed_serves.2 coded (fun token _ => ?_)
    (literals endOfBlock (by decide))
  constructor
  case literal => exact fun symbol found => literals symbol (Token.lt_of_literalSymbol found)
  case distance => exact fun symbol found => distances symbol (Token.lt_of_distanceSymbol found)

/-- What is counted of some symbols: those that were there before and those that are seen. -/
structure Counts (size bound : Nat) (symbol? : Token → Option Nat) (tokens : List Token)
    (weights : List Nat) : Prop where
  length_eq : weights.length = size
  lt_bound : ∀ symbol, weights.getD symbol 0 ≠ 0 → symbol < bound
  seen
    : ∀ token ∈ tokens, ∀ symbol, symbol? token = some symbol → weights.getD symbol 0 ≠ 0

/-- Counting finds the symbols of all tokens, and no others beside those that were there before. -/
theorem counts_tally {size bound : Nat} {symbol? : Token → Option Nat} {before : Array Nat}
    (sized : before.size = size) (room : bound ≤ size)
    (initial : ∀ symbol, before.getD symbol 0 ≠ 0 → symbol < bound)
    (inside : ∀ token symbol, symbol? token = some symbol → symbol < bound)
    (tokens : List Token)
    : Counts size bound symbol? tokens (tally symbol? before tokens).toList := by
  subst sized
  have length_eq : (tally symbol? before tokens).toList.length = before.size := by
    rw [Array.length_toList, size_tally]
  constructor
  case length_eq => exact length_eq
  case lt_bound =>
    intro symbol some
    obtain ⟨weight, found, -⟩ := CodewordLengths.getD_ne_zero_iff.mp some
    have within : symbol < before.size := length_eq ▸ (List.getElem?_eq_some_iff.mp found).1
    rcases (getD_tally_ne_zero_iff symbol? within tokens).mp some with earlier | ⟨token, -, seen⟩
    · exact initial symbol earlier
    · exact inside token symbol seen
  case seen =>
    intro token listed symbol seen
    have within : symbol < before.size := Nat.lt_of_lt_of_le (inside token symbol seen) room
    exact (getD_tally_ne_zero_iff symbol? within tokens).mpr (.inr ⟨token, listed, seen⟩)

theorem counts_literalWeights (tokens : List Token)
    : Counts 288 BlockCodes.maxLiterals Token.literalSymbol? tokens (literalWeights tokens) := by
  have initial : ∀ symbol,
      ((Array.replicate 288 0).setIfInBounds BlockCodes.endOfBlock 1).getD symbol 0 ≠ 0
        → symbol < BlockCodes.maxLiterals := by
    intro symbol some
    rw [Array.getD_eq_getD_getElem?, Array.getElem?_setIfInBounds] at some
    split at some
    · rename_i same
      exact same ▸ (by decide : BlockCodes.endOfBlock < BlockCodes.maxLiterals)
    · rw [← Array.getD_eq_getD_getElem?] at some
      exact absurd (CodewordLengths.getD_replicate_zero 288 symbol) some
  exact counts_tally (by rw [Array.size_setIfInBounds, Array.size_replicate]) (by decide) initial
    (fun token symbol => Token.lt_of_literalSymbol) tokens

theorem counts_distanceWeights (tokens : List Token)
    : Counts 32 BlockCodes.maxDistances Token.distanceSymbol? tokens (distanceWeights tokens) := by
  have initial : ∀ symbol,
      (Array.replicate 32 0).getD symbol 0 ≠ 0 → symbol < BlockCodes.maxDistances :=
    fun symbol some => absurd (CodewordLengths.getD_replicate_zero 32 symbol) some
  exact counts_tally Array.size_replicate (by decide) initial
    (fun token symbol => Token.lt_of_distanceSymbol) tokens

/-- The end of the block is counted once. -/
theorem literalWeights_endOfBlock (tokens : List Token)
    : (literalWeights tokens).getD BlockCodes.endOfBlock 0 ≠ 0 := by
  have inside : BlockCodes.endOfBlock < (Array.replicate 288 0).size := by
    rw [Array.size_replicate]
    decide
  refine (getD_tally_ne_zero_iff Token.literalSymbol? ?_ tokens).mpr (.inl ?_)
  · rwa [Array.size_setIfInBounds]
  · rw [Array.getD_eq_getD_getElem?, Array.getElem?_setIfInBounds_self_of_lt inside,
      Option.getD_some]
    exact Nat.one_ne_zero

/-- A segment whose tokens can be coded has bits. -/
theorem Segment.exists_bits {segment : Segment} (coded : ∀ token ∈ segment.tokens, token.Coded)
    : ∃ bits, segment.bits? = some bits := by
  rw [bits?]
  split
  · obtain ⟨bits, found⟩ := BlockCodes.exists_fixed_bits coded
    exact ⟨_, by rw [found]; rfl⟩
  · have literals := counts_literalWeights segment.tokens
    have distances := counts_distanceWeights segment.tokens
    have ends := literalWeights_endOfBlock segment.tokens
    obtain ⟨described, description, given, written, literalsServe, distancesServe⟩ :=
      BlockCodes.Described.exists_ofWeights ⟨literals.length_eq, literals.lt_bound⟩
        ⟨distances.length_eq, distances.lt_bound⟩ ends
    obtain ⟨body, found⟩ := BlockCodes.exists_tokenBits literalsServe distancesServe coded
      (fun token listed => ⟨literals.seen token listed, distances.seen token listed⟩) ends
    simp only [given, written, found, Option.bind_eq_bind, Option.bind_some]
    exact ⟨_, rfl⟩

------------------------------------------------------------------------------------------
-- Streams
------------------------------------------------------------------------------------------

namespace Draft

variable {data : Array UInt8} {draft : Draft}

/-- A segment that says what stands in the data is written, and brings the stream to its end. -/
theorem exists_write {segment : Segment}
    (spells : Spells data draft.position segment.tokens (draft.position + segment.size))
    (last : Bool)
    : ∃ after, draft.write? data last segment = some after
        ∧ after.position = draft.position + segment.size := by
  obtain ⟨bits, found⟩ := Segment.exists_bits spells.coded
  simp only [write?, spells.replayed, found, Option.bind_eq_bind, Option.bind_some]
  split
  · rw [if_pos trivial]
    exact ⟨_, rfl, rfl⟩
  · exact ⟨_, rfl, rfl⟩

/-- Segments that cover the data are written, by induction over them. -/
theorem exists_writeAll {segments : List Segment} {stop : Nat} (some : segments ≠ [])
    (covers : Covers data draft.position segments stop)
    : ∃ after, draft.writeAll? data segments = .some after ∧ after.position = stop := by
  induction segments generalizing draft with
  | nil => exact absurd rfl some
  | cons segment rest ih =>
      obtain - | ⟨spells, later⟩ := covers
      cases rest with
      | nil =>
          obtain ⟨after, written, moved⟩ := exists_write spells true
          cases later
          exact ⟨after, written, moved⟩
      | cons next rest =>
          obtain ⟨after, written, moved⟩ := exists_write spells false
          rw [writeAll?, written]
          · exact ih (List.cons_ne_nil next rest) (moved ▸ later)
          · exact List.cons_ne_nil next rest

end Draft

/-- The segments of a level make a stream of any data. -/
theorem exists_compressedStream (level : Nat) (data : Array UInt8)
    : ∃ stream, compressedStream? level data = some stream := by
  have covers : Covers data (Draft.opened level).position _ data.size :=
    Segment.covers_ofLevel level data
  obtain ⟨draft, written, moved⟩ :=
    Draft.exists_writeAll (Segment.ofLevel_ne_nil level data) covers
  refine ⟨draft.close data, ?_⟩
  rw [compressedStream?, written, Option.bind_eq_bind, Option.bind_some, if_pos moved]

/-- Every level but 0 writes what it has found, and never stores the whole text instead. -/
theorem compressedStream_eq_compress {level : Nat} (compresses : level ≠ 0) (data : Array UInt8)
    : compressedStream? level data = some (compress level data) := by
  obtain ⟨stream, found⟩ := exists_compressedStream level data
  rw [compress, if_neg compresses, found, Option.getD_some]

end Scratchpad.Zlib
