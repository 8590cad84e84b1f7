import Scratchpad.Proofs.Zlib.Descriptions
import Scratchpad.Proofs.Zlib.Expansion
import Scratchpad.Zlib.Deflate

/-! Every block that is written is read back. The decoder stands before a block with the data up
to a position written; behind the block it stands with the data up to the end of the segment, and
the bits behind the block are still ahead of it. Two decoders that stand for the same continuation
have the same expansion, so each step of the argument is an equation between expansions.
-/

namespace Scratchpad.Zlib

open BitReader (ofBits)

------------------------------------------------------------------------------------------
-- Copying
------------------------------------------------------------------------------------------

/-- The next byte of the data takes what is written one position further. -/
theorem push_extract_of_getElem? {data : Array UInt8} {position : Nat} {byte : UInt8}
    (stands : data[position]? = some byte)
    : (data.extract 0 position).push byte = data.extract 0 (position + 1) := by
  obtain ⟨inside, rfl⟩ := Array.getElem?_eq_some_iff.mp stands
  exact (Array.extract_succ_right (by omega) inside).symm

/-- The bits of a match: a codeword and extra bits for its length, and the same for its
distance.
-/
theorem Token.bits?_copy {codes : BlockCodes} {length distance : Nat} {bits : List Bool}
    (given : (Token.copy length distance).bits? codes.tables = some bits)
    : ∃ index rung word,
        Rung.lengths[index]? = some rung
        ∧ rung.covers length = true
        ∧ codeword? (codes.literals.table 288) (BlockCodes.endOfBlock + 1 + index) = some word
        ∧ ∃ farIndex farRung farWord,
          Rung.distances[farIndex]? = some farRung
          ∧ farRung.covers distance = true
          ∧ codeword? (codes.distances.table 32) farIndex = some farWord
          ∧ bits = word ++ rung.bits length ++ farWord ++ farRung.bits distance := by
  simp only [Token.bits?] at given
  obtain ⟨⟨index, rung⟩, found, given⟩ := Option.bind_eq_some_iff.mp given
  obtain ⟨word, listed, given⟩ := Option.bind_eq_some_iff.mp given
  obtain ⟨⟨farIndex, farRung⟩, farFound, given⟩ := Option.bind_eq_some_iff.mp given
  obtain ⟨farWord, farListed, given⟩ := Option.bind_eq_some_iff.mp given
  obtain ⟨stands, covers⟩ := Rung.find?_spec found
  obtain ⟨farStands, farCovers⟩ := Rung.find?_spec farFound
  exact ⟨index, rung, word, stands, covers, listed, farIndex, farRung, farWord, farStands,
    farCovers, farListed, (Option.some.inj given).symm⟩

namespace Inflater

/-- A match that repeats what stands `distance` bytes before writes the data as it is, even where
it repeats its own bytes; by induction over the bytes to be written.
-/
theorem expand_matching {data : Array UInt8} {distance : Nat} (context : BlockContext)
    (reader : BitReader) (left position : Nat) (bound : left < 259)
    (near : 1 ≤ distance) (back : distance ≤ position) (inside : position + left ≤ data.size)
    (repeats : ∀ index < left, data[position + index]? = data[position + index - distance]?)
    : expand ⟨.matching ⟨left, bound⟩ distance context, reader, data.extract 0 position⟩
      = expand ⟨.symbol context, reader, data.extract 0 (position + left)⟩ := by
  induction left generalizing position with
  | zero => exact expand_of_more rfl
  | succ left ih =>
      have same := repeats 0 (by omega)
      have source : position - distance < data.size := by omega
      have written
          : (data.extract 0 position).getD
              ((data.extract 0 position).size - distance) 0
            = data[position - distance] := by
        rw [Array.size_extract, Nat.min_eq_left (by omega), Nat.sub_zero, Array.getD,
          dif_pos (by rw [Array.size_extract]; omega)]
        simp
      have stands : data[position]? = some data[position - distance] := by
        rw [← Array.getElem?_eq_getElem source]
        exact same
      rw [expand_of_more rfl, written, push_extract_of_getElem? stands]
      have next := ih (position + 1) (by omega) (by omega) (by omega)
        (fun index below => by
          have := repeats (index + 1) (by omega)
          rwa [← Nat.add_assoc, Nat.add_right_comm] at this)
      rw [next, Nat.add_assoc, Nat.add_comm 1 left]

/-- The bytes of a stored block are written as they stand, by induction over them. -/
theorem expand_stored (last : Bool) (bytes : List UInt8) (out : Array UInt8)
    {more : List Bool} (whole : more.length % 8 = 0)
    : expand ⟨.stored bytes.length last, ofBits (bytes.flatMap bitsOfByte ++ more), out⟩
      = expand ⟨.after last, ofBits more, out ++ bytes.toArray⟩ := by
  induction bytes generalizing out with
  | nil => rw [expand_of_more rfl]; simp
  | cons byte bytes ih =>
      have behind : (bytes.flatMap bitsOfByte ++ more).length % 8 = 0 := by
        have := length_flatMap_bitsOfByte bytes
        rw [List.length_append]
        omega
      have stepped
          : step ⟨.stored (byte :: bytes).length last,
                ofBits ((byte :: bytes).flatMap bitsOfByte ++ more), out⟩
            = .more ⟨.stored bytes.length last,
                ofBits (bytes.flatMap bitsOfByte ++ more), out.push byte⟩ := by
        simp only [step, List.length_cons, List.flatMap_cons, List.append_assoc,
          BitReader.byte?_ofBits byte behind]
      rw [expand_of_more stepped, ih]
      simp

------------------------------------------------------------------------------------------
-- Tokens
------------------------------------------------------------------------------------------

/-- A token that says what stands in the data is read back from its bits and writes the data. -/
theorem expand_token {data : Array UInt8} {position : Nat} {token : Token}
    {codes : BlockCodes} {bits : List Bool} (given : token.bits? codes.tables = some bits)
    (fits : token.fits data position = true) (last : Bool) (more : List Bool)
    : expand ⟨.symbol ⟨codes, last⟩, ofBits (bits ++ more), data.extract 0 position⟩
      = expand ⟨.symbol ⟨codes, last⟩, ofBits more,
          data.extract 0 (position + token.size)⟩ := by
  cases token with
  | literal byte =>
      have symbolRead := PrefixCode.read_codeword given more
      have stands : data[position]? = some byte := by simpa [Token.fits] using fits
      have stepped
          : step ⟨.symbol ⟨codes, last⟩, ofBits (bits ++ more), data.extract 0 position⟩
            = .more ⟨.literal byte ⟨codes, last⟩, ofBits more, data.extract 0 position⟩ := by
        have low : byte.toNat < BlockCodes.endOfBlock := byte.toNat_lt
        simp only [step, readSymbol, symbolRead, if_pos low, UInt8.ofNat_toNat]
      rw [expand_of_more stepped, expand_of_more rfl, push_extract_of_getElem? stands]
      rfl
  | copy length distance =>
      obtain ⟨near, back, inside, repeats⟩
          : 1 ≤ distance ∧ distance ≤ position ∧ position + length ≤ data.size
            ∧ ∀ index < length, data[position + index]? = data[position + index - distance]? := by
        simpa [Token.fits, and_assoc] using fits
      obtain ⟨index, rung, word, stands, covers, listed, farIndex, farRung, farWord, farStands,
        farCovers, farListed, rfl⟩ := Token.bits?_copy given
      have short : length ≤ 258 := Rung.le_of_covers stands covers
      have symbolRead := PrefixCode.read_codeword listed
        (rung.bits length ++ (farWord ++ (farRung.bits distance ++ more)))
      have lengthRead := Rung.read?_ofBits covers (farWord ++ (farRung.bits distance ++ more))
      have farRead := PrefixCode.read_codeword farListed (farRung.bits distance ++ more)
      have distanceRead := Rung.read?_ofBits farCovers more
      have reaches : ¬ (data.extract 0 position).size < distance := by
        rw [Array.size_extract]
        omega
      have stepped
          : step ⟨.symbol ⟨codes, last⟩,
                ofBits (word ++ rung.bits length ++ farWord ++ farRung.bits distance ++ more),
                data.extract 0 position⟩
            = .more ⟨.matching ⟨length, by omega⟩ distance ⟨codes, last⟩, ofBits more,
                data.extract 0 position⟩ := by
        have high : ¬ BlockCodes.endOfBlock + 1 + index < BlockCodes.endOfBlock := by omega
        have other : BlockCodes.endOfBlock + 1 + index ≠ BlockCodes.endOfBlock := by omega
        have narrow : Fin.ofNat 259 length = ⟨length, by omega⟩ :=
          Fin.ext (Nat.mod_eq_of_lt (by omega))
        simp only [List.append_assoc, step, readSymbol, symbolRead, if_neg high, if_neg other,
          Nat.add_sub_cancel_left, stands, lengthRead, readDistance, farRead, farStands,
          distanceRead, if_neg reaches, narrow]
      rw [expand_of_more stepped]
      exact expand_matching _ _ length position (by omega) near back inside repeats

/-- The bits of tokens stand behind those already written; read back, the tokens write the data
that they were compared with, and the block ends. By induction over the tokens.
-/
theorem expand_tokens {data : Array UInt8} {codes : BlockCodes} {tokens : List Token}
    {reversed bits : List Bool} {position stop : Nat}
    (given : tokenBits? codes.tables reversed tokens = some bits)
    (replayed : Draft.replay? data position tokens = some stop)
    : ∃ own, bits = reversed.reverse ++ own
      ∧ ∀ (last : Bool) (more : List Bool),
        expand ⟨.symbol ⟨codes, last⟩, ofBits (own ++ more), data.extract 0 position⟩
          = expand ⟨.after last, ofBits more, data.extract 0 stop⟩ := by
  induction tokens generalizing reversed bits position with
  | nil =>
      obtain ⟨word, listed, rfl⟩ := Option.map_eq_some_iff.mp given
      obtain rfl := Option.some.inj replayed
      refine ⟨word, by simp [List.reverseAux_eq], fun last more => expand_of_more ?_⟩
      simp [step, readSymbol, PrefixCode.read_codeword listed more]
  | cons token rest ih =>
      simp only [Draft.replay?] at replayed
      split at replayed
      case isFalse => contradiction
      rename_i fits
      simp only [tokenBits?] at given
      split at given
      · contradiction
      · rename_i own found
        obtain ⟨tail, rfl, tailRead⟩ := ih given replayed
        refine ⟨own ++ tail, by simp [List.reverseAux_eq], fun last more => ?_⟩
        rw [List.append_assoc, expand_token found fits]
        exact tailRead last more

------------------------------------------------------------------------------------------
-- Blocks
------------------------------------------------------------------------------------------

/-- The mark of the last block and the kind of a block are read back. -/
theorem step_block (last : Bool) {kind : Nat} (known : kind < 2 ^ 2) (more : List Bool)
    (out : Array UInt8)
    : step ⟨.block, ofBits (last :: (bitsOfNat 2 kind ++ more)), out⟩
      = match kind with
        | 0 => readStored last (ofBits more) out
        | 1 => .more ⟨.symbol ⟨.fixed, last⟩, ofBits more, out⟩
        | 2 =>
            match BlockCodes.read (ofBits more) with
            | .error flaw => .flawed flaw
            | .ok (codes, reader) => .more ⟨.symbol ⟨codes, last⟩, reader, out⟩
        | _ => .flawed .invalid := by
  have marked : last.toNat < 2 ^ 1 := last.toNat_lt
  have markRead := BitReader.number?_ofBits marked (bitsOfNat 2 kind ++ more)
  have one : bitsOfNat 1 last.toNat = [last] := by cases last <;> rfl
  have back : (last.toNat == 1) = last := by cases last <;> rfl
  rw [one, List.singleton_append] at markRead
  simp only [step, readBlock, markRead, BitReader.number?_ofBits known more, back]
  clear markRead
  rcases (by omega : kind = 0 ∨ kind = 1 ∨ kind = 2 ∨ kind = 3) with rfl | rfl | rfl | rfl
  all_goals rfl

/-- The block of a segment that was compared with the data is read back and writes the data. -/
theorem expand_compressed {data : Array UInt8} {segment : Segment} {bits : List Bool}
    {position stop : Nat} (given : segment.bits? = some bits)
    (replayed : Draft.replay? data position segment.tokens = some stop) (last : Bool)
    (more : List Bool)
    : expand ⟨.block, ofBits (last :: (bits ++ more)), data.extract 0 position⟩
      = expand ⟨.after last, ofBits more, data.extract 0 stop⟩ := by
  simp only [Segment.bits?] at given
  split at given
  · obtain ⟨body, written, rfl⟩ := Option.map_eq_some_iff.mp given
    obtain ⟨_, rfl, bodyRead⟩ := expand_tokens written replayed
    rw [List.append_assoc]
    exact (expand_of_more (step_block last (by decide : 1 < 2 ^ 2) _ _)).trans
      (bodyRead last more)
  · obtain ⟨described, -, given⟩ := Option.bind_eq_some_iff.mp given
    obtain ⟨description, descriptionWritten, given⟩ := Option.bind_eq_some_iff.mp given
    obtain ⟨body, written, given⟩ := Option.bind_eq_some_iff.mp given
    obtain rfl := Option.some.inj given
    obtain ⟨_, rfl, bodyRead⟩ := expand_tokens written replayed
    have descriptionRead := BlockCodes.read_description descriptionWritten (body ++ more)
    have stepped := step_block last (by decide : 2 < 2 ^ 2) (description ++ (body ++ more))
      (data.extract 0 position)
    simp only [descriptionRead] at stepped
    rw [← bodyRead last more, List.append_assoc, List.append_assoc]
    exact expand_of_more stepped

/-- A stored block is read back, whatever bits fill up to the boundary before its length. -/
theorem expand_storedBlock (last : Bool) {pad : List Bool} {bytes : List UInt8}
    (short : pad.length < 8) (fits : bytes.length < 2 ^ 16) {more : List Bool}
    (whole : more.length % 8 = 0) (out : Array UInt8)
    : expand ⟨.block,
          ofBits (last :: (bitsOfNat 2 0 ++ (pad ++ (bitsOfNat 16 bytes.length
            ++ (bitsOfNat 16 (0xFFFF - bytes.length)
              ++ (bytes.flatMap bitsOfByte ++ more)))))), out⟩
      = expand ⟨.after last, ofBits more, out ++ bytes.toArray⟩ := by
  have complement : 0xFFFF - bytes.length < 2 ^ 16 := by omega
  have sum : bytes.length + (0xFFFF - bytes.length) = 0xFFFF := by omega
  have behind : (bytes.flatMap bitsOfByte ++ more).length % 8 = 0 := by
    have := length_flatMap_bitsOfByte bytes
    rw [List.length_append]
    omega
  have aligned : (bitsOfNat 16 bytes.length ++ (bitsOfNat 16 (0xFFFF - bytes.length)
      ++ (bytes.flatMap bitsOfByte ++ more))).length % 8 = 0 := by
    rw [List.length_append, List.length_append, length_bitsOfNat, length_bitsOfNat]
    omega
  have stepped := step_block last (by decide : 0 < 2 ^ 2) (pad ++ (bitsOfNat 16 bytes.length
    ++ (bitsOfNat 16 (0xFFFF - bytes.length) ++ (bytes.flatMap bitsOfByte ++ more)))) out
  simp only [readStored, BitReader.align_ofBits short aligned, BitReader.number?_ofBits fits,
    BitReader.number?_ofBits complement, if_pos sum] at stepped
  rw [expand_of_more stepped]
  exact expand_stored last bytes out whole

end Inflater

/-- Tokens that say what stands in the data end inside it, by induction over them. -/
theorem Draft.le_of_replay? {data : Array UInt8} {tokens : List Token} {position stop : Nat}
    (replayed : replay? data position tokens = some stop) (inside : position ≤ data.size)
    : stop ≤ data.size := by
  induction tokens generalizing position with
  | nil =>
      obtain rfl := Option.some.inj replayed
      exact inside
  | cons token rest ih =>
      simp only [replay?] at replayed
      split at replayed
      · rename_i fits
        refine ih replayed ?_
        cases token with
        | literal byte =>
            have stands : data[position]? = some byte := by simpa [Token.fits] using fits
            exact (Array.getElem?_eq_some_iff.mp stands).1
        | copy length distance =>
            simp only [Token.fits, Bool.and_eq_true, decide_eq_true_eq] at fits
            exact fits.1.2
      · contradiction

end Scratchpad.Zlib
