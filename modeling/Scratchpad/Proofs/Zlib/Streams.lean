import Scratchpad.Proofs.Zlib.Blocks

/-! A compressed stream expands to the data it was made from, and ends with its last byte.
A stream in the making keeps the promise that a decoder which has read it stands behind as much of
the data as it holds, whatever is written next; every block keeps it, and the checksum redeems it.
-/

namespace Scratchpad.Zlib

open BitReader (ofBits)

namespace BitWriter

theorem length_bits_of_short {writer : BitWriter} (short : writer.pending.length < 8)
    : writer.bits.length % 8 = writer.pending.length := by
  have := length_flatMap_bitsOfByte writer.bytes.toList
  rw [bits, List.length_append]
  omega

/-- At a byte boundary there is nothing to fill up. -/
theorem align_of_whole {writer : BitWriter} (short : writer.pending.length < 8)
    (whole : writer.bits.length % 8 = 0)
    : writer.align = writer := by
  have none : writer.pending = [] := by
    apply List.eq_nil_of_length_eq_zero
    rw [← length_bits_of_short short, whole]
  simp only [align, none]

end BitWriter

------------------------------------------------------------------------------------------
-- Checksums
------------------------------------------------------------------------------------------

namespace Adler32

/-- Both sums stay below the modulus. -/
def Reduced (sums : Adler32) : Prop :=
  sums.low < modulus ∧ sums.high < modulus

/-- The sums stay reduced from byte to byte. -/
theorem Reduced.foldl_add {sums : Adler32} (reduced : sums.Reduced) (bytes : List UInt8)
    : (bytes.foldl add sums).Reduced := by
  induction bytes generalizing sums with
  | nil => exact reduced
  | cons byte bytes ih => exact ih ⟨Nat.mod_lt _ (by decide), Nat.mod_lt _ (by decide)⟩

/-- A checksum takes four bytes. -/
theorem ofBytes_lt (bytes : Array UInt8)
    : ofBytes bytes < 2 ^ 32 := by
  have start : Reduced start := ⟨by decide, by decide⟩
  obtain ⟨low, high⟩ := start.foldl_add bytes.toList
  rw [Array.foldl_toList] at low high
  simp only [ofBytes, value, modulus] at *
  omega

end Adler32

/-- The four bytes of a checksum are read back, whatever bits fill up to the boundary. -/
theorem Inflater.readChecksum_ofBits {checksum : Nat} (fits : checksum < 2 ^ 32)
    {pad : List Bool} (short : pad.length < 8)
    : readChecksum (ofBits (pad ++ (Adler32.toBytes checksum).flatMap bitsOfByte))
      = some (checksum, ofBits []) := by
  have whole := length_flatMap_bitsOfByte (Adler32.toBytes checksum)
  have back
      : ((checksum / 16777216 % 256 * 256 + checksum / 65536 % 256) * 256
          + checksum / 256 % 256) * 256 + checksum % 256 = checksum := by
    omega
  rw [readChecksum, ← BitReader.byte?_align, BitReader.align_ofBits short whole,
    ← BitReader.ofBytes_eq_ofBits]
  simp only [Adler32.toBytes, BitReader.ofBytes, BitReader.byte?, Option.bind_eq_bind,
    Option.bind_some, UInt8.toNat_ofNat', back]
  rfl

------------------------------------------------------------------------------------------
-- Streams in the making
------------------------------------------------------------------------------------------

/-- A decoder that has read a stream in the making stands in `phase` behind the data that the
stream holds, and whatever makes up whole bytes with it is still ahead.
-/
structure Draft.Decodes (data : Array UInt8) (phase : Phase) (draft : Draft) : Prop where
  short : draft.writer.pending.length < 8
  inside : draft.position ≤ data.size
  decodes
    : ∀ more,
        (draft.writer.bits ++ more).length % 8 = 0
        → Inflater.expand ⟨.header, ofBits (draft.writer.bits ++ more), #[]⟩
          = Inflater.expand ⟨phase, ofBits more, data.extract 0 draft.position⟩

namespace Draft

/-- The opening of every level is accepted. -/
theorem opens_openingBytes {level : Nat} (known : level ≤ 10)
    : ∃ method flags, openingBytes level = [method, flags]
      ∧ Inflater.opens method.toNat flags.toNat = true := by
  have all : ∀ level : Fin 11,
      ∃ method flags, openingBytes level.val = [method, flags]
        ∧ Inflater.opens method.toNat flags.toNat = true := by
    intro level
    refine ⟨_, _, rfl, ?_⟩
    revert level
    decide
  exact all ⟨level, by omega⟩

/-- A stream of which only the opening is written decodes to nothing. -/
theorem decodes_opened {level : Nat} (known : level ≤ 10) (data : Array UInt8)
    : (opened level).Decodes data .block := by
  obtain ⟨method, flags, bytes, accepted⟩ := opens_openingBytes known
  refine ⟨by simp [opened], Nat.zero_le _, fun more whole => Inflater.expand_of_more ?_⟩
  have written : (opened level).writer.bits = bitsOfByte method ++ bitsOfByte flags := by
    simp [opened, BitWriter.bits, bytes]
  rw [written, List.length_append, List.length_append] at whole
  simp only [length_bitsOfByte] at whole
  have rest : more.length % 8 = 0 := by omega
  have behind : (bitsOfByte flags ++ more).length % 8 = 0 := by
    rw [List.length_append, length_bitsOfByte]
    omega
  rw [written, List.append_assoc]
  simp only [Inflater.step, Inflater.readHeader, BitReader.byte?_ofBits method behind,
    BitReader.byte?_ofBits flags rest, accepted, if_true, opened]
  simp

/-- The bits of a stored block stand behind the mark of the last block. -/
theorem bits_storeBody (data : Array UInt8) (size : Nat) (draft : Draft) (last : Bool)
    : ∃ pad, pad.length < 8
      ∧ (storeBody data size { draft with writer := draft.writer.append [last] }).writer.bits
        = draft.writer.bits ++ last :: (bitsOfNat 2 0 ++ (pad ++ (bitsOfNat 16 size
          ++ (bitsOfNat 16 (0xFFFF - size)
            ++ (data.extract draft.position (draft.position + size)).toList.flatMap
              bitsOfByte)))) := by
  simp only [storeBody]
  generalize opened : (draft.writer.append [last]).append [false, false] = writer
  have short : writer.pending.length < 8 := by
    rw [← opened]
    exact BitWriter.length_pending_append _ _
  obtain ⟨pad, few, aligned⟩ := BitWriter.bits_align short
  have whole
      : ((writer.align.number 16 size).number 16 (0xFFFF - size)).bits.length % 8 = 0 := by
    have := writer.length_bits_align
    rw [BitWriter.bits_number, BitWriter.bits_number, List.length_append, List.length_append,
      length_bitsOfNat, length_bitsOfNat]
    omega
  have still : ((writer.align.number 16 size).number 16 (0xFFFF - size)).align = _ :=
    BitWriter.align_of_whole (BitWriter.length_pending_append _ _) whole
  refine ⟨pad, few, ?_⟩
  rw [BitWriter.bits_appendBytes, still, BitWriter.bits_number, BitWriter.bits_number, aligned,
    ← opened]
  simp [bitsOfNat]

theorem pending_storeBody (data : Array UInt8) (size : Nat) (draft : Draft)
    : (storeBody data size draft).writer.pending = [] :=
  BitWriter.pending_appendBytes _ _

/-- The body of a stored block, behind the mark of the last block, holds the next bytes. -/
theorem Decodes.storeBody {data : Array UInt8} {draft : Draft}
    (before : draft.Decodes data .block) (last : Bool) {size : Nat}
    (inside : draft.position + size ≤ data.size) (fits : size < 2 ^ 16)
    : (Draft.storeBody data size { draft with writer := draft.writer.append [last] }).Decodes
        data (.after last) := by
  obtain ⟨pad, few, written⟩ := bits_storeBody data size draft last
  have pending := pending_storeBody data size { draft with writer := draft.writer.append [last] }
  refine ⟨by simp [pending], inside, fun more whole => ?_⟩
  have tail : more.length % 8 = 0 := by
    have := BitWriter.length_bits_of_short (by rw [pending]; decide)
    rw [pending, List.length_nil] at this
    rw [List.length_append] at whole
    omega
  generalize bytesAre : (data.extract draft.position (draft.position + size)).toList = bytes
    at written
  have length : size = bytes.length := by
    rw [← bytesAre, Array.length_toList, Array.size_extract]
    omega
  have grown : data.extract 0 (draft.position + size)
      = data.extract 0 draft.position ++ bytes.toArray := by
    rw [← bytesAre, Array.toArray_toList, Array.extract_append_extract]
    congr 1
    omega
  have stored := Inflater.expand_storedBlock last few (length ▸ fits) tail
    (data.extract 0 draft.position)
  rw [written, List.append_assoc] at whole ⊢
  rw [before.decodes _ whole]
  refine Eq.trans ?_ (stored.trans (congrArg (fun out => Inflater.expand ⟨_, _, out⟩) grown.symm))
  simp only [length, List.append_assoc, List.cons_append]

/-- A stored block holds the next bytes. -/
theorem Decodes.store {data : Array UInt8} {draft : Draft}
    (before : draft.Decodes data .block) (last : Bool) {size : Nat}
    (inside : draft.position + size ≤ data.size) (fits : size < 2 ^ 16)
    : (Draft.store data last size draft).Decodes data (.after last) :=
  before.storeBody last inside fits

/-- Whatever form a segment is written in, its block holds the next bytes of the data. -/
theorem Decodes.write? {data : Array UInt8} {draft next : Draft} {last : Bool}
    {segment : Segment} (before : draft.Decodes data .block)
    (written : draft.write? data last segment = some next)
    : next.Decodes data (.after last) := by
  simp only [Draft.write?] at written
  obtain ⟨stop, replayed, written⟩ := Option.bind_eq_some_iff.mp written
  obtain ⟨bits, given, written⟩ := Option.bind_eq_some_iff.mp written
  have inside := le_of_replay? replayed before.inside
  split at written
  · rename_i stored
    split at written
    · rename_i covered
      obtain rfl := Option.some.inj written
      have fits : segment.size < 2 ^ 16 := by
        simp only [Segment.isBetterStored, Bool.and_eq_true, decide_eq_true_eq] at stored
        exact stored.2
      exact before.storeBody last (by omega) fits
    · contradiction
  · obtain rfl := Option.some.inj written
    refine ⟨BitWriter.length_pending_append _ _, inside, fun more whole => ?_⟩
    simp only [BitWriter.bits_append, List.append_assoc] at whole ⊢
    rw [before.decodes _ whole]
    exact Inflater.expand_compressed given replayed last more

------------------------------------------------------------------------------------------
-- Whole streams
------------------------------------------------------------------------------------------

/-- The segments of a level hold the data as far as they go, by induction over them. -/
theorem Decodes.writeAll? {data : Array UInt8} {segments : List Segment} {draft next : Draft}
    (before : draft.Decodes data .block)
    (written : draft.writeAll? data segments = some next)
    : next.Decodes data .trailer := by
  fun_induction Draft.writeAll? data segments draft with
  | case1 => contradiction
  | case2 draft segment => exact before.write? written
  | case3 draft segment rest nonempty failed => contradiction
  | case4 draft segment rest nonempty middle first ih =>
      exact ih (before.write? first) written

/-- Stored blocks hold all of the data, by induction over the whole blocks. -/
theorem Decodes.storeAll {data : Array UInt8} {draft : Draft}
    (before : draft.Decodes data .block) (blocks : Nat)
    (whole : draft.position + blocks * storedSize ≤ data.size)
    (left : data.size - (draft.position + blocks * storedSize) < 2 ^ 16)
    : (Draft.storeAll data blocks draft).Decodes data .trailer
      ∧ (Draft.storeAll data blocks draft).position = data.size := by
  induction blocks generalizing draft with
  | zero =>
      simp only [Nat.zero_mul, Nat.add_zero] at whole left
      have inside : draft.position + (data.size - draft.position) ≤ data.size := by omega
      refine ⟨before.store true inside left, ?_⟩
      simp only [Draft.storeAll, Draft.store, Draft.storeBody]
      omega
  | succ blocks ih =>
      have inside : draft.position + storedSize ≤ data.size := by
        rw [Nat.add_mul] at whole
        omega
      have next := before.store false inside (by decide)
      rw [Nat.add_mul, Nat.one_mul, Nat.add_comm (blocks * _), ← Nat.add_assoc] at whole left
      exact ih next whole left

/-- The checksum of the data ends a stream that holds all of it. -/
theorem Decodes.expand_close {data : Array UInt8} {draft : Draft}
    (before : draft.Decodes data .trailer) (all : draft.position = data.size)
    : expand (draft.close data).toList = ⟨data, .complete []⟩ := by
  obtain ⟨pad, few, aligned⟩ := BitWriter.bits_align before.short
  have stream
      : (draft.close data).toList.flatMap bitsOfByte
        = draft.writer.bits ++ (pad
          ++ (Adler32.toBytes (Adler32.ofBytes data)).flatMap bitsOfByte) := by
    have bits := BitWriter.bits_appendBytes draft.writer
      (Adler32.toBytes (Adler32.ofBytes data)).toArray
    rw [BitWriter.bits, BitWriter.pending_appendBytes, List.append_nil, aligned] at bits
    rw [close, bits, List.append_assoc]
  have whole := length_flatMap_bitsOfByte (draft.close data).toList
  rw [stream] at whole
  rw [expand, Inflater.ofPayload, BitReader.ofBytes_eq_ofBits, stream, before.decodes _ whole,
    all, Array.extract_eq_self_of_le (Nat.le_refl _)]
  apply Inflater.expand_of_done
  simp only [Inflater.step, Inflater.readTrailer,
    Inflater.readChecksum_ofBits (Adler32.ofBytes_lt data) few, if_true]
  rfl

end Draft

/-- A stream of stored blocks expands to the data. -/
theorem expand_storedStream {level : Nat} (known : level ≤ 10) (data : Array UInt8)
    : expand (storedStream level data).toList = ⟨data, .complete []⟩ := by
  have size := Nat.div_add_mod data.size Draft.storedSize
  have left := Nat.mod_lt data.size (by decide : 0 < Draft.storedSize)
  have blocks
      : (Draft.opened level).position + data.size / Draft.storedSize * Draft.storedSize
        = data.size - data.size % Draft.storedSize := by
    rw [Nat.mul_comm] at size
    simp only [Draft.opened]
    omega
  have most : Draft.storedSize < 2 ^ 16 := by decide
  obtain ⟨decodes, all⟩ := (Draft.decodes_opened known data).storeAll
    (data.size / Draft.storedSize) (by omega) (by omega)
  exact decodes.expand_close all

/-- What is compressed at any level expands to the same data, with nothing behind it, whatever the
search has found: it was compared with the data before it was written.
-/
theorem expand_compress {level : Nat} (known : level ≤ 10) (data : Array UInt8)
    : expand (compress level data).toList = ⟨data, .complete []⟩ := by
  rw [compress]
  split
  · exact expand_storedStream known data
  · cases found : compressedStream? level data with
    | none => exact expand_storedStream known data
    | some stream =>
        simp only [compressedStream?] at found
        obtain ⟨draft, written, found⟩ := Option.bind_eq_some_iff.mp found
        split at found
        · rename_i all
          obtain rfl := Option.some.inj found
          exact ((Draft.decodes_opened known data).writeAll? written).expand_close all
        · contradiction

end Scratchpad.Zlib
