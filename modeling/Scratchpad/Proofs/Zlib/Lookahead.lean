import Scratchpad.Proofs.Zlib.Expansion

/-! A decoder never looks ahead. What it has read does not depend on the bytes behind, so a payload
with more bytes behind it expands as it does without them, for as long as there was enough to read;
and where the stream has ended, the additional bytes are left over.
-/

namespace Scratchpad.Zlib

------------------------------------------------------------------------------------------
-- Reading
------------------------------------------------------------------------------------------

namespace BitReader

/-- A reader with more bytes behind all that are ahead of it. -/
def before (more : List UInt8) (reader : BitReader) : BitReader :=
  { reader with rest := reader.rest ++ more }

variable {reader after : BitReader}

theorem next?_before {bit : Bool} (read : reader.next? = some (bit, after)) (more : List UInt8)
    : (reader.before more).next? = some (bit, after.before more) := by
  obtain ⟨pending, rest⟩ := reader
  cases pending with
  | cons first pending =>
      obtain ⟨rfl, rfl⟩ := Prod.mk.inj (Option.some.inj read)
      rfl
  | nil =>
      cases rest with
      | nil => cases read
      | cons byte rest =>
          obtain ⟨rfl, rfl⟩ := Prod.mk.inj (Option.some.inj read)
          rfl

/-- The bits that were taken are taken again, by induction over their number. -/
theorem take?_before {count : Nat} {bits : List Bool}
    (read : reader.take? count = some (bits, after)) (more : List UInt8)
    : (reader.before more).take? count = some (bits, after.before more) := by
  induction count generalizing reader bits with
  | zero =>
      obtain ⟨rfl, rfl⟩ := Prod.mk.inj (Option.some.inj read)
      rfl
  | succ count ih =>
      rw [take?] at read
      split at read
      · cases read
      · rename_i bit middle first
        split at read
        · cases read
        · rename_i others last taken
          obtain ⟨rfl, rfl⟩ := Prod.mk.inj (Option.some.inj read)
          simp only [take?, next?_before first, ih taken]

theorem number?_before {count number : Nat} (read : reader.number? count = some (number, after))
    (more : List UInt8)
    : (reader.before more).number? count = some (number, after.before more) := by
  obtain ⟨⟨bits, last⟩, taken, same⟩ := Option.map_eq_some_iff.mp read
  obtain ⟨rfl, rfl⟩ := Prod.mk.inj same
  rw [number?, take?_before taken]
  rfl

theorem byte?_before {byte : UInt8} (read : reader.byte? = some (byte, after)) (more : List UInt8)
    : (reader.before more).byte? = some (byte, after.before more) := by
  obtain ⟨pending, rest⟩ := reader
  cases rest with
  | nil => cases read
  | cons first rest =>
      obtain ⟨rfl, rfl⟩ := Prod.mk.inj (Option.some.inj read)
      rfl

theorem align_before (reader : BitReader) (more : List UInt8)
    : (reader.before more).align = reader.align.before more := rfl

end BitReader

open BitReader (number?_before byte?_before)

variable {reader after : BitReader}

/-- The way to a symbol is the same, by induction over the tree. -/
theorem CodeTree.read_before {tree : CodeTree} {symbol : Nat}
    (found : tree.read reader = .ok (symbol, after)) (more : List UInt8)
    : tree.read (reader.before more) = .ok (symbol, after.before more) := by
  induction tree generalizing reader with
  | leaf leafSymbol =>
      obtain ⟨rfl, rfl⟩ := Prod.mk.inj (Except.ok.inj found)
      rfl
  | absent => cases found
  | node zero one zeroIh oneIh =>
      rw [read] at found
      split at found
      · cases found
      · rename_i bit middle step
        rw [read, BitReader.next?_before step]
        cases bit with
        | false => exact zeroIh found
        | true => exact oneIh found

theorem PrefixCode.read_before {code : PrefixCode} {symbol : Nat}
    (found : code.read reader = .ok (symbol, after)) (more : List UInt8)
    : code.read (reader.before more) = .ok (symbol, after.before more) :=
  CodeTree.read_before found more

theorem Rung.read?_before {rung : Rung} {value : Nat}
    (found : rung.read? reader = some (value, after)) (more : List UInt8)
    : rung.read? (reader.before more) = some (value, after.before more) := by
  obtain ⟨⟨number, last⟩, read, same⟩ := Option.map_eq_some_iff.mp found
  obtain ⟨rfl, rfl⟩ := Prod.mk.inj same
  rw [read?, number?_before read]
  rfl

------------------------------------------------------------------------------------------
-- Descriptions
------------------------------------------------------------------------------------------

namespace BlockCodes

theorem readTriples_before {count : Nat} {numbers : List Nat}
    (found : readTriples count reader = .ok (numbers, after)) (more : List UInt8)
    : readTriples count (reader.before more) = .ok (numbers, after.before more) := by
  induction count generalizing reader numbers with
  | zero =>
      obtain ⟨rfl, rfl⟩ := Prod.mk.inj (Except.ok.inj found)
      rfl
  | succ count ih =>
      simp only [readTriples, bind, Except.bind, pure, Except.pure] at found
      split at found
      · cases found
      · rename_i number middle first
        split at found
        · cases found
        · rename_i read
          obtain ⟨rfl, rfl⟩ := Prod.mk.inj (Except.ok.inj found)
          simp only [readTriples, number?_before first, ih read, bind, Except.bind, pure,
            Except.pure]

theorem LengthRun.read_before {code : PrefixCode} {started : Bool} {run : LengthRun}
    (found : LengthRun.read code started reader = .ok (run, after)) (more : List UInt8)
    : LengthRun.read code started (reader.before more) = .ok (run, after.before more) := by
  simp only [LengthRun.read, bind, Except.bind, pure, Except.pure] at found ⊢
  split at found
  · cases found
  · rename_i symbolRead
    simp only [PrefixCode.read_before symbolRead]
    -- a single length, and three kinds of runs behind which their size is read
    repeat' split at found
    all_goals first | contradiction | obtain ⟨rfl, rfl⟩ := Prod.mk.inj (Except.ok.inj found)
    · rename_i single
      rw [if_pos single]
    · rename_i long again allowed _ _ _ size
      rw [if_neg long, if_pos again, if_pos allowed, number?_before size]
    · rename_i long other zeros _ _ _ size
      rw [if_neg long, if_neg other, if_pos zeros, number?_before size]
    · rename_i long other manyZeros _ _ _ size
      rw [if_neg long, if_neg other, if_neg manyZeros, number?_before size]

/-- The runs of a list of lengths are read again, by induction over them. -/
theorem readLengths_before {code : PrefixCode} {total : Nat} {latestFirst lengths : List Nat}
    (found : readLengths code total latestFirst reader = .ok (lengths, after))
    (more : List UInt8)
    : readLengths code total latestFirst (reader.before more)
      = .ok (lengths, after.before more) := by
  fun_induction readLengths code total latestFirst reader with
  | case1 latestFirst reader full all =>
      obtain ⟨rfl, rfl⟩ := Prod.mk.inj (Except.ok.inj found)
      rw [readLengths, if_pos full, if_pos all]
  | case2 => cases found
  | case3 => cases found
  | case4 latestFirst reader short run middle first _ ih =>
      rw [readLengths, if_neg short]
      split
      · rename_i failed
        cases failed.symm.trans (LengthRun.read_before first more)
      · rename_i again
        cases again.symm.trans (LengthRun.read_before first more)
        exact ih found

theorem read_before {codes : BlockCodes} (found : read reader = .ok (codes, after))
    (more : List UInt8)
    : read (reader.before more) = .ok (codes, after.before more) := by
  simp only [read, bind, Except.bind, pure, Except.pure] at found
  repeat' split at found
  all_goals first | contradiction | skip
  rename_i _ _ _ literals _ _ _ distances _ _ _ described inRange _ _ triples _ _ own _ _ lengths
    _ _ codes
  obtain ⟨rfl, rfl⟩ := Prod.mk.inj (Except.ok.inj found)
  simp only [read, number?_before literals, number?_before distances, number?_before described,
    if_neg inRange, readTriples_before triples, own, readLengths_before lengths, codes, bind,
    Except.bind, pure, Except.pure]

end BlockCodes

------------------------------------------------------------------------------------------
-- Steps
------------------------------------------------------------------------------------------

namespace Inflater

/-- An inflater with more bytes behind its payload. -/
def before (more : List UInt8) (inflater : Inflater) : Inflater :=
  { inflater with reader := inflater.reader.before more }

/-- What a step becomes with more bytes behind: it is the same, and at the end of the stream the
bytes are left over; of a step that failed nothing is said, as it may have failed for want of bytes.
-/
def Step.Outlasts (more : List UInt8) (longer : Step) : Step → Prop
  | .more next => longer = .more (next.before more)
  | .done out rest => longer = .done out (rest ++ more)
  | .flawed _ => True

variable (more : List UInt8) (reader : BitReader) (out : Array UInt8)

theorem readHeader_outlasts
    : (readHeader (reader.before more) out).Outlasts more (readHeader reader out) := by
  simp only [readHeader]
  cases first : reader.byte? with
  | none => trivial
  | some read =>
      obtain ⟨method, middle⟩ := read
      simp only [byte?_before first]
      cases second : middle.byte? with
      | none => trivial
      | some read =>
          obtain ⟨flags, after⟩ := read
          simp only [byte?_before second]
          split
          · rfl
          · trivial

theorem readStored_outlasts (last : Bool)
    : (readStored last (reader.before more) out).Outlasts more (readStored last reader out) := by
  simp only [readStored, BitReader.align_before]
  cases first : reader.align.number? 16 with
  | none => trivial
  | some read =>
      obtain ⟨length, middle⟩ := read
      simp only [number?_before first]
      cases second : middle.number? 16 with
      | none => trivial
      | some read =>
          obtain ⟨complement, after⟩ := read
          simp only [number?_before second]
          split
          · rfl
          · trivial

theorem readBlock_outlasts
    : (readBlock (reader.before more) out).Outlasts more (readBlock reader out) := by
  simp only [readBlock]
  cases first : reader.number? 1 with
  | none => trivial
  | some read =>
      obtain ⟨last, middle⟩ := read
      simp only [number?_before first]
      cases second : middle.number? 2 with
      | none => trivial
      | some read =>
          obtain ⟨kind, after⟩ := read
          simp only [number?_before second]
          rcases kind with _ | _ | _ | reserved
          · exact readStored_outlasts more after out (last == 1)
          · rfl
          · cases described : BlockCodes.read after with
            | error flaw => simp only [described]; trivial
            | ok read =>
                obtain ⟨codes, behind⟩ := read
                simp only [described, BlockCodes.read_before described]
                rfl
          · trivial

theorem readDistance_outlasts (context : BlockContext) (length : Nat)
    : (readDistance context length (reader.before more) out).Outlasts more
        (readDistance context length reader out) := by
  simp only [readDistance]
  cases symbolRead : context.codes.distances.read reader with
  | error flaw => trivial
  | ok read =>
      obtain ⟨symbol, middle⟩ := read
      simp only [PrefixCode.read_before symbolRead]
      cases Rung.distances[symbol]? with
      | none => trivial
      | some rung =>
          simp only
          cases distanceRead : rung.read? middle with
          | none => trivial
          | some read =>
              obtain ⟨distance, after⟩ := read
              simp only [Rung.read?_before distanceRead]
              split
              · trivial
              · rfl

theorem readSymbol_outlasts (context : BlockContext)
    : (readSymbol context (reader.before more) out).Outlasts more
        (readSymbol context reader out) := by
  simp only [readSymbol]
  cases symbolRead : context.codes.literals.read reader with
  | error flaw => trivial
  | ok read =>
      obtain ⟨symbol, middle⟩ := read
      simp only [PrefixCode.read_before symbolRead]
      split
      · rfl
      · split
        · rfl
        · cases Rung.lengths[symbol - (BlockCodes.endOfBlock + 1)]? with
          | none => trivial
          | some rung =>
              simp only
              cases lengthRead : rung.read? middle with
              | none => trivial
              | some read =>
                  obtain ⟨length, after⟩ := read
                  simp only [Rung.read?_before lengthRead]
                  exact readDistance_outlasts more after out context length

theorem readChecksum_before {reader after : BitReader} {checksum : Nat}
    (read : readChecksum reader = some (checksum, after)) (more : List UInt8)
    : readChecksum (reader.before more) = some (checksum, after.before more) := by
  simp only [readChecksum, Option.bind_eq_bind, Option.bind_eq_some_iff] at read
  obtain ⟨⟨a, _⟩, first, ⟨b, _⟩, second, ⟨c, _⟩, third, ⟨d, _⟩, fourth, same⟩ := read
  obtain ⟨rfl, rfl⟩ := Prod.mk.inj (Option.some.inj same)
  simp only [readChecksum, Option.bind_eq_bind, Option.bind_some, byte?_before first,
    byte?_before second, byte?_before third, byte?_before fourth]
  rfl

theorem readTrailer_outlasts
    : (readTrailer (reader.before more) out).Outlasts more (readTrailer reader out) := by
  simp only [readTrailer]
  cases read : readChecksum reader with
  | none => trivial
  | some found =>
      obtain ⟨checksum, after⟩ := found
      simp only [readChecksum_before read]
      split
      · rfl
      · trivial

/-- Every step is the same with more bytes behind, by cases on the phase. -/
theorem step_outlasts (inflater : Inflater)
    : (inflater.before more).step.Outlasts more inflater.step := by
  obtain ⟨phase, reader, out⟩ := inflater
  cases phase with
  | header => exact readHeader_outlasts more reader out
  | block => exact readBlock_outlasts more reader out
  | stored left last =>
      cases left with
      | zero => rfl
      | succ left =>
          simp only [before, step]
          cases read : reader.byte? with
          | none => trivial
          | some found =>
              obtain ⟨byte, after⟩ := found
              simp only [byte?_before read]
              rfl
  | symbol context => exact readSymbol_outlasts more reader out context
  | literal byte context => rfl
  | matching left distance context =>
      obtain ⟨left, bound⟩ := left
      cases left <;> rfl
  | trailer => exact readTrailer_outlasts more reader out

end Inflater

------------------------------------------------------------------------------------------
-- Expansions
------------------------------------------------------------------------------------------

/-- What an expansion becomes with more bytes behind the payload. A stream that has ended leaves
them over; one that has not may write more, and does so where a byte was due, unless the additional
bytes do not reach that far.
-/
def Expansion.Outlasts (more : List UInt8) (longer shorter : Expansion) : Prop :=
  match shorter.ending with
  | .complete rest => longer = ⟨shorter.written, .complete (rest ++ more)⟩
  | .flawed _ => shorter.written.size ≤ longer.written.size
  | .starved =>
      shorter.written.size < longer.written.size
      ∨ longer = ⟨shorter.written, .starved⟩

/-- An inflater goes through the same steps with more bytes behind, by induction over the steps. -/
theorem Inflater.expand_outlasts (more : List UInt8) (inflater : Inflater)
    : (inflater.before more).expand.Outlasts more inflater.expand := by
  fun_induction expand inflater with
  | case1 inflater next stepped ih =>
      have outlasts := inflater.step_outlasts more
      rw [stepped] at outlasts
      rw [expand_of_more outlasts]
      exact ih
  | case2 inflater out rest stepped =>
      have outlasts := inflater.step_outlasts more
      rw [stepped] at outlasts
      exact expand_of_done outlasts
  | case3 inflater flaw stepped =>
      cases writes : inflater.phase.writes with
      | false => exact (inflater.before more).size_le_expand
      | true =>
          have due : (inflater.before more).phase.writes = true := writes
          exact expand_of_writes due

theorem expand_append (payload more : List UInt8)
    : (expand (payload ++ more)).Outlasts more (expand payload) :=
  (Inflater.ofPayload payload).expand_outlasts more

end Scratchpad.Zlib
