import Scratchpad.Proofs.Zlib.Expansion

/-! What a decoder has not read. Every reader takes bytes from the front, so the bytes that are left
are a suffix of those that were there; and a run leaves what was written before it where it was.
-/

namespace Scratchpad.Zlib

------------------------------------------------------------------------------------------
-- Reading
------------------------------------------------------------------------------------------

namespace BitReader

variable {reader after : BitReader}

theorem rest_next? {bit : Bool} (read : reader.next? = some (bit, after))
    : after.rest <:+ reader.rest := by
  obtain ⟨pending, rest⟩ := reader
  cases pending with
  | cons first pending =>
      obtain ⟨-, rfl⟩ := Prod.mk.inj (Option.some.inj read)
      exact List.suffix_rfl
  | nil =>
      cases rest with
      | nil => cases read
      | cons byte rest =>
          obtain ⟨-, rfl⟩ := Prod.mk.inj (Option.some.inj read)
          exact List.suffix_cons byte rest

theorem rest_take? {count : Nat} {bits : List Bool} (read : reader.take? count = some (bits, after))
    : after.rest <:+ reader.rest := by
  induction count generalizing reader bits with
  | zero =>
      obtain ⟨-, rfl⟩ := Prod.mk.inj (Option.some.inj read)
      exact List.suffix_rfl
  | succ count ih =>
      rw [take?] at read
      split at read
      · cases read
      · rename_i bit middle first
        split at read
        · cases read
        · rename_i others last taken
          obtain ⟨-, rfl⟩ := Prod.mk.inj (Option.some.inj read)
          exact (ih taken).trans (rest_next? first)

theorem rest_number? {count number : Nat} (read : reader.number? count = some (number, after))
    : after.rest <:+ reader.rest := by
  obtain ⟨⟨bits, last⟩, taken, same⟩ := Option.map_eq_some_iff.mp read
  obtain ⟨-, rfl⟩ := Prod.mk.inj same
  exact rest_take? taken

theorem rest_byte? {byte : UInt8} (read : reader.byte? = some (byte, after))
    : after.rest <:+ reader.rest := by
  obtain ⟨pending, rest⟩ := reader
  cases rest with
  | nil => cases read
  | cons first rest =>
      obtain ⟨-, rfl⟩ := Prod.mk.inj (Option.some.inj read)
      exact List.suffix_cons first rest

end BitReader

open BitReader (rest_next? rest_number? rest_byte?)

variable {reader after : BitReader}

/-- The way to a symbol only takes from the front, by induction over the tree. -/
theorem CodeTree.rest_read {tree : CodeTree} {symbol : Nat}
    (found : tree.read reader = .ok (symbol, after))
    : after.rest <:+ reader.rest := by
  induction tree generalizing reader with
  | leaf leafSymbol =>
      obtain ⟨-, rfl⟩ := Prod.mk.inj (Except.ok.inj found)
      exact List.suffix_rfl
  | absent => cases found
  | node zero one zeroIh oneIh =>
      rw [read] at found
      split at found
      · cases found
      · rename_i bit middle step
        cases bit with
        | false => exact (zeroIh found).trans (rest_next? step)
        | true => exact (oneIh found).trans (rest_next? step)

theorem PrefixCode.rest_read {code : PrefixCode} {symbol : Nat}
    (found : code.read reader = .ok (symbol, after))
    : after.rest <:+ reader.rest :=
  CodeTree.rest_read found

theorem Rung.rest_read? {rung : Rung} {value : Nat}
    (found : rung.read? reader = some (value, after))
    : after.rest <:+ reader.rest := by
  obtain ⟨⟨number, last⟩, read, same⟩ := Option.map_eq_some_iff.mp found
  obtain ⟨-, rfl⟩ := Prod.mk.inj same
  exact rest_number? read

------------------------------------------------------------------------------------------
-- Descriptions
------------------------------------------------------------------------------------------

namespace BlockCodes

theorem rest_readTriples {count : Nat} {numbers : List Nat}
    (found : readTriples count reader = .ok (numbers, after))
    : after.rest <:+ reader.rest := by
  induction count generalizing reader numbers with
  | zero =>
      obtain ⟨-, rfl⟩ := Prod.mk.inj (Except.ok.inj found)
      exact List.suffix_rfl
  | succ count ih =>
      simp only [readTriples, bind, Except.bind, pure, Except.pure] at found
      split at found
      · cases found
      · rename_i number middle first
        split at found
        · cases found
        · rename_i read
          obtain ⟨-, rfl⟩ := Prod.mk.inj (Except.ok.inj found)
          exact (ih read).trans (rest_number? first)

theorem LengthRun.rest_read {code : PrefixCode} {started : Bool} {run : LengthRun}
    (found : LengthRun.read code started reader = .ok (run, after))
    : after.rest <:+ reader.rest := by
  simp only [LengthRun.read, bind, Except.bind, pure, Except.pure] at found
  split at found
  · cases found
  · rename_i symbolRead
    have first := PrefixCode.rest_read symbolRead
    -- a single length, and three kinds of runs behind which their size is read
    repeat' split at found
    all_goals first | contradiction | obtain ⟨-, rfl⟩ := Prod.mk.inj (Except.ok.inj found)
    · exact first
    all_goals
      rename_i size
      exact (rest_number? size).trans first

/-- The runs of a list of lengths only take from the front, by induction over them. -/
theorem rest_readLengths {code : PrefixCode} {total : Nat} {latestFirst lengths : List Nat}
    (found : readLengths code total latestFirst reader = .ok (lengths, after))
    : after.rest <:+ reader.rest := by
  fun_induction readLengths code total latestFirst reader with
  | case1 latestFirst reader full all =>
      obtain ⟨-, rfl⟩ := Prod.mk.inj (Except.ok.inj found)
      exact List.suffix_rfl
  | case2 => cases found
  | case3 => cases found
  | case4 latestFirst reader short run middle first _ ih =>
      exact (ih found).trans (LengthRun.rest_read first)

theorem rest_read {codes : BlockCodes} (found : read reader = .ok (codes, after))
    : after.rest <:+ reader.rest := by
  simp only [read, bind, Except.bind, pure, Except.pure] at found
  repeat' split at found
  all_goals first | contradiction | skip
  rename_i _ _ _ literals _ _ _ distances _ _ _ described _ _ _ triples _ _ _ _ _ lengths _ _ _
  obtain ⟨-, rfl⟩ := Prod.mk.inj (Except.ok.inj found)
  exact (rest_readLengths lengths).trans <| (rest_readTriples triples).trans <|
    (rest_number? described).trans <| (rest_number? distances).trans (rest_number? literals)

end BlockCodes

------------------------------------------------------------------------------------------
-- Steps
------------------------------------------------------------------------------------------

namespace Inflater

/-- A step that leaves a suffix of the bytes that were ahead. -/
def Step.Leaves (input : List UInt8) : Step → Prop
  | .more next => next.reader.rest <:+ input
  | .done _ rest => rest <:+ input
  | .flawed _ => True

variable {input : List UInt8}

theorem Step.Leaves.trans {step : Step} {middle : List UInt8} (leaves : step.Leaves middle)
    (suffix : middle <:+ input)
    : step.Leaves input := by
  cases step with
  | more next => exact List.IsSuffix.trans leaves suffix
  | done out rest => exact List.IsSuffix.trans leaves suffix
  | flawed flaw => trivial

variable (reader : BitReader) (out : Array UInt8)

theorem readHeader_leaves
    : (readHeader reader out).Leaves reader.rest := by
  simp only [readHeader]
  repeat' split
  all_goals first | trivial | skip
  rename_i first _ _ _ second _
  exact (rest_byte? second).trans (rest_byte? first)

theorem readStored_leaves (last : Bool)
    : (readStored last reader out).Leaves reader.rest := by
  simp only [readStored]
  repeat' split
  all_goals first | trivial | skip
  rename_i first _ _ _ second _
  have aligned := rest_number? first
  exact (rest_number? second).trans aligned

theorem readBlock_leaves
    : (readBlock reader out).Leaves reader.rest := by
  simp only [readBlock]
  split
  · trivial
  · rename_i first
    have opened := rest_number? first
    split
    · trivial
    · rename_i second
      exact (readStored_leaves _ out _).trans ((rest_number? second).trans opened)
    · rename_i second
      exact (rest_number? second).trans opened
    · rename_i second
      split
      · trivial
      · rename_i described
        exact (BlockCodes.rest_read described).trans ((rest_number? second).trans opened)
    · trivial

theorem readDistance_leaves (context : BlockContext) (length : Nat)
    : (readDistance context length reader out).Leaves reader.rest := by
  simp only [readDistance]
  repeat' split
  all_goals first | trivial | skip
  rename_i symbol _ _ _ _ _ _ distance _
  exact (Rung.rest_read? distance).trans (PrefixCode.rest_read symbol)

theorem readSymbol_leaves (context : BlockContext)
    : (readSymbol context reader out).Leaves reader.rest := by
  simp only [readSymbol]
  split
  · trivial
  · rename_i symbol
    have found := PrefixCode.rest_read symbol
    split
    · exact found
    · split
      · exact found
      · split
        · trivial
        · split
          · trivial
          · rename_i length
            exact (readDistance_leaves _ out context _).trans ((Rung.rest_read? length).trans found)

theorem rest_readChecksum {reader after : BitReader} {checksum : Nat}
    (read : readChecksum reader = some (checksum, after))
    : after.rest <:+ reader.rest := by
  simp only [readChecksum, Option.bind_eq_bind, Option.bind_eq_some_iff] at read
  obtain ⟨⟨a, _⟩, first, ⟨b, _⟩, second, ⟨c, _⟩, third, ⟨d, _⟩, fourth, same⟩ := read
  obtain ⟨-, rfl⟩ := Prod.mk.inj (Option.some.inj same)
  exact (rest_byte? fourth).trans <| (rest_byte? third).trans <|
    (rest_byte? second).trans (rest_byte? first)

theorem readTrailer_leaves
    : (readTrailer reader out).Leaves reader.rest := by
  simp only [readTrailer]
  split
  · trivial
  · rename_i found
    split
    · exact rest_readChecksum found
    · trivial

/-- Every step takes its bytes from the front, by cases on the phase. -/
theorem step_leaves (inflater : Inflater)
    : inflater.step.Leaves inflater.reader.rest := by
  obtain ⟨phase, reader, out⟩ := inflater
  cases phase with
  | header => exact readHeader_leaves reader out
  | block => exact readBlock_leaves reader out
  | stored left last =>
      cases left with
      | zero => exact List.suffix_rfl
      | succ left =>
          simp only [step]
          split
          · trivial
          · rename_i read
            exact rest_byte? read
  | symbol context => exact readSymbol_leaves reader out context
  | literal byte context => exact List.suffix_rfl
  | matching left distance context =>
      obtain ⟨left, bound⟩ := left
      cases left <;> exact List.suffix_rfl
  | trailer => exact readTrailer_leaves reader out

/-- A step leaves what was written where it was. -/
theorem out_prefix_of_more {inflater next : Inflater} (stepped : inflater.step = .more next)
    : inflater.out.toList <+: next.out.toList := by
  have follows := inflater.step_follows
  rw [stepped] at follows
  simp only [Step.Follows] at follows
  split at follows
  · obtain ⟨byte, pushed⟩ := follows
    rw [pushed, Array.toList_push]
    exact List.prefix_append _ _
  · rw [follows]

------------------------------------------------------------------------------------------
-- Runs
------------------------------------------------------------------------------------------

/-- A run that leaves a suffix of the bytes that were ahead, and all that was written before. -/
def Halt.Leaves (inflater : Inflater) : Halt → Prop
  | .full suspended =>
      suspended.reader.rest <:+ inflater.reader.rest
      ∧ inflater.out.toList <+: suspended.out.toList
  | .done out rest => rest <:+ inflater.reader.rest ∧ inflater.out.toList <+: out.toList
  | .flawed _ => True

theorem Halt.Leaves.trans {halt : Halt} {inflater next : Inflater} (leaves : halt.Leaves next)
    (rest : next.reader.rest <:+ inflater.reader.rest)
    (out : inflater.out.toList <+: next.out.toList)
    : halt.Leaves inflater := by
  cases halt with
  | full suspended => exact ⟨leaves.1.trans rest, out.trans leaves.2⟩
  | done written left => exact ⟨leaves.1.trans rest, out.trans leaves.2⟩
  | flawed flaw => trivial

/-- Every run takes its bytes from the front and writes behind what was written before, by induction
over the steps.
-/
theorem run_leaves (capacity : Nat) (inflater : Inflater)
    : (inflater.run capacity).Leaves inflater := by
  fun_induction run capacity inflater with
  | case1 inflater blocked => exact ⟨List.suffix_rfl, List.prefix_rfl⟩
  | case2 inflater free next stepped ih =>
      have rest : next.reader.rest <:+ inflater.reader.rest := by
        have leaves := inflater.step_leaves
        rwa [stepped] at leaves
      exact ih.trans rest (out_prefix_of_more stepped)
  | case3 inflater free out rest stepped =>
      have leaves := inflater.step_leaves
      have follows := inflater.step_follows
      rw [stepped] at leaves follows
      obtain ⟨-, rfl⟩ := follows
      exact ⟨leaves, List.prefix_rfl⟩
  | case4 inflater free flaw stepped => trivial

end Inflater

end Scratchpad.Zlib
