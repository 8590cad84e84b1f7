import Scratchpad.Proofs.Zlib.BitStream
import Scratchpad.Zlib.Block

/-! Symbols are read back from their codewords, and values from their rungs. Writer and reader
share the tree of a code, so nothing has to be known about how its lengths were chosen.
-/

namespace Scratchpad.Zlib

open BitReader (ofBits)

------------------------------------------------------------------------------------------
-- Codewords
------------------------------------------------------------------------------------------

/-- A listed path leads the reader to its symbol, by induction over the tree. -/
theorem CodeTree.read_of_mem_paths {tree : CodeTree} {path whole : List Bool} {symbol : Nat}
    (listed : (symbol, whole) ∈ tree.paths path)
    : ∃ word, whole = path.reverse ++ word
      ∧ ∀ more, tree.read (ofBits (word ++ more)) = .ok (symbol, ofBits more) := by
  induction tree generalizing path with
  | leaf leafSymbol =>
      obtain ⟨rfl, rfl⟩ : symbol = leafSymbol ∧ whole = path.reverse := by
        simpa [paths] using listed
      exact ⟨[], by simp, fun more => rfl⟩
  | node zero one zeroIh oneIh =>
      rcases List.mem_append.mp listed with left | right
      · obtain ⟨word, rfl, found⟩ := zeroIh left
        refine ⟨false :: word, by simp, fun more => ?_⟩
        simpa [read] using found more
      · obtain ⟨word, rfl, found⟩ := oneIh right
        refine ⟨true :: word, by simp, fun more => ?_⟩
        simpa [read] using found more
  | absent => simp [paths] at listed

theorem PrefixCode.read_of_mem_codewords {code : PrefixCode} {symbol : Nat} {word : List Bool}
    (listed : (symbol, word) ∈ code.codewords) (more : List Bool)
    : code.read (ofBits (word ++ more)) = .ok (symbol, ofBits more) := by
  obtain ⟨own, rfl, found⟩ := CodeTree.read_of_mem_paths listed
  exact found more

/-- What stands in a table is one of the entries put into it, or no entry is for its place and it
was there before; by induction over the entries.
-/
theorem mem_of_getElem?_foldl_setIfInBounds {α : Type} {entries : List (Nat × α)}
    {table : Array α} {place : Nat} {value : α}
    (found : (entries.foldl (fun table (place, value) => table.setIfInBounds place value)
      table)[place]? = some value)
    : (place, value) ∈ entries ∨ place ∉ entries.map Prod.fst ∧ table[place]? = some value := by
  induction entries generalizing table with
  | nil => exact .inr ⟨List.not_mem_nil, found⟩
  | cons entry rest ih =>
      rcases ih found with listed | ⟨later, before⟩
      · exact .inl (List.mem_cons_of_mem entry listed)
      · rw [Array.getElem?_setIfInBounds] at before
        split at before
        · rename_i same
          split at before
          · obtain rfl := Option.some.inj before
            exact .inl (by simp [← same])
          · contradiction
        · rename_i other
          exact .inr ⟨by simp [later, Ne.symm other], before⟩

theorem size_foldl_setIfInBounds {α : Type} (entries : List (Nat × α)) (table : Array α)
    : (entries.foldl (fun table (place, value) => table.setIfInBounds place value) table).size
      = table.size := by
  induction entries generalizing table with
  | nil => rfl
  | cons entry rest ih => rw [List.foldl_cons, ih, Array.size_setIfInBounds]

/-- Whatever stands behind the codeword of a symbol, the symbol is read back from it. -/
theorem PrefixCode.read_codeword {code : PrefixCode} {count symbol : Nat} {word : List Bool}
    (given : codeword? (code.table count) symbol = some word) (more : List Bool)
    : code.read (ofBits (word ++ more)) = .ok (symbol, ofBits more) := by
  apply read_of_mem_codewords
  simp only [codeword?] at given
  split at given
  · rename_i bit rest found
    obtain rfl := Option.some.inj given
    rcases mem_of_getElem?_foldl_setIfInBounds found with listed | ⟨-, unset⟩
    · exact listed
    · rw [Array.getElem?_replicate] at unset
      split at unset <;> simp at unset
  · contradiction

------------------------------------------------------------------------------------------
-- Rungs
------------------------------------------------------------------------------------------

namespace Rung

theorem covers_iff {rung : Rung} {value : Nat}
    : rung.covers value = true ↔ rung.base ≤ value ∧ value - rung.base < 2 ^ rung.extra := by
  rw [covers, Bool.and_eq_true, decide_eq_true_eq, decide_eq_true_eq, Nat.pow_eq]

/-- The rung that is found for a value stands where it is said to stand, and covers the value. -/
theorem find?_spec {rungs : Array Rung} {value index : Nat} {rung : Rung}
    (found : find? rungs value = some (index, rung))
    : rungs[index]? = some rung ∧ rung.covers value = true := by
  rw [find?] at found
  generalize rungs.size = count at found
  induction count with
  | zero => simp [find?.go] at found
  | succ count ih =>
      simp only [find?.go] at found
      split at found
      · exact ih found
      · rename_i other stands
        split at found
        · rename_i covers
          obtain ⟨rfl, rfl⟩ : count = index ∧ other = rung := by simpa using found
          exact ⟨stands, covers⟩
        · exact ih found

/-- A value that a rung covers is read back from its extra bits. -/
theorem read?_ofBits {rung : Rung} {value : Nat} (covers : rung.covers value = true)
    (more : List Bool)
    : rung.read? (ofBits (rung.bits value ++ more)) = some (value, ofBits more) := by
  obtain ⟨above, fits⟩ := covers_iff.mp covers
  simp only [read?, bits, BitReader.number?_ofBits fits, Option.map_some,
    Nat.add_sub_cancel' above]

/-- No rung of a match length covers more than 258 bytes. -/
theorem le_of_covers {index length : Nat} {rung : Rung}
    (stands : lengths[index]? = some rung) (covers : rung.covers length = true)
    : length ≤ 258 := by
  have all : ∀ rung ∈ lengths.toList, rung.base + 2 ^ rung.extra ≤ 259 := by decide +kernel
  have bound := all rung (by simpa using Array.mem_of_getElem? stands)
  have fits := covers_iff.mp covers
  omega

end Rung

end Scratchpad.Zlib
