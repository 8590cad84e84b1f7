import Mathlib
import Scratchpad.Base64Url

/-! Reading accepts exactly what writing produces, and that is the canonical texts: digits of the
alphabet in a possible number, with no bit set that belongs to no byte. Everything is shown for
one group of four digits and carried along the text by induction over its groups.
-/

namespace Scratchpad.Base64Url

------------------------------------------------------------------------------------------
-- The alphabet
------------------------------------------------------------------------------------------

/-- Consecutive characters from a first one on. -/
def charactersFrom (first : Char) (count : Nat) : List Char :=
  (List.range count).map fun offset => Char.ofNat (first.toNat + offset)

/-- The 64 digits in the order of their values. -/
def alphabet : List Char :=
  charactersFrom 'A' 26 ++ charactersFrom 'a' 26 ++ charactersFrom '0' 10 ++ ['-', '_']

/-- The bits of the last of so many digits that belong to no byte. -/
def unusedBits (length : Nat) : Nat :=
  match length % 4 with
  | 2 => 4
  | 3 => 2
  | _ => 0

/-- A text that is canonical base64url without padding. -/
structure Canonical (text : List Char) : Prop where
  digits : ∀ character ∈ text, character ∈ alphabet
  length : text.length % 4 ≠ 1
  unused
    : ∀ last ∈ text.getLast?, alphabet.idxOf last % 2 ^ unusedBits text.length = 0

/-- The byte of the digit that stands for a value. -/
def digitByte (value : Nat) : UInt8 :=
  UInt8.ofNat (digit value).toNat

theorem alphabet_eq_map_digit
    : alphabet = (List.range 64).map digit := by
  decide +kernel

theorem idxOf_digit {value : Nat} (small : value < 64)
    : alphabet.idxOf (digit value) = value := by
  have all : ∀ value : Fin 64, alphabet.idxOf (digit value) = value.val := by decide +kernel
  exact all ⟨value, small⟩

theorem digit_mem_alphabet {value : Nat} (small : value < 64)
    : digit value ∈ alphabet := by
  rw [alphabet_eq_map_digit]
  exact List.mem_map_of_mem (List.mem_range.mpr small)

theorem exists_digit_of_mem {character : Char} (listed : character ∈ alphabet)
    : ∃ value < 64, character = digit value := by
  rw [alphabet_eq_map_digit] at listed
  obtain ⟨value, small, rfl⟩ := List.mem_map.mp listed
  exact ⟨value, List.mem_range.mp small, rfl⟩

/-- A digit takes one byte of a text. -/
theorem utf8EncodeChar_digit {value : Nat} (small : value < 64)
    : String.utf8EncodeChar (digit value) = [digitByte value] := by
  have all : ∀ value : Fin 64, String.utf8EncodeChar (digit value) = [digitByte value] := by
    decide +kernel
  exact all ⟨value, small⟩

/-- The bytes with a value are those of the digits. -/
theorem value?_eq_some_iff {byte : UInt8} {value : Nat}
    : value? byte = some value ↔ value < 64 ∧ byte = digitByte value := by
  constructor
  · have all : ∀ byte : Fin 256, ∀ value ∈ value? (UInt8.ofNat byte),
        value < 64 ∧ UInt8.ofNat byte = digitByte value := by
      decide +kernel
    intro found
    have := all ⟨byte.toNat, byte.toNat_lt⟩ value
    simpa using this (by simpa using found)
  · have all : ∀ value : Fin 64, value? (digitByte value) = some value.val := by decide +kernel
    rintro ⟨small, rfl⟩
    exact all ⟨value, small⟩

------------------------------------------------------------------------------------------
-- Values
------------------------------------------------------------------------------------------

/-- The values of the digits that are written for bytes. -/
def values : List UInt8 → List Nat
  | a :: b :: c :: rest =>
      a.toNat / 4
        :: (a.toNat % 4 * 16 + b.toNat / 16)
        :: (b.toNat % 16 * 4 + c.toNat / 64)
        :: (c.toNat % 64)
        :: values rest
  | [a, b] => [a.toNat / 4, a.toNat % 4 * 16 + b.toNat / 16, b.toNat % 16 * 4]
  | [a] => [a.toNat / 4, a.toNat % 4 * 16]
  | [] => []

theorem values_lt {bytes : List UInt8} {value : Nat} (listed : value ∈ values bytes)
    : value < 64 := by
  fun_induction values bytes with
  | case1 a b c rest ih =>
      have := a.toNat_lt
      have := b.toNat_lt
      have := c.toNat_lt
      simp only [List.mem_cons] at listed
      rcases listed with rfl | rfl | rfl | rfl | later
      · omega
      · omega
      · omega
      · omega
      · exact ih later
  | case2 a b =>
      have := a.toNat_lt
      have := b.toNat_lt
      simp only [List.mem_cons, List.not_mem_nil, or_false] at listed
      omega
  | case3 a =>
      have := a.toNat_lt
      simp only [List.mem_cons, List.not_mem_nil, or_false] at listed
      omega
  | case4 => simp at listed

theorem toList_encodeInto (out : String) (bytes : List UInt8)
    : (encodeInto out bytes).toList = out.toList ++ (values bytes).map digit := by
  induction bytes using values.induct generalizing out with
  | case1 a b c rest ih => simp [encodeInto, values, ih]
  | case2 a b => simp [encodeInto, values]
  | case3 a => simp [encodeInto, values]
  | case4 => simp [encodeInto, values]

theorem toList_encode (bytes : List UInt8)
    : (encode bytes).toList = (values bytes).map digit := by
  simp [encode, toList_encodeInto]

/-- The bytes of a text of digits are the bytes of the digits. -/
theorem bytes_map_digit {values : List Nat} (small : ∀ value ∈ values, value < 64)
    : (String.ofList (values.map digit)).toUTF8.data.toList = values.map digitByte := by
  rw [String.toUTF8_eq_toByteArray, String.toByteArray_ofList, List.utf8Encode,
    List.toList_data_toByteArray]
  induction values with
  | nil => rfl
  | cons value rest ih =>
      rw [List.map_cons, List.flatMap_cons, utf8EncodeChar_digit (small value (by simp)),
        ih (fun other listed => small other (by simp [listed]))]
      rfl

theorem bytes_encode (bytes : List UInt8)
    : (encode bytes).toUTF8.data.toList = (values bytes).map digitByte := by
  rw [← String.ofList_toList (s := encode bytes), toList_encode]
  exact bytes_map_digit (fun _ => values_lt)

------------------------------------------------------------------------------------------
-- Groups
------------------------------------------------------------------------------------------

/-- Values that leave no bit over: not a single one in the last group, and no unused bit set. -/
def Fits (values : List Nat) : Prop :=
  values.length % 4 ≠ 1
  ∧ ∀ last ∈ values.getLast?, last % 2 ^ unusedBits values.length = 0

theorem fits_group (a b c d : Nat) (rest : List Nat)
    : Fits (a :: b :: c :: d :: rest) ↔ Fits rest := by
  have unused : unusedBits (rest.length + 4) = unusedBits rest.length := by simp [unusedBits]
  have length : (a :: b :: c :: d :: rest).length = rest.length + 4 := rfl
  rw [Fits, Fits, length, unused, Nat.add_mod_right]
  refine and_congr_right fun _ => ?_
  cases rest with
  | nil => simp [unusedBits, Nat.mod_one]
  | cons first rest => simp [List.getLast?_cons_cons]

/-- What is written for bytes fits, by induction over groups of three. -/
theorem fits_values (bytes : List UInt8)
    : Fits (values bytes) := by
  induction bytes using values.induct with
  | case1 a b c rest ih => exact (fits_group _ _ _ _ _).mpr ih
  | case2 a b => simp [values, Fits, unusedBits]
  | case3 a => simp [values, Fits, unusedBits]
  | case4 => simp [values, Fits]

/-- Values that fit are written for some bytes, by induction over groups of four. -/
theorem exists_values_eq {written : List Nat} (small : ∀ value ∈ written, value < 64)
    (fits : Fits written)
    : ∃ bytes, values bytes = written := by
  match written with
  | [] => exact ⟨[], rfl⟩
  | [a] => exact absurd rfl fits.1
  | [a, b] =>
      have unused : b % 16 = 0 := by simpa [unusedBits] using fits.2 b (by simp)
      have ha : a < 64 := small a (by simp)
      have hb : b < 64 := small b (by simp)
      refine ⟨[UInt8.ofNat (a * 4 + b / 16)], ?_⟩
      simp only [values, UInt8.toNat_ofNat', List.cons.injEq, and_true]
      refine ⟨?_, ?_⟩ <;> omega
  | [a, b, c] =>
      have unused : c % 4 = 0 := by simpa [unusedBits] using fits.2 c (by simp)
      have ha : a < 64 := small a (by simp)
      have hb : b < 64 := small b (by simp)
      have hc : c < 64 := small c (by simp)
      refine ⟨[UInt8.ofNat (a * 4 + b / 16), UInt8.ofNat (b % 16 * 16 + c / 4)], ?_⟩
      simp only [values, UInt8.toNat_ofNat', List.cons.injEq, and_true]
      refine ⟨?_, ?_, ?_⟩ <;> omega
  | a :: b :: c :: d :: rest =>
      obtain ⟨bytes, rfl⟩ := exists_values_eq
        (fun value listed => small value (by simp [listed])) ((fits_group a b c d rest).mp fits)
      have ha : a < 64 := small a (by simp)
      have hb : b < 64 := small b (by simp)
      have hc : c < 64 := small c (by simp)
      have hd : d < 64 := small d (by simp)
      refine ⟨UInt8.ofNat (a * 4 + b / 16) :: UInt8.ofNat (b % 16 * 16 + c / 4)
        :: UInt8.ofNat (c % 4 * 64 + d) :: bytes, ?_⟩
      simp only [values, UInt8.toNat_ofNat', List.cons.injEq, and_true]
      refine ⟨?_, ?_, ?_, ?_⟩ <;> omega

/-- A text of digits is one of values, by induction over it. -/
theorem exists_map_digit_eq {text : List Char}
    (digits : ∀ character ∈ text, character ∈ alphabet)
    : ∃ written : List Nat, written.map digit = text ∧ ∀ value ∈ written, value < 64 := by
  induction text with
  | nil => exact ⟨[], rfl, by simp⟩
  | cons character rest ih =>
      obtain ⟨value, small, rfl⟩ := exists_digit_of_mem (digits character (by simp))
      obtain ⟨written, rfl, all⟩ := ih (fun other listed => digits other (by simp [listed]))
      refine ⟨value :: written, rfl, ?_⟩
      intro other listed
      rcases List.mem_cons.mp listed with rfl | later
      · exact small
      · exact all other later

/-- A text of digits is canonical if their values leave no bit over. -/
theorem canonical_map_digit {written : List Nat} (small : ∀ value ∈ written, value < 64)
    : Canonical (written.map digit) ↔ Fits written := by
  have last
      : (∀ last ∈ (written.map digit).getLast?,
          alphabet.idxOf last % 2 ^ unusedBits (written.map digit).length = 0)
        ↔ ∀ last ∈ written.getLast?, last % 2 ^ unusedBits written.length = 0 := by
    rw [List.getLast?_map, List.length_map]
    cases ends : written.getLast? with
    | none => simp
    | some value =>
        have := small value (List.mem_of_getLast? ends)
        simp [idxOf_digit this]
  constructor
  · intro canonical
    exact ⟨by simpa using canonical.length, last.mp canonical.unused⟩
  · rintro ⟨length, unused⟩
    refine ⟨?_, by simpa using length, last.mpr unused⟩
    intro character listed
    obtain ⟨value, known, rfl⟩ := List.mem_map.mp listed
    exact digit_mem_alphabet (small value known)

/-- The canonical texts are exactly those that are written for bytes. -/
theorem canonical_iff {token : String}
    : Canonical token.toList ↔ ∃ bytes, encode bytes = token := by
  constructor
  · intro canonical
    obtain ⟨written, same, small⟩ := exists_map_digit_eq canonical.digits
    rw [← same] at canonical
    obtain ⟨bytes, rfl⟩ := exists_values_eq small ((canonical_map_digit small).mp canonical)
    refine ⟨bytes, String.toList_injective ?_⟩
    rw [toList_encode, same]
  · rintro ⟨bytes, rfl⟩
    rw [toList_encode]
    exact (canonical_map_digit (fun _ => values_lt)).mpr (fits_values bytes)

end Scratchpad.Base64Url
