import Scratchpad.Proofs.Base64Url.Canonical

/-! Reading base64url accepts exactly what writing produces. What is written is split where the
reader splits it, before the last group; what is read is shown digit by digit to be canonical.
-/

namespace Scratchpad.Base64Url

------------------------------------------------------------------------------------------
-- What is written is read back
------------------------------------------------------------------------------------------

theorem value?_digitByte {value : Nat} (small : value < 64)
    : value? (digitByte value) = some value :=
  value?_eq_some_iff.mpr ⟨small, rfl⟩

@[simp]
theorem valueAt_digitByte {value : Nat} (small : value < 64) (offset : Nat)
    : valueAt offset (digitByte value) = .ok value := by
  simp [valueAt, value?_digitByte small]

theorem digitByte_ne_padding {value : Nat} (small : value < 64)
    : digitByte value ≠ padding := by
  intro same
  have found := value?_digitByte small
  rw [same] at found
  simp [padding, value?] at found

/-- Whole groups of bytes are written apart from the bytes behind them. -/
theorem values_append {whole : List UInt8} (groups : whole.length % 3 = 0) (rest : List UInt8)
    : values (whole ++ rest) = values whole ++ values rest := by
  induction whole using values.induct with
  | case1 a b c more ih =>
      simp only [List.length_cons] at groups
      simp [values, ih (by omega)]
  | case2 a b => simp at groups
  | case3 a => simp at groups
  | case4 => rfl

theorem length_values (bytes : List UInt8)
    : (values bytes).length = (4 * bytes.length + 2) / 3 := by
  induction bytes using values.induct with
  | case1 a b c rest ih =>
      simp only [values, List.length_cons, ih]
      omega
  | case2 a b => simp [values]
  | case3 a => simp [values]
  | case4 => rfl

/-- Four digits give back their three bytes. -/
theorem group_bytes (a b c : UInt8)
    : UInt8.ofNat (a.toNat / 4 * 4 + (a.toNat % 4 * 16 + b.toNat / 16) / 16) = a
      ∧ UInt8.ofNat ((a.toNat % 4 * 16 + b.toNat / 16) % 16 * 16
          + (b.toNat % 16 * 4 + c.toNat / 64) / 4) = b
      ∧ UInt8.ofNat ((b.toNat % 16 * 4 + c.toNat / 64) % 4 * 64 + c.toNat % 64) = c := by
  have := a.toNat_lt
  have := b.toNat_lt
  have := c.toNat_lt
  refine ⟨?_, ?_, ?_⟩ <;>
    apply UInt8.toNat_inj.mp <;>
    rw [UInt8.toNat_ofNat'] <;>
    omega

/-- The groups before the last give back their bytes, by induction over them. -/
theorem decodeGroups_values {bytes : List UInt8} (groups : bytes.length % 3 = 0) (offset : Nat)
    (out : Array UInt8)
    : decodeGroups offset out ((values bytes).map digitByte) = .ok (out ++ bytes.toArray) := by
  induction bytes using values.induct generalizing offset out with
  | case1 a b c rest ih =>
      have small : ∀ value, value ∈ values (a :: b :: c :: rest) → value < 64 :=
        fun _ => values_lt
      simp only [values, List.mem_cons] at small
      simp only [List.length_cons] at groups
      obtain ⟨first, second, third⟩ := group_bytes a b c
      simp only [values, List.map_cons, decodeGroups, bind, Except.bind,
        valueAt_digitByte (small _ (.inl rfl)), valueAt_digitByte (small _ (.inr (.inl rfl))),
        valueAt_digitByte (small _ (.inr (.inr (.inl rfl)))),
        valueAt_digitByte (small _ (.inr (.inr (.inr (.inl rfl))))), first, second, third]
      rw [ih (by omega)]
      simp
  | case2 a b => simp at groups
  | case3 a => simp at groups
  | case4 => simp [values, decodeGroups]

/-- The last group is read digit by digit, by induction over its digits. -/
theorem LastGroup.read_digits {written : List Nat} (small : ∀ value ∈ written, value < 64)
    (start index : Nat) (digits : List (UInt8 × Nat))
    : LastGroup.read start index ⟨digits, none⟩ (written.map digitByte)
      = .ok ⟨digits ++ written.map fun value => (digitByte value, value), none⟩ := by
  induction written generalizing index digits with
  | nil => simp [read]
  | cons value rest ih =>
      have known := small value (by simp)
      simp only [List.map_cons, read, if_neg (digitByte_ne_padding known),
        valueAt_digitByte known, bind, Except.bind]
      rw [ih (fun other listed => small other (by simp [listed]))]
      simp

/-- The last group gives back its one to three bytes. -/
theorem LastGroup.decode_values {bytes : List UInt8} (some : bytes ≠ []) (few : bytes.length ≤ 3)
    (start : Nat) (out : Array UInt8)
    : LastGroup.decode start
        ⟨(values bytes).map fun value => (digitByte value, value), none⟩ out
      = .ok (out ++ bytes.toArray) := by
  match bytes, some, few with
  | [a], _, _ =>
      have first := (group_bytes a 0 0).1
      simp only [UInt8.toNat_zero, Nat.zero_div, Nat.add_zero] at first
      simp only [values, List.map_cons, List.map_nil, decode, List.length_cons, List.length_nil]
      rw [if_neg (by decide), if_neg (by simp), if_neg (by omega), first]
      simp
  | [a, b], _, _ =>
      obtain ⟨first, second, -⟩ := group_bytes a b 0
      simp only [UInt8.toNat_zero, Nat.zero_div, Nat.add_zero] at first second
      simp only [values, List.map_cons, List.map_nil, decode, List.length_cons, List.length_nil]
      rw [if_neg (by decide), if_neg (by simp), if_neg (by omega), first, second]
      simp [← Array.toList_inj]
  | [a, b, c], _, _ =>
      obtain ⟨first, second, third⟩ := group_bytes a b c
      simp only [values, List.map_cons, List.map_nil, decode, List.length_cons, List.length_nil]
      rw [if_neg (by decide), if_neg (by simp), first, second, third]
      simp [← Array.toList_inj]

/-- Nothing is left over where no digit stands alone. -/
theorem checkLeftover_of_length {text : List UInt8} (even : text.length % 4 ≠ 1)
    : checkLeftover text = .ok () := by
  rw [checkLeftover]
  split
  · exact if_neg (fun leftover => even leftover.1)
  · rfl

/-- Where the last group of a text starts. -/
def lastStart (text : List UInt8) : Nat :=
  (text.length - 1) / 4 * 4

theorem decode_of_ne_nil {text : List UInt8} (nonempty : text ≠ [])
    : decode text = (do
        checkLeftover text
        let out ← decodeGroups 0 #[] (text.take (lastStart text))
        let group ← LastGroup.read (lastStart text) 0 ⟨[], none⟩ (text.drop (lastStart text))
        group.decode (lastStart text) out) := by
  cases text with
  | nil => contradiction
  | cons first rest => rfl

/-- What is written for bytes is read back as these bytes. The reader sets the last group apart,
which is what is written for the last one to three bytes.
-/
theorem decode_values (bytes : List UInt8)
    : decode ((values bytes).map digitByte) = .ok bytes.toArray := by
  have length := length_values bytes
  have leftover : checkLeftover ((values bytes).map digitByte) = .ok () :=
    checkLeftover_of_length (by rw [List.length_map, length]; omega)
  by_cases empty : bytes = []
  · subst empty
    rfl
  have count : 0 < bytes.length := List.length_pos_iff.mpr empty
  obtain ⟨whole, last, rfl, groups, nonempty, few⟩
      : ∃ whole last, bytes = whole ++ last ∧ whole.length % 3 = 0 ∧ last ≠ []
        ∧ last.length ≤ 3 := by
    refine ⟨bytes.take ((bytes.length - 1) / 3 * 3), bytes.drop ((bytes.length - 1) / 3 * 3),
      (List.take_append_drop _ _).symm, ?_, ?_, ?_⟩
    · rw [List.length_take]
      omega
    · apply List.length_pos_iff.mp
      rw [List.length_drop]
      omega
    · rw [List.length_drop]
      omega
  have split := congrArg (List.map digitByte) (values_append groups last)
  rw [List.map_append] at split
  have start : lastStart ((values (whole ++ last)).map digitByte)
      = ((values whole).map digitByte).length := by
    have := List.length_pos_iff.mpr nonempty
    rw [lastStart, split, List.length_append, List.length_map, List.length_map, length_values,
      length_values]
    omega
  have textNonempty : (values (whole ++ last)).map digitByte ≠ [] := by
    apply List.length_pos_iff.mp
    rw [List.length_map, length]
    omega
  rw [decode_of_ne_nil textNonempty, leftover, start, split, List.take_left, List.drop_left]
  simp only [bind, Except.bind, decodeGroups_values groups,
    LastGroup.read_digits (fun _ => values_lt), List.nil_append]
  rw [LastGroup.decode_values nonempty few]
  simp

------------------------------------------------------------------------------------------
-- What is read was written
------------------------------------------------------------------------------------------

/-- What follows a first result decides, once there is one. -/
theorem bind_eq_ok {ε α β : Type} {first : Except ε α} {next : α → Except ε β} {result : β}
    (found : (first >>= next) = .ok result)
    : ∃ value, first = .ok value ∧ next value = .ok result := by
  cases first with
  | error error => contradiction
  | ok value => exact ⟨value, rfl, found⟩

theorem digit_of_valueAt {offset value : Nat} {byte : UInt8}
    (found : valueAt offset byte = .ok value)
    : value < 64 ∧ byte = digitByte value := by
  rw [valueAt] at found
  split at found
  · rename_i known
    obtain rfl := Except.ok.inj found
    exact value?_eq_some_iff.mp known
  · contradiction

/-- Groups that are read consist of digits, by induction over them. -/
theorem digits_of_decodeGroups {text : List UInt8} (groups : text.length % 4 = 0)
    {offset : Nat} {out result : Array UInt8}
    (found : decodeGroups offset out text = .ok result)
    : ∃ written : List Nat, text = written.map digitByte ∧ ∀ value ∈ written, value < 64 := by
  fun_induction decodeGroups offset out text with
  | case1 offset out a b c d rest ih =>
      obtain ⟨first, foundFirst, afterFirst⟩ := bind_eq_ok found
      obtain ⟨second, foundSecond, afterSecond⟩ := bind_eq_ok afterFirst
      obtain ⟨third, foundThird, afterThird⟩ := bind_eq_ok afterSecond
      obtain ⟨fourth, foundFourth, afterFourth⟩ := bind_eq_ok afterThird
      obtain ⟨firstSmall, rfl⟩ := digit_of_valueAt foundFirst
      obtain ⟨secondSmall, rfl⟩ := digit_of_valueAt foundSecond
      obtain ⟨thirdSmall, rfl⟩ := digit_of_valueAt foundThird
      obtain ⟨fourthSmall, rfl⟩ := digit_of_valueAt foundFourth
      simp only [List.length_cons] at groups
      obtain ⟨written, rfl, small⟩ := ih first second third fourth (by omega) afterFourth
      refine ⟨first :: second :: third :: fourth :: written, rfl, ?_⟩
      intro value listed
      simp only [List.mem_cons] at listed
      rcases listed with rfl | rfl | rfl | rfl | later
      · exact firstSmall
      · exact secondSmall
      · exact thirdSmall
      · exact fourthSmall
      · exact small value later
  | case2 text _ _ other =>
      match text, groups, other with
      | [], _, _ => exact ⟨[], rfl, by simp⟩
      | [_], groups, _ | [_, _], groups, _ | [_, _, _], groups, _ => simp at groups
      | a :: b :: c :: d :: rest, _, other => exact (other a b c d rest rfl).elim

/-- A last group without padding consists of digits, by induction over its bytes; padding that
was met is never forgotten.
-/
theorem LastGroup.digits_of_read {bytes : List UInt8} {start index : Nat}
    {group result : LastGroup} (found : LastGroup.read start index group bytes = .ok result)
    (bare : result.paddedAt = none)
    : group.paddedAt = none
      ∧ ∃ written : List Nat,
          bytes = written.map digitByte
          ∧ (∀ value ∈ written, value < 64)
          ∧ result.digits = group.digits ++ written.map fun value => (digitByte value, value) := by
  induction bytes generalizing index group with
  | nil =>
      obtain rfl := Except.ok.inj found
      exact ⟨bare, [], rfl, by simp, by simp⟩
  | cons byte rest ih =>
      rw [LastGroup.read] at found
      split at found
      · split at found
        · contradiction
        · have := (ih found).1
          simp at this
      · split at found
        · contradiction
        · rename_i unpadded
          cases known : valueAt (start + index) byte with
          | error fault =>
              rw [known] at found
              contradiction
          | ok value =>
              rw [known] at found
              obtain ⟨-, written, rfl, small, digits⟩ := ih found
              obtain ⟨bound, rfl⟩ := digit_of_valueAt known
              refine ⟨unpadded, value :: written, rfl, ?_, by simp [digits]⟩
              intro other listed
              rcases List.mem_cons.mp listed with rfl | later
              · exact bound
              · exact small other later

/-- The last group is taken only if its digits fill their bytes. -/
theorem LastGroup.fits_of_decode {written : List Nat} (nonempty : written ≠ [])
    (few : written.length ≤ 4) {start : Nat} {paddedAt : Option Nat} {out result : Array UInt8}
    (found : LastGroup.decode start
      ⟨written.map fun value => (digitByte value, value), paddedAt⟩ out = .ok result)
    : Fits written := by
  rw [LastGroup.decode] at found
  split at found
  · contradiction
  · rename_i enough
    split at found
    · contradiction
    · match written, nonempty, few with
      | [a], _, _ => simp at enough
      | [a, b], _, _ =>
          simp only [List.map_cons, List.map_nil] at found
          split at found
          · contradiction
          · rename_i unused
            simpa [Fits, unusedBits] using unused
      | [a, b, c], _, _ =>
          simp only [List.map_cons, List.map_nil] at found
          split at found
          · contradiction
          · rename_i unused
            simpa [Fits, unusedBits] using unused
      | [a, b, c, d], _, _ => simp [Fits, unusedBits, Nat.mod_one]

/-- Digits fit if those of the last group do: the groups before it leave nothing over. -/
theorem fits_append {whole : List Nat} (groups : whole.length % 4 = 0) (last : List Nat)
    : Fits (whole ++ last) ↔ Fits last := by
  match whole, groups with
  | [], _ => rfl
  | [_], groups | [_, _], groups | [_, _, _], groups => simp at groups
  | a :: b :: c :: d :: rest, groups =>
      simp only [List.length_cons] at groups
      exact (fits_group a b c d (rest ++ last)).trans (fits_append (by omega) last)

/-- What is read was written for some bytes. -/
theorem exists_values_of_decode {text : List UInt8} {result : Array UInt8}
    (found : decode text = .ok result)
    : ∃ bytes, text = (values bytes).map digitByte := by
  by_cases empty : text = []
  · exact ⟨[], empty⟩
  have count : 0 < text.length := List.length_pos_iff.mpr empty
  rw [decode_of_ne_nil empty] at found
  obtain ⟨-, -, found⟩ := bind_eq_ok found
  obtain ⟨out, foundWhole, found⟩ := bind_eq_ok found
  obtain ⟨group, foundLast, found⟩ := bind_eq_ok found
  have groups : (text.take (lastStart text)).length % 4 = 0 := by
    rw [List.length_take, lastStart]
    omega
  have bare : group.paddedAt = none := by
    rw [LastGroup.decode] at found
    split at found
    · contradiction
    · split at found
      · contradiction
      · rename_i unpadded
        simpa using unpadded
  obtain ⟨whole, wholeIs, wholeSmall⟩ := digits_of_decodeGroups groups foundWhole
  obtain ⟨-, last, lastIs, lastSmall, digits⟩ := LastGroup.digits_of_read foundLast bare
  have lastLength := congrArg List.length lastIs
  rw [List.length_drop, lastStart, List.length_map] at lastLength
  have lastFits : Fits last := by
    obtain ⟨groupDigits, paddedAt⟩ := group
    simp only [List.nil_append] at digits
    subst digits
    refine LastGroup.fits_of_decode ?_ (by omega) found
    apply List.length_pos_iff.mp
    omega
  rw [wholeIs, List.length_map] at groups
  obtain ⟨bytes, written⟩ := exists_values_eq
    (fun value listed => (List.mem_append.mp listed).elim (wholeSmall value) (lastSmall value))
    ((fits_append groups last).mpr lastFits)
  refine ⟨bytes, ?_⟩
  rw [written, List.map_append, ← wholeIs, ← lastIs, List.take_append_drop]

------------------------------------------------------------------------------------------
-- Tokens
------------------------------------------------------------------------------------------

/-- The bytes of a token are read back exactly from what is written for them. -/
theorem decode_eq_ok_iff {token : String} {payload : Array UInt8}
    : decode token.toUTF8.data.toList = .ok payload ↔ encode payload.toList = token := by
  constructor
  · intro found
    obtain ⟨bytes, written⟩ := exists_values_of_decode found
    rw [written, decode_values] at found
    obtain rfl := Except.ok.inj found
    rw [← bytes_encode] at written
    have same : (encode bytes).toUTF8 = token.toUTF8 :=
      ByteArray.ext (Array.toList_inj.mp written.symm)
    exact String.toByteArray_inj.mp same
  · rintro rfl
    rw [bytes_encode, decode_values]

/-- Different bytes are written differently. -/
theorem encode_inj {first second : List UInt8} (same : encode first = encode second)
    : first = second := by
  have read := decode_eq_ok_iff.mpr same
  rw [decode_eq_ok_iff.mpr rfl] at read
  exact (Array.toList_inj.mpr (Except.ok.inj read)).symm

end Scratchpad.Base64Url
