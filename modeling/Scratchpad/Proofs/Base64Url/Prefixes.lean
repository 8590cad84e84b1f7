import Scratchpad.Proofs.Base64Url.Reading

/-! What is written for bytes at the start of what is written for others. The digits of a last group
that is not whole leave bits unused; those bits are zero, so digits behind it only add bytes, and a
text starts with another only if its bytes start with those of the other.
-/

namespace Scratchpad.Base64Url

/-- Values that start with those of some bytes are of bytes that start with the same, by induction
over groups of three.
-/
theorem exists_append_of_values {first second : List UInt8} {behind : List Nat}
    (starts : values second = values first ++ behind)
    : ∃ more, second = first ++ more := by
  induction first using values.induct generalizing second with
  | case1 a b c rest ih =>
      rcases second with _ | ⟨x, _ | ⟨y, _ | ⟨z, further⟩⟩⟩
      · simp [values] at starts
      · simp [values] at starts
      · simp [values] at starts
      · simp only [values, List.cons_append, List.cons.injEq] at starts
        obtain ⟨one, two, three, four, later⟩ := starts
        have := y.toNat_lt
        have := b.toNat_lt
        have := z.toNat_lt
        have := c.toNat_lt
        obtain rfl : x = a := UInt8.toNat_inj.mp (by omega)
        obtain rfl : y = b := UInt8.toNat_inj.mp (by omega)
        obtain rfl : z = c := UInt8.toNat_inj.mp (by omega)
        obtain ⟨more, rfl⟩ := ih later
        exact ⟨more, rfl⟩
  | case2 a b =>
      have := b.toNat_lt
      rcases second with _ | ⟨x, _ | ⟨y, _ | ⟨z, further⟩⟩⟩
      · simp [values] at starts
      · simp [values] at starts
      · have := y.toNat_lt
        simp only [values, List.cons_append, List.cons.injEq] at starts
        obtain ⟨one, two, three, -⟩ := starts
        obtain rfl : x = a := UInt8.toNat_inj.mp (by omega)
        obtain rfl : y = b := UInt8.toNat_inj.mp (by omega)
        exact ⟨[], rfl⟩
      · have := y.toNat_lt
        have := z.toNat_lt
        simp only [values, List.cons_append, List.cons.injEq] at starts
        obtain ⟨one, two, three, -⟩ := starts
        obtain rfl : x = a := UInt8.toNat_inj.mp (by omega)
        obtain rfl : y = b := UInt8.toNat_inj.mp (by omega)
        exact ⟨z :: further, rfl⟩
  | case3 a =>
      rcases second with _ | ⟨x, _ | ⟨y, _ | ⟨z, further⟩⟩⟩
      · simp [values] at starts
      · simp only [values, List.cons_append, List.cons.injEq] at starts
        obtain ⟨one, two, -⟩ := starts
        obtain rfl : x = a := UInt8.toNat_inj.mp (by omega)
        exact ⟨[], rfl⟩
      -- With two bytes or more the second one shows in the same two values.
      all_goals
        have := y.toNat_lt
        simp only [values, List.cons_append, List.cons.injEq] at starts
        obtain ⟨one, two, -⟩ := starts
        obtain rfl : x = a := UInt8.toNat_inj.mp (by omega)
        exact ⟨_, rfl⟩
  | case4 => exact ⟨second, rfl⟩

/-- Values are known from their digits. -/
theorem map_idxOf_map_digit {written : List Nat} (small : ∀ value ∈ written, value < 64)
    : (written.map digit).map alphabet.idxOf = written := by
  rw [List.map_map]
  calc written.map (alphabet.idxOf ∘ digit)
      = written.map id := List.map_congr_left fun value listed => idxOf_digit (small value listed)
    _ = written := List.map_id written

/-- A text that starts with what is written for some bytes, and goes on, is written for bytes that
start with the same and go on.
-/
theorem exists_append_of_encode {first second : List UInt8} {behind : String}
    (starts : encode second = encode first ++ behind) (nonempty : behind ≠ "")
    : ∃ more, more ≠ [] ∧ second = first ++ more := by
  have digits : (values second).map digit = (values first).map digit ++ behind.toList := by
    rw [← toList_encode, starts, String.toList_append, toList_encode]
  have known := congrArg (List.map alphabet.idxOf) digits
  rw [List.map_append, map_idxOf_map_digit (fun _ => values_lt),
    map_idxOf_map_digit (fun _ => values_lt)] at known
  obtain ⟨more, rfl⟩ := exists_append_of_values known
  refine ⟨more, ?_, rfl⟩
  rintro rfl
  exact nonempty (by simpa using digits)

end Scratchpad.Base64Url
