import Scratchpad.Json.Number
import Scratchpad.Proofs.Json.Strings

/-! Natural numbers in JSON texts. A number is written in base 10 without needless zeros, and a
reader gives it back if nothing behind it belongs to a number and it is in range.
-/

namespace Scratchpad.Json

------------------------------------------------------------------------------------------
-- Figures
------------------------------------------------------------------------------------------

/-- Figures without a needless zero before them. -/
def Plain (figures : List Char) : Prop :=
  figures = ['0'] ∨
    ∃ first rest, figures = first :: rest ∧ first ≠ '0' ∧ ∀ char ∈ figures, char.isDigit

/-- Whether no figure follows. -/
def NoFigure (rest : List UInt8) : Prop :=
  ∀ byte ∈ rest.head?, ¬ (48 ≤ byte ∧ byte ≤ 57)

/-- Whether nothing follows that belongs to a number: a figure, a point or an exponent. -/
def EndsNumber (rest : List UInt8) : Prop :=
  ∀ byte ∈ rest.head?, ¬ (48 ≤ byte ∧ byte ≤ 57) ∧ byte ≠ 46 ∧ byte ≠ 101 ∧ byte ≠ 69

theorem EndsNumber.noFigure {rest : List UInt8} (ends : EndsNumber rest)
    : NoFigure rest :=
  fun byte first => (ends byte first).1

theorem endsNumber_nil
    : EndsNumber [] := by
  simp [EndsNumber]

theorem endsNumber_cons {byte : UInt8}
    (other : ¬ (48 ≤ byte ∧ byte ≤ 57) ∧ byte ≠ 46 ∧ byte ≠ 101 ∧ byte ≠ 69) (rest : List UInt8)
    : EndsNumber (byte :: rest) := by
  rintro _ ⟨⟩
  exact other

/-- A number is written without needless zeros. -/
theorem plain_toDigits (value : Nat)
    : Plain (Nat.toDigits 10 value) := by
  have figures : ∀ char ∈ Nat.toDigits 10 value, char.isDigit := fun char within =>
    Nat.isDigit_of_mem_toDigits (by decide) (by decide) within
  have first : 0 < value → ∃ first rest, Nat.toDigits 10 value = first :: rest ∧ first ≠ '0' := by
    clear figures
    induction value using Nat.strongRecOn with
    | ind value hyp =>
      intro positive
      by_cases short : value < 10
      · refine ⟨_, [], Nat.toDigits_of_lt_base short, ?_⟩
        simpa using Nat.pos_iff_ne_zero.mp positive
      · obtain ⟨first, rest, digits, nonzero⟩ := hyp (value / 10) (by omega) (by omega)
        refine ⟨first, rest ++ [(value % 10).digitChar], ?_, nonzero⟩
        rw [Nat.toDigits_of_base_le (by decide) (by omega), digits, List.cons_append]
  rcases Nat.eq_zero_or_pos value with rfl | positive
  · exact .inl (Nat.toDigits_zero 10)
  · obtain ⟨first, rest, digits, nonzero⟩ := first positive
    exact .inr ⟨first, rest, digits, nonzero, figures⟩

/-- A digit of base 10 is a byte that a reader knows as the figure of its value. -/
theorem utf8EncodeChar_of_isDigit {char : Char} (digit : char.isDigit)
    : ∃ byte, String.utf8EncodeChar char = [byte] ∧ (48 ≤ byte ∧ byte ≤ 57) ∧
        byte.toNat = char.toNat := by
  have range : 48 ≤ char.toNat ∧ char.toNat ≤ 57 := by
    simpa [Char.isDigit, UInt32.le_iff_toNat_le] using digit
  have same : (UInt8.ofNat char.toNat).toNat = char.toNat := by
    rw [UInt8.toNat_ofNat']
    omega
  refine ⟨_, utf8EncodeChar_ascii (by omega), ?_, same⟩
  simp only [UInt8.le_iff_toNat_le, same]
  exact range

/-- A number starts with a byte that a reader knows as a figure. -/
theorem utf8_plain {figures : List Char} (plain : Plain figures)
    : ∃ byte bytes, utf8 figures = byte :: bytes ∧ 48 ≤ byte ∧ byte ≤ 57 := by
  obtain rfl | ⟨first, others, rfl, nonzero, digits⟩ := plain
  · exact ⟨48, [], rfl, by decide⟩
  · obtain ⟨byte, encoded, figure, -⟩ := utf8EncodeChar_of_isDigit (digits first List.mem_cons_self)
    exact ⟨byte, utf8 others, by rw [utf8_cons, encoded, List.singleton_append], figure⟩

/-- Figures do not make less than what is before them. -/
theorem le_ofDigitChars (figures : List Char) (value : Nat)
    : value ≤ Nat.ofDigitChars 10 figures value := by
  induction figures generalizing value with
  | nil => exact Nat.le_of_eq Nat.ofDigitChars_nil.symm
  | cons char figures hyp =>
    rw [Nat.ofDigitChars_cons]
    have := hyp (10 * value + (char.toNat - '0'.toNat))
    omega

namespace Cursor

theorem FigureRow.add_of_room {limit figure : Nat} {row : FigureRow} (fresh : row.dropped = 0)
    (room : 10 * row.value + figure ≤ limit) (place : Place)
    : row.add limit place figure =
        { row with value := 10 * row.value + figure, kept := row.kept + 1 } := by
  rw [Nat.mul_comm] at *
  rw [FigureRow.add, if_pos ⟨fresh, room⟩]

/-- Figures are read as the number that they make behind the number of those before them, if there
is room for it.
-/
theorem figuresFrom_digits {figures : List Char} (digits : ∀ char ∈ figures, char.isDigit)
    {limit : Nat} (row : FigureRow) (fresh : row.dropped = 0)
    (room : Nat.ofDigitChars 10 figures row.value ≤ limit) (place : Place) {rest : List UInt8}
    (ends : NoFigure rest)
    : ∃ behind, figuresFrom limit place row (utf8 figures ++ rest) =
        ({ row with
            value := Nat.ofDigitChars 10 figures row.value
            kept := row.kept + figures.length }, ⟨behind, rest⟩) := by
  induction figures generalizing row place with
  | nil =>
    refine ⟨place, ?_⟩
    cases rest with
    | nil => simp [utf8_nil, figuresFrom]
    | cons byte rest =>
      have stop : ¬ (48 ≤ byte ∧ byte ≤ 57) := ends byte rfl
      simp [utf8_nil, figuresFrom, stop]
  | cons char figures hyp =>
    obtain ⟨byte, encoded, figure, same⟩ :=
      utf8EncodeChar_of_isDigit (digits char List.mem_cons_self)
    rw [Nat.ofDigitChars_cons, show char.toNat - '0'.toNat = byte.toNat - 48 by rw [same]; rfl]
      at *
    have kept := Nat.le_trans (le_ofDigitChars figures _) room
    obtain ⟨behind, read⟩ := hyp (fun char within => digits char (List.mem_cons_of_mem _ within))
      { row with value := 10 * row.value + (byte.toNat - 48), kept := row.kept + 1 } fresh room
      (place.after byte)
    refine ⟨behind, ?_⟩
    rw [utf8_cons, encoded, List.singleton_append, List.cons_append, figuresFrom, if_pos figure]
    simp only [FigureRow.add_of_room fresh kept, read, List.length_cons]
    rw [Nat.add_right_comm, Nat.add_assoc]

theorem atFigure_of_noFigure {rest : List UInt8} (ends : NoFigure rest) (place : Place)
    : atFigure ⟨place, rest⟩ = false := by
  cases rest with
  | nil => rfl
  | cons byte rest => simpa [atFigure] using ends byte rfl

theorem atFigure_plain {figures : List Char} (plain : Plain figures) (place : Place)
    (rest : List UInt8)
    : atFigure ⟨place, utf8 figures ++ rest⟩ = true := by
  obtain ⟨byte, bytes, same, figure⟩ := utf8_plain plain
  simpa [same, atFigure] using figure

theorem peek?_of_atFigure {cursor : Cursor} (sees : cursor.atFigure = true) {byte : UInt8}
    (other : ¬ (48 ≤ byte ∧ byte ≤ 57))
    : cursor.peek? ≠ some byte := by
  rintro same
  obtain ⟨place, rest⟩ := cursor
  cases rest with
  | nil => simp [peek?] at same
  | cons found rest =>
    obtain rfl : found = byte := by simpa [peek?] using same
    exact other (by simpa [atFigure] using sees)

theorem not_isBlank_of_figure {byte : UInt8} (figure : 48 ≤ byte ∧ byte ≤ 57)
    : ¬ isBlank byte := by
  intro blank
  simp only [isBlank, Bool.or_eq_true, decide_eq_true_eq] at blank
  rcases blank with ((rfl | rfl) | rfl) | rfl <;> exact absurd figure.1 (by decide)

/-- A reader sees whether the first figure is zero. -/
theorem peek?_ne_zero {first : Char} (digit : first.isDigit) (nonzero : first ≠ '0')
    (others : List Char) (place : Place) (rest : List UInt8)
    : peek? ⟨place, utf8 (first :: others) ++ rest⟩ ≠ some 48 := by
  obtain ⟨byte, encoded, -, same⟩ := utf8EncodeChar_of_isDigit digit
  rw [utf8_cons, encoded]
  rintro ⟨⟩
  exact nonzero (Char.toNat_inj.mp same.symm)

/-- All figures of an integer part belong to it if the first is not zero. -/
theorem integerPart_nonzero {first : Char} {others : List Char} (nonzero : first ≠ '0')
    (digits : ∀ char ∈ first :: others, char.isDigit) (place : Place) (rest : List UInt8)
    : integerPart ⟨place, utf8 (first :: others) ++ rest⟩ =
        .ok (figures greatestNatural 0 ⟨place, utf8 (first :: others) ++ rest⟩) := by
  have plain : Plain (first :: others) := .inr ⟨first, others, rfl, nonzero, digits⟩
  have sees := atFigure_plain plain place rest
  have notZero := peek?_ne_zero (digits first List.mem_cons_self) nonzero others place rest
  obtain ⟨byte, bytes, same, -⟩ := utf8_plain plain
  rw [same] at sees notZero ⊢
  have notZero : byte ≠ 48 := by simpa [peek?] using notZero
  simp only [integerPart, peek?, List.cons_append, List.head?_cons, notZero, if_false]
  exact if_pos sees

/-- Figures without needless zeros are an integer part. -/
theorem integerPart_plain {figures : List Char} (plain : Plain figures)
    (room : Nat.ofDigitChars 10 figures 0 ≤ greatestNatural) (place : Place) {rest : List UInt8}
    (ends : NoFigure rest)
    : ∃ row behind, integerPart ⟨place, utf8 figures ++ rest⟩ = .ok (row, ⟨behind, rest⟩) ∧
        row.value = Nat.ofDigitChars 10 figures 0 ∧ row.dropped = 0 := by
  obtain rfl | ⟨first, others, rfl, nonzero, digits⟩ := plain
  · refine ⟨⟨0, 1, 0, none⟩, place.after 48, ?_, rfl, rfl⟩
    have stop := atFigure_of_noFigure ends (place.after 48)
    show integerPart ⟨place, 48 :: rest⟩ = _
    simp [integerPart, peek?, advance, stop]
  · obtain ⟨behind, read⟩ := figuresFrom_digits digits ⟨0, 0, 0, none⟩ rfl room place ends
    have all := integerPart_nonzero nonzero digits place rest
    exact ⟨_, behind, all.trans (congrArg Except.ok read), rfl, rfl⟩

/-- A number without needless zeros is read as that number, if it is in range. -/
theorem number_plain {figures : List Char} (plain : Plain figures)
    (room : Nat.ofDigitChars 10 figures 0 ≤ greatestNatural) {rest : List UInt8}
    (ends : EndsNumber rest)
    : Reads number (utf8 figures) (.natural (Nat.ofDigitChars 10 figures 0)) rest := by
  intro place
  obtain ⟨row, behind, read, value, fresh⟩ := integerPart_plain plain room place ends.noFigure
  refine ⟨behind, ?_⟩
  have unsigned : peek? ⟨place, utf8 figures ++ rest⟩ ≠ some 45 :=
    peek?_of_atFigure (atFigure_plain plain place rest) (by decide)
  have point : peek? ⟨behind, rest⟩ ≠ some 46 := fun sees => (ends 46 sees).2.1 rfl
  have exponent : atExponent ⟨behind, rest⟩ = false := by
    have small : peek? ⟨behind, rest⟩ ≠ some 101 := fun sees => (ends 101 sees).2.2.1 rfl
    have large : peek? ⟨behind, rest⟩ ≠ some 69 := fun sees => (ends 69 sees).2.2.2 rfl
    simp [atExponent, small, large]
  simp [number, unsigned, unsignedNumber, read, bind, Except.bind, fractionPart, point,
    exponentPart, exponent, Figures.numeral?, fresh, value]
  rfl

end Cursor

end Scratchpad.Json
