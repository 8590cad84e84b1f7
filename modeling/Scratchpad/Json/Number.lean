import Scratchpad.Json.Cursor

/-! Reading numbers: an integer part without needless zeros, and perhaps a fraction and an
exponent. The figures are gathered in one integer of 64 bits, and those that find no room in it are
passed over; the integer is then scaled by a power of ten.
-/

namespace Scratchpad.Json.Cursor

/-- The largest natural number that is kept as an integer, and that figures are gathered in. -/
def greatestNatural : Nat := 18446744073709551615

/-- The largest magnitude of a negative number that is kept as an integer. -/
def greatestMagnitude : Nat := 9223372036854775808

/-- The largest exponent of ten that is read. -/
def greatestExponent : Nat := 2147483647

------------------------------------------------------------------------------------------
-- Figures
------------------------------------------------------------------------------------------

/-- What a row of figures makes: its value, how many figures are in it, how many were passed over,
and the place behind the first of these.
-/
structure FigureRow where
  value : Nat
  kept : Nat
  dropped : Nat
  crowdedAt : Option Place

/-- A row with one more figure, which ends at a place. It is kept if the value stays within the
limit and none was passed over before.
-/
def FigureRow.add (limit : Nat) (place : Place) (figure : Nat) (row : FigureRow) : FigureRow :=
  if row.dropped = 0 ∧ row.value * 10 + figure ≤ limit then
    { row with value := row.value * 10 + figure, kept := row.kept + 1 }
  else
    { row with dropped := row.dropped + 1, crowdedAt := some (row.crowdedAt.getD place) }

/-- Reads figures behind a row. -/
def figuresFrom (limit : Nat) (place : Place) (row : FigureRow)
    : List UInt8 → FigureRow × Cursor
  | [] => (row, ⟨place, []⟩)
  | byte :: rest =>
    if 48 ≤ byte ∧ byte ≤ 57 then
      let place := place.after byte
      figuresFrom limit place (row.add limit place (byte.toNat - 48)) rest
    else
      (row, ⟨place, byte :: rest⟩)

/-- Reads all figures ahead, behind a value. -/
def figures (limit value : Nat) (cursor : Cursor) : FigureRow × Cursor :=
  figuresFrom limit cursor.place ⟨value, 0, 0, none⟩ cursor.rest

------------------------------------------------------------------------------------------
-- The parts of a number
------------------------------------------------------------------------------------------

/-- What is written of a number: its figures as one integer, the exponent of ten that goes with
them, and whether the integer alone is the number as it is written.
-/
structure Figures where
  significand : Nat
  exponent : Int
  whole : Bool

/-- Reads the integer part. -/
def integerPart (cursor : Cursor) : Except ReadError (FigureRow × Cursor) :=
  match cursor.peek? with
  | none => cursor.fail .endInValue
  | some byte =>
    if byte = 48 then
      if cursor.advance.atFigure then
        cursor.advance.failAhead .invalidNumber
      else
        .ok (⟨0, 1, 0, none⟩, cursor.advance)
    else if cursor.atFigure then
      .ok (cursor.figures greatestNatural 0)
    else
      cursor.advance.fail .invalidNumber

/-- Reads a fraction, if there is one, behind the integer part. Every figure of the integer part
that was passed over counts for a power of ten.
-/
def fractionPart (whole : FigureRow) (cursor : Cursor) : Except ReadError (Figures × Cursor) :=
  if cursor.peek? = some 46 then
    let cursor := cursor.advance
    if cursor.atFigure then
      let (row, cursor) := cursor.figures greatestNatural whole.value
      .ok (⟨row.value, (whole.dropped : Int) - row.kept, false⟩, cursor)
    else if cursor.peek?.isNone then
      cursor.failAhead .endInValue
    else
      cursor.failAhead .invalidNumber
  else
    .ok (⟨whole.value, whole.dropped, whole.dropped == 0⟩, cursor)

/-- Whether the cursor looks at the letter before an exponent. -/
def atExponent (cursor : Cursor) : Bool :=
  cursor.peek? = some 101 || cursor.peek? = some 69

/-- The cursor behind a sign, if there is one. -/
def skipSign (cursor : Cursor) : Cursor :=
  if cursor.peek? = some 43 ∨ cursor.peek? = some 45 then cursor.advance else cursor

/-- The figures of a number with the exponent that is written behind them. An exponent beyond the
largest makes a number too large, which is noticed where the exponent becomes so, or else zero.
-/
def Figures.withExponent (figures : Figures) (negative : Bool) (row : FigureRow)
    : Except ReadError Figures :=
  match row.crowdedAt with
  | none =>
    let exponent : Int := if negative then -row.value else row.value
    .ok ⟨figures.significand, figures.exponent + exponent, false⟩
  | some place =>
    if figures.significand ≠ 0 ∧ negative = false then
      .error ⟨.numberOutOfRange, place⟩
    else
      .ok ⟨0, 0, false⟩

/-- Reads an exponent, if there is one, behind the other figures. -/
def exponentPart (figures : Figures) (cursor : Cursor) : Except ReadError (Figures × Cursor) :=
  if cursor.atExponent then
    let signed := cursor.advance
    let negative := signed.peek? = some 45
    let cursor := signed.skipSign
    if cursor.atFigure then
      let (row, cursor) := cursor.figures greatestExponent 0
      match figures.withExponent negative row with
      | .error error => .error error
      | .ok figures => .ok (figures, cursor)
    else if cursor.peek?.isNone then
      cursor.fail .endInValue
    else
      cursor.advance.fail .invalidNumber
  else
    .ok (figures, cursor)

/-- The binary number that figures stand for, if it is in range. -/
def Figures.binary? (figures : Figures) : Option Decimal.Binary64 :=
  (Decimal.Binary64.ofNat? figures.significand).bind fun number =>
    number.scale? figures.exponent

/-- The number that figures stand for, if it is in range. -/
def Figures.numeral? (negative : Bool) (figures : Figures) : Option Numeral :=
  if figures.whole && !negative then
    some (.natural figures.significand)
  else if figures.whole && 0 < figures.significand &&
      figures.significand ≤ greatestMagnitude then
    some (.negative figures.significand)
  else
    figures.binary?.map (.real negative)

/-- Reads a number behind its sign. -/
def unsignedNumber (negative : Bool) (cursor : Cursor) : Except ReadError (Numeral × Cursor) := do
  let (whole, cursor) ← cursor.integerPart
  let (figures, cursor) ← cursor.fractionPart whole
  let (figures, cursor) ← cursor.exponentPart figures
  match figures.numeral? negative with
  | none => cursor.fail .numberOutOfRange
  | some numeral => return (numeral, cursor)

/-- Whether the cursor looks at a number. -/
def atNumber (cursor : Cursor) : Bool :=
  cursor.peek? = some 45 || cursor.atFigure

/-- Reads a number. -/
def number (cursor : Cursor) : Except ReadError (Numeral × Cursor) :=
  if cursor.peek? = some 45 then
    cursor.advance.unsignedNumber true
  else
    cursor.unsignedNumber false

------------------------------------------------------------------------------------------
-- Readers do not go back
------------------------------------------------------------------------------------------

theorem ahead_figuresFrom (limit : Nat) (place : Place) (row : FigureRow) (rest : List UInt8)
    : (figuresFrom limit place row rest).2.ahead ≤ rest.length := by
  induction rest generalizing place row with
  | nil => simp [figuresFrom, ahead]
  | cons byte rest ih =>
    unfold figuresFrom
    split
    · exact Nat.le_succ_of_le (ih ..)
    · simp [ahead]

theorem ahead_figures (limit value : Nat) (cursor : Cursor)
    : (cursor.figures limit value).2.ahead ≤ cursor.ahead :=
  ahead_figuresFrom ..

theorem ahead_figures_lt {limit value : Nat} {cursor : Cursor} (sees : cursor.atFigure = true)
    : (cursor.figures limit value).2.ahead < cursor.ahead := by
  obtain ⟨place, rest⟩ := cursor
  cases rest with
  | nil => simp [atFigure] at sees
  | cons byte rest =>
    have figure : 48 ≤ byte ∧ byte ≤ 57 := by simpa [atFigure] using sees
    simp only [figures, figuresFrom, figure, and_self, if_true]
    exact Nat.lt_succ_of_le (ahead_figuresFrom ..)

theorem ahead_integerPart {cursor after : Cursor} {row : FigureRow}
    (found : cursor.integerPart = .ok (row, after))
    : after.ahead ≤ cursor.ahead := by
  have shorter := cursor.ahead_figures greatestNatural 0
  simp only [integerPart, failAhead, fail] at found
  repeat' split at found
  all_goals first | contradiction | skip
  · obtain ⟨-, rfl⟩ := by simpa using found
    exact cursor.ahead_advance_le
  · rwa [Except.ok.inj found] at shorter

theorem ahead_fractionPart {cursor after : Cursor} {whole : FigureRow} {figures : Figures}
    (found : cursor.fractionPart whole = .ok (figures, after))
    : after.ahead ≤ cursor.ahead := by
  have := cursor.ahead_advance_le
  have := cursor.advance.ahead_figures greatestNatural whole.value
  simp only [fractionPart, failAhead, fail] at found
  repeat' split at found
  all_goals first | contradiction | skip
  all_goals
    obtain ⟨-, rfl⟩ := by simpa using found
    omega

theorem ahead_skipSign (cursor : Cursor)
    : cursor.skipSign.ahead ≤ cursor.ahead := by
  unfold skipSign
  split
  · exact cursor.ahead_advance_le
  · exact Nat.le_refl _

theorem ahead_exponentPart {cursor after : Cursor} {before figures : Figures}
    (found : cursor.exponentPart before = .ok (figures, after))
    : after.ahead ≤ cursor.ahead := by
  have := cursor.ahead_advance_le
  have := cursor.advance.ahead_skipSign
  have := cursor.advance.skipSign.ahead_figures greatestExponent 0
  simp only [exponentPart, fail] at found
  repeat' split at found
  all_goals first | contradiction | skip
  all_goals
    obtain ⟨-, rfl⟩ := by simpa using found
    omega

theorem ahead_unsignedNumber {cursor after : Cursor} {negative : Bool} {numeral : Numeral}
    (found : cursor.unsignedNumber negative = .ok (numeral, after))
    : after.ahead ≤ cursor.ahead := by
  simp only [unsignedNumber, bind, Except.bind, pure, Except.pure, fail] at found
  repeat' split at found
  all_goals first | contradiction | skip
  rename_i whole _ _ fraction _ _ exponent _ _ _
  obtain ⟨-, rfl⟩ := by simpa using found
  have := ahead_integerPart whole
  have := ahead_fractionPart fraction
  have := ahead_exponentPart exponent
  omega

theorem ahead_number {cursor after : Cursor} {numeral : Numeral}
    (found : cursor.number = .ok (numeral, after))
    : after.ahead ≤ cursor.ahead := by
  have := cursor.ahead_advance_le
  unfold number at found
  split at found
  · have := ahead_unsignedNumber found
    omega
  · exact ahead_unsignedNumber found

end Scratchpad.Json.Cursor
