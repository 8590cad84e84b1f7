import Scratchpad.Json.Number
import Scratchpad.Json.Text

/-! Passing over a value that nobody asked for. Arrays and objects may be nested to any depth; only
the form of the text is looked at, and neither the range of numbers nor the pairing of surrogates.
-/

namespace Scratchpad.Json

/-- What is open around a place in a text. -/
inductive Bracket where
  | list
  | object
deriving DecidableEq

/-- The byte that closes a bracket. -/
def Bracket.closing : Bracket → UInt8
  | list => 93
  | object => 125

/-- The fault of a text that ends inside a bracket. -/
def Bracket.endFault : Bracket → Fault
  | list => .endInList
  | object => .endInObject

/-- The fault of a text with neither a comma nor the closing byte behind an element. -/
def Bracket.elementFault : Bracket → Fault
  | list => .expectedListEnd
  | object => .expectedObjectEnd

namespace Cursor

/-- Passes over the rest of a string, which starts at a place. The four bytes behind the letter of
an escape in base 16 are judged together.
-/
def skipStringFrom (place : Place) : List UInt8 → Except ReadError Cursor
  | [] => .error ⟨.endInString, place⟩
  | byte :: rest =>
    if byte < 32 then
      .error ⟨.controlCharacter, place⟩
    else if byte = 34 then
      .ok ⟨place.after byte, rest⟩
    else if byte = 92 then
      let place := place.after byte
      match rest with
      | [] => .error ⟨.endInString, place⟩
      | letter :: rest =>
        let place := place.after letter
        if letter = 117 then
          match rest with
          | a :: b :: c :: d :: rest =>
            let place := (((place.after a).after b).after c).after d
            if (hexValue4? a b c d).isSome then
              skipStringFrom place rest
            else
              .error ⟨.invalidEscape, place⟩
          | short => .error ⟨.endInString, short.foldl Place.after place⟩
        else if (shortEscape? letter).isSome then
          skipStringFrom place rest
        else
          .error ⟨.invalidEscape, place⟩
    else
      skipStringFrom (place.after byte) rest

/-- Passes over the rest of a string. -/
def skipString (cursor : Cursor) : Except ReadError Cursor :=
  skipStringFrom cursor.place cursor.rest

/-- The cursor behind the figures ahead. -/
def skipFigures (cursor : Cursor) : Cursor :=
  (cursor.figures greatestNatural 0).2

/-- Passes over an integer part. -/
def skipInteger (cursor : Cursor) : Except ReadError Cursor :=
  if cursor.peek? = some 48 then
    if cursor.advance.atFigure then
      cursor.advance.failAhead .invalidNumber
    else
      .ok cursor.advance
  else if cursor.atFigure then
    .ok cursor.skipFigures
  else
    cursor.advance.fail .invalidNumber

/-- Passes over a fraction, if there is one. -/
def skipFraction (cursor : Cursor) : Except ReadError Cursor :=
  if cursor.peek? = some 46 then
    if cursor.advance.atFigure then
      .ok cursor.advance.skipFigures
    else
      cursor.advance.failAhead .invalidNumber
  else
    .ok cursor

/-- Passes over an exponent, if there is one. -/
def skipExponent (cursor : Cursor) : Except ReadError Cursor :=
  if cursor.atExponent then
    let cursor := cursor.advance.skipSign
    if cursor.atFigure then
      .ok cursor.skipFigures
    else
      cursor.advance.fail .invalidNumber
  else
    .ok cursor

/-- Passes over a number behind its sign. -/
def skipNumber (cursor : Cursor) : Except ReadError Cursor := do
  let cursor ← cursor.skipInteger
  let cursor ← cursor.skipFraction
  cursor.skipExponent

/-- Passes over a value that is no bracket, or over the byte that opens one. -/
def skipStart (cursor : Cursor) : Except ReadError (Option Bracket × Cursor) :=
  match cursor.peek? with
  | none => cursor.failAhead .endInValue
  | some byte =>
    let next := cursor.advance
    if byte = 110 then do
      return (none, ← next.expect [117, 108, 108])
    else if byte = 116 then do
      return (none, ← next.expect [114, 117, 101])
    else if byte = 102 then do
      return (none, ← next.expect [97, 108, 115, 101])
    else if byte = 45 then do
      return (none, ← next.skipNumber)
    else if cursor.atFigure then do
      return (none, ← cursor.skipNumber)
    else if byte = 34 then do
      return (none, ← next.skipString)
    else if byte = 91 then
      .ok (some .list, next)
    else if byte = 123 then
      .ok (some .object, next)
    else
      cursor.failAhead .expectedValue

/-- Passes over what closes brackets, up to the place of the next element, of which the innermost
open bracket is given with those around it; none is left when the value is complete. `filled`
says that an element stands before the cursor, so that a comma has to follow or the end.
-/
def skipClosing (filled : Bool) (cursor : Cursor) : List Bracket
    → Except ReadError (List Bracket × Cursor)
  | [] => .ok ([], cursor)
  | bracket :: around =>
    let cursor := cursor.skipBlanks
    match cursor.peek? with
    | none => cursor.failAhead bracket.endFault
    | some byte =>
      if byte = 44 ∧ filled then
        .ok (bracket :: around, cursor.advance)
      else if byte = bracket.closing then
        skipClosing true cursor.advance around
      else if filled then
        cursor.failAhead bracket.elementFault
      else
        .ok (bracket :: around, cursor)

/-- Passes over the name of a member and the colon behind it. -/
def skipName (cursor : Cursor) : Except ReadError Cursor := do
  let cursor := cursor.skipBlanks
  match cursor.peek? with
  | none => cursor.failAhead .endInObject
  | some byte =>
    if byte = 34 then
      let cursor ← cursor.advance.skipString
      let cursor := cursor.skipBlanks
      match cursor.peek? with
      | none => cursor.failAhead .endInObject
      | some byte =>
        if byte = 58 then .ok cursor.advance else cursor.failAhead .expectedColon
    else
      cursor.failAhead .keyNotString

/-- The name before an element, which only members of objects have. -/
def skipNameIn (bracket : Bracket) (cursor : Cursor) : Except ReadError Cursor :=
  match bracket with
  | .list => .ok cursor
  | .object => cursor.skipName

------------------------------------------------------------------------------------------
-- Readers do not go back
------------------------------------------------------------------------------------------

theorem ahead_skipString {cursor after : Cursor} (found : cursor.skipString = .ok after)
    : after.ahead ≤ cursor.ahead := by
  unfold skipString at found
  obtain ⟨place, rest⟩ := cursor
  simp only [ahead] at *
  fun_induction skipStringFrom place rest with
  | case3 => obtain rfl := Except.ok.inj found; simp
  | case5 _ _ _ _ _ _ _ _ _ _ _ _ ih => have := ih found; simp only [List.length_cons]; omega
  | case8 _ _ _ _ _ _ _ _ _ ih => have := ih found; simp only [List.length_cons]; omega
  | case10 _ _ _ _ _ _ ih => have := ih found; simp only [List.length_cons]; omega
  | _ => contradiction

theorem ahead_skipFigures (cursor : Cursor)
    : cursor.skipFigures.ahead ≤ cursor.ahead :=
  ahead_figures ..

theorem ahead_skipNumber {cursor after : Cursor} (found : cursor.skipNumber = .ok after)
    : after.ahead < cursor.ahead := by
  have integer : ∀ {before after : Cursor}, before.skipInteger = .ok after →
      after.ahead < before.ahead := by
    intro before after found
    simp only [skipInteger, failAhead, fail] at found
    repeat' split at found
    all_goals first | contradiction | skip
    · rename_i zero _
      have := ahead_advance zero
      obtain rfl := Except.ok.inj found
      omega
    · rename_i figure
      obtain rfl := Except.ok.inj found
      exact ahead_figures_lt figure
  have fraction : ∀ {before after : Cursor}, before.skipFraction = .ok after →
      after.ahead ≤ before.ahead := by
    intro before after found
    have := before.ahead_advance_le
    have := before.advance.ahead_skipFigures
    simp only [skipFraction, failAhead, fail] at found
    repeat' split at found
    all_goals first | contradiction | skip
    all_goals
      obtain rfl := Except.ok.inj found
      omega
  have exponent : ∀ {before after : Cursor}, before.skipExponent = .ok after →
      after.ahead ≤ before.ahead := by
    intro before after found
    have := before.ahead_advance_le
    have := before.advance.ahead_skipSign
    have := before.advance.skipSign.ahead_skipFigures
    simp only [skipExponent, fail] at found
    repeat' split at found
    all_goals first | contradiction | skip
    all_goals
      obtain rfl := Except.ok.inj found
      omega
  simp only [skipNumber, bind, Except.bind] at found
  repeat' split at found
  all_goals first | contradiction | skip
  rename_i _ _ first _ _ second
  have := integer first
  have := fraction second
  have := exponent found
  omega

theorem ahead_skipStart {cursor after : Cursor} {opened : Option Bracket}
    (found : cursor.skipStart = .ok (opened, after))
    : after.ahead < cursor.ahead := by
  simp only [skipStart, bind, Except.bind, pure, Except.pure, failAhead, fail] at found
  split at found
  · contradiction
  · rename_i byte sees
    have := ahead_advance sees
    repeat' split at found
    all_goals first | contradiction | skip
    all_goals obtain ⟨-, rfl⟩ := by simpa using found
    · have := ahead_expect ‹_›
      omega
    · have := ahead_expect ‹_›
      omega
    · have := ahead_expect ‹_›
      omega
    · have := ahead_skipNumber ‹_›
      omega
    · exact ahead_skipNumber ‹_›
    · have := ahead_skipString ‹_›
      omega
    · omega
    · omega

theorem ahead_skipClosing {filled : Bool} {cursor after : Cursor} {brackets left : List Bracket}
    (found : cursor.skipClosing filled brackets = .ok (left, after))
    : after.ahead ≤ cursor.ahead := by
  induction brackets generalizing filled cursor with
  | nil =>
    obtain ⟨-, rfl⟩ := by simpa [skipClosing] using found
    exact Nat.le_refl _
  | cons bracket around ih =>
    have := cursor.ahead_skipBlanks
    have := cursor.skipBlanks.ahead_advance_le
    simp only [skipClosing, failAhead, fail] at found
    repeat' split at found
    all_goals first | contradiction | skip
    · obtain ⟨-, rfl⟩ := by simpa using found
      omega
    · have := ih found
      omega
    · obtain ⟨-, rfl⟩ := by simpa using found
      omega

theorem ahead_skipName {cursor after : Cursor} (found : cursor.skipName = .ok after)
    : after.ahead ≤ cursor.ahead := by
  have := cursor.ahead_skipBlanks
  have := cursor.skipBlanks.ahead_advance_le
  simp only [skipName, bind, Except.bind, failAhead, fail] at found
  repeat' split at found
  all_goals first | contradiction | skip
  rename_i middle name _ _ _ _
  obtain rfl := Except.ok.inj found
  have := ahead_skipString name
  have := middle.ahead_skipBlanks
  have := middle.skipBlanks.ahead_advance_le
  omega

theorem ahead_skipNameIn {bracket : Bracket} {cursor after : Cursor}
    (found : cursor.skipNameIn bracket = .ok after)
    : after.ahead ≤ cursor.ahead := by
  cases bracket with
  | list => obtain rfl := Except.ok.inj found; exact Nat.le_refl _
  | object => exact ahead_skipName found

------------------------------------------------------------------------------------------
-- Values
------------------------------------------------------------------------------------------

/-- Passes over the start of an element and all that it closes. -/
def skipElement (brackets : List Bracket) (cursor : Cursor)
    : Except ReadError (List Bracket × Cursor) := do
  let (opened, cursor) ← cursor.skipBlanks.skipStart
  match opened with
  | none => cursor.skipClosing true brackets
  | some bracket => cursor.skipClosing false (bracket :: brackets)

theorem ahead_skipElement {brackets left : List Bracket} {cursor after : Cursor}
    (found : cursor.skipElement brackets = .ok (left, after))
    : after.ahead < cursor.ahead := by
  simp only [skipElement, bind, Except.bind] at found
  split at found
  · contradiction
  · rename_i start
    have := cursor.ahead_skipBlanks
    have := ahead_skipStart start
    split at found
    all_goals
      have := ahead_skipClosing found
      omega

/-- Passes over elements until all open brackets are closed. -/
def skipElements (brackets : List Bracket) (cursor : Cursor) : Except ReadError Cursor :=
  match _element : cursor.skipElement brackets with
  | .error error => .error error
  | .ok ([], cursor) => .ok cursor
  | .ok (bracket :: around, cursor) =>
    match _name : cursor.skipNameIn bracket with
    | .error error => .error error
    | .ok cursor => skipElements (bracket :: around) cursor
termination_by cursor.ahead
decreasing_by
  have := ahead_skipElement ‹_›
  have := ahead_skipNameIn ‹_›
  omega

/-- Passes over a value. -/
def skipValue (cursor : Cursor) : Except ReadError Cursor :=
  cursor.skipElements []

theorem ahead_skipElements {brackets : List Bracket} {cursor after : Cursor}
    (found : cursor.skipElements brackets = .ok after)
    : after.ahead < cursor.ahead := by
  fun_induction skipElements brackets cursor with
  | case1 => contradiction
  | case2 _ _ _ element =>
    obtain rfl := Except.ok.inj found
    exact ahead_skipElement element
  | case3 => contradiction
  | case4 _ _ _ _ _ element _ name ih =>
    have := ih found
    have := ahead_skipElement element
    have := ahead_skipNameIn name
    omega

end Cursor

end Scratchpad.Json
