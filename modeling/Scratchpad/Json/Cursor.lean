import Scratchpad.Json.Fault

/-! Reading a JSON text byte by byte. A cursor is a place in the text with the bytes ahead of it; a
reader gives what it has read with the cursor behind it.
Faults are placed either where the cursor is or behind the byte that it looks at.
-/

namespace Scratchpad.Json

/-- A place in a text and the bytes ahead of it. -/
structure Cursor where
  place : Place
  rest : List UInt8

namespace Cursor

/-- A cursor before the first byte. -/
def ofText (text : String) : Cursor :=
  ⟨⟨1, 0⟩, text.toUTF8.data.toList⟩

/-- The byte that the cursor looks at. -/
def peek? (cursor : Cursor) : Option UInt8 :=
  cursor.rest.head?

/-- The cursor behind that byte. -/
def advance (cursor : Cursor) : Cursor :=
  match cursor.rest with
  | [] => cursor
  | byte :: rest => ⟨cursor.place.after byte, rest⟩

/-- The number of bytes ahead. -/
def ahead (cursor : Cursor) : Nat :=
  cursor.rest.length

/-- A fault where the cursor is. -/
def fail {α : Type} (cursor : Cursor) (fault : Fault) : Except ReadError α :=
  .error ⟨fault, cursor.place⟩

/-- A fault behind the byte that the cursor looks at. -/
def failAhead {α : Type} (cursor : Cursor) (fault : Fault) : Except ReadError α :=
  cursor.advance.fail fault

/-- Whether a byte is blank: a space, a newline, a tab or a carriage return. -/
def isBlank (byte : UInt8) : Bool :=
  byte = 32 || byte = 10 || byte = 9 || byte = 13

/-- The cursor behind the blanks ahead. -/
def skipBlanksFrom (place : Place) : List UInt8 → Cursor
  | [] => ⟨place, []⟩
  | byte :: rest =>
    if isBlank byte then skipBlanksFrom (place.after byte) rest else ⟨place, byte :: rest⟩

/-- The cursor behind the blanks ahead. -/
def skipBlanks (cursor : Cursor) : Cursor :=
  skipBlanksFrom cursor.place cursor.rest

/-- Whether the cursor looks at a figure. -/
def atFigure (cursor : Cursor) : Bool :=
  match cursor.rest with
  | byte :: _ => 48 ≤ byte && byte ≤ 57
  | [] => false

/-- Reads the rest of a word of which every byte is known. -/
def expect : (word : List UInt8) → Cursor → Except ReadError Cursor
  | [], cursor => .ok cursor
  | byte :: word, cursor =>
    match cursor.rest with
    | [] => cursor.fail .endInValue
    | found :: _ =>
      if found = byte then expect word cursor.advance else cursor.advance.fail .misspelledWord

------------------------------------------------------------------------------------------
-- Readers do not go back
------------------------------------------------------------------------------------------

theorem ahead_advance_le (cursor : Cursor)
    : cursor.advance.ahead ≤ cursor.ahead := by
  obtain ⟨place, rest⟩ := cursor
  cases rest <;> simp [advance, ahead]

theorem ahead_advance {cursor : Cursor} {byte : UInt8} (sees : cursor.peek? = some byte)
    : cursor.advance.ahead + 1 = cursor.ahead := by
  obtain ⟨place, rest⟩ := cursor
  cases rest with
  | nil => simp [peek?] at sees
  | cons found rest => simp [advance, ahead]

theorem ahead_skipBlanks (cursor : Cursor)
    : cursor.skipBlanks.ahead ≤ cursor.ahead := by
  obtain ⟨place, rest⟩ := cursor
  simp only [skipBlanks]
  induction rest generalizing place with
  | nil => simp [skipBlanksFrom, ahead]
  | cons byte rest ih =>
    unfold skipBlanksFrom
    split
    · have := ih (place.after byte)
      simp only [ahead, List.length_cons] at *
      omega
    · simp [ahead]

theorem ahead_expect {word : List UInt8} {cursor after : Cursor}
    (found : expect word cursor = .ok after)
    : after.ahead ≤ cursor.ahead := by
  induction word generalizing cursor with
  | nil => simp_all [expect]
  | cons byte word ih =>
    unfold expect at found
    split at found
    · simp [fail] at found
    · split at found
      · have := ih found
        have := cursor.ahead_advance_le
        omega
      · simp [fail] at found

end Cursor

end Scratchpad.Json
