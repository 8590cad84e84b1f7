import Scratchpad.Json.Text
import Scratchpad.Json.Value

/-! The bytes that a reader of JSON sees of characters, and what it means that it reads a value from
some of them. Where it has read to is not said by a place but by the bytes that are left.
-/

namespace Scratchpad.Json

------------------------------------------------------------------------------------------
-- Bytes of characters
------------------------------------------------------------------------------------------

/-- The bytes of characters. -/
def utf8 (chars : List Char) : List UInt8 :=
  chars.flatMap String.utf8EncodeChar

theorem utf8_nil
    : utf8 [] = [] :=
  rfl

theorem utf8_cons (char : Char) (chars : List Char)
    : utf8 (char :: chars) = String.utf8EncodeChar char ++ utf8 chars :=
  rfl

theorem utf8_append (front rest : List Char)
    : utf8 (front ++ rest) = utf8 front ++ utf8 rest :=
  List.flatMap_append

theorem length_le_utf8 (chars : List Char)
    : chars.length ≤ (utf8 chars).length := by
  induction chars with
  | nil => exact Nat.le_refl _
  | cons char chars hyp =>
    have := char.utf8Size_pos
    rw [utf8_cons, List.length_append, String.length_utf8EncodeChar, List.length_cons]
    omega

/-- A character of ASCII is one byte. -/
theorem utf8EncodeChar_ascii {char : Char} (ascii : char.toNat < 128)
    : String.utf8EncodeChar char = [UInt8.ofNat char.toNat] :=
  if_pos (Nat.le_of_lt_succ ascii)

theorem utf8_toList (text : String)
    : text.toUTF8.data.toList = utf8 text.toList := by
  rw [String.toUTF8_eq_toByteArray, ← String.utf8Encode_toList, List.utf8Encode,
    List.toList_data_toByteArray]
  rfl

theorem Cursor.ofText_eq (text : String)
    : ofText text = ⟨⟨1, 0⟩, utf8 text.toList⟩ := by
  rw [ofText, utf8_toList]

/-- The bytes of a text are that text. -/
theorem fromUTF8?_utf8 (text : String)
    : String.fromUTF8? ⟨(utf8 text.toList).toArray⟩ = some text := by
  rw [← utf8_toList, Array.toArray_toList]
  exact dif_pos text.isValidUTF8

/-- No byte of a character that may stand for itself ends a string, starts an escape or is a
control: in ASCII the byte is the character, and all bytes of other characters are larger.
-/
theorem bare_of_mem_utf8EncodeChar {char : Char} (printed : 0x20 ≤ char.toNat)
    (unquoted : char ≠ '"') (unescaped : char ≠ '\\') {byte : UInt8}
    (within : byte ∈ String.utf8EncodeChar char)
    : 32 ≤ byte ∧ byte ≠ 34 ∧ byte ≠ 92 := by
  have notQuote : char.toNat ≠ 34 := fun same => unquoted (Char.toNat_inj.mp same)
  have notSlash : char.toNat ≠ 92 := fun same => unescaped (Char.toNat_inj.mp same)
  simp only [UInt8.le_iff_toNat_le, ne_eq, ← UInt8.toNat_inj]
  by_cases ascii : char.toNat < 128
  · rw [utf8EncodeChar_ascii ascii, List.mem_singleton] at within
    subst within
    simp only [UInt8.toNat_ofNat', UInt8.toNat_ofNat]
    omega
  · have large : 128 ≤ byte.toNat := by
      simp only [String.utf8EncodeChar, Char.toNat_val] at within
      split at within
      · omega
      repeat' split at within
      all_goals
        simp only [List.mem_cons, List.not_mem_nil, or_false] at within
        rcases within with rfl | rfl | rfl | rfl
      all_goals
        simp only [UInt8.toNat_ofNat']
        omega
    simp only [UInt8.toNat_ofNat]
    omega

------------------------------------------------------------------------------------------
-- Reading bytes
------------------------------------------------------------------------------------------

namespace Cursor

theorem peek?_cons (place : Place) (byte : UInt8) (rest : List UInt8)
    : peek? ⟨place, byte :: rest⟩ = some byte :=
  rfl

theorem advance_cons (place : Place) (byte : UInt8) (rest : List UInt8)
    : advance ⟨place, byte :: rest⟩ = ⟨place.after byte, rest⟩ :=
  rfl

/-- With other bytes behind them, a reader gives a value for bytes and stops behind these. -/
def Reads {α : Type} (reader : Cursor → Except ReadError (α × Cursor)) (bytes : List UInt8)
    (value : α) (rest : List UInt8) : Prop :=
  ∀ place, ∃ behind, reader ⟨place, bytes ++ rest⟩ = .ok (value, ⟨behind, rest⟩)

section Reads

variable {α β : Type} {reader : Cursor → Except ReadError (α × Cursor)}
variable {front back bytes : List UInt8} {value : α} {rest : List UInt8}

/-- What is read behind a value is read from the bytes behind those of the value. -/
theorem Reads.bind {next : α × Cursor → Except ReadError (β × Cursor)} {result : β}
    (first : Reads reader front value (back ++ rest))
    (second : Reads (fun cursor => next (value, cursor)) back result rest)
    : Reads (fun cursor => reader cursor >>= next) (front ++ back) result rest := by
  intro place
  obtain ⟨middle, read⟩ := first place
  obtain ⟨behind, readNext⟩ := second middle
  refine ⟨behind, ?_⟩
  rw [List.append_assoc]
  simp only [read]
  exact readNext

/-- A value that is made of another is read from the bytes of that. -/
theorem Reads.map (make : α → β) (reads : Reads reader bytes value rest)
    : Reads (fun cursor => reader cursor >>= fun read => .ok (make read.1, read.2)) bytes
        (make value) rest := by
  intro place
  obtain ⟨behind, read⟩ := reads place
  exact ⟨behind, by simp only [read]; rfl⟩

/-- What is read behind a byte is read from the bytes behind it. -/
theorem Reads.advance (byte : UInt8) (reads : Reads reader bytes value rest)
    : Reads (fun cursor => reader cursor.advance) (byte :: bytes) value rest :=
  fun place => reads (place.after byte)

/-- A reader reads what another reads that does the same there. -/
theorem Reads.congr {other : Cursor → Except ReadError (α × Cursor)}
    (reads : Reads reader bytes value rest)
    (same : ∀ place, other ⟨place, bytes ++ rest⟩ = reader ⟨place, bytes ++ rest⟩)
    : Reads other bytes value rest :=
  fun place => (same place).symm ▸ reads place

end Reads

/-- A word is found as it is expected. -/
theorem expect_append (word : List UInt8) (place : Place) (rest : List UInt8)
    : expect word ⟨place, word ++ rest⟩ = .ok ⟨word.foldl Place.after place, rest⟩ := by
  induction word generalizing place with
  | nil => rfl
  | cons byte word hyp => simpa [expect, advance] using hyp (place.after byte)

/-- A word is read as the value that it stands for. -/
theorem reads_word {α : Type} (value : α) (byte : UInt8) (word rest : List UInt8)
    : Reads (fun cursor => return (value, ← cursor.advance.expect word)) (byte :: word) value
        rest := by
  intro place
  refine ⟨(byte :: word).foldl Place.after place, ?_⟩
  simp only [advance, List.cons_append, expect_append]
  rfl

/-- Blanks are passed over up to a byte that is none. -/
theorem skipBlanks_append {blanks : List UInt8} (blank : ∀ byte ∈ blanks, isBlank byte)
    {byte : UInt8} (stop : ¬ isBlank byte) (place : Place) (rest : List UInt8)
    : skipBlanks ⟨place, blanks ++ byte :: rest⟩ =
        ⟨blanks.foldl Place.after place, byte :: rest⟩ := by
  simp only [skipBlanks]
  induction blanks generalizing place with
  | nil => simp [skipBlanksFrom, stop]
  | cons first blanks hyp =>
    have next := hyp (fun byte within => blank byte (List.mem_cons_of_mem _ within))
      (place.after first)
    simpa [skipBlanksFrom, blank first List.mem_cons_self] using next

theorem skipBlanks_stop {byte : UInt8} (stop : ¬ isBlank byte) (place : Place) (rest : List UInt8)
    : skipBlanks ⟨place, byte :: rest⟩ = ⟨place, byte :: rest⟩ :=
  skipBlanks_append (List.forall_mem_nil _) stop place rest

end Cursor

end Scratchpad.Json
