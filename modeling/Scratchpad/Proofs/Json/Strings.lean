import Scratchpad.Proofs.Json.Bytes

/-! Strings in JSON texts. Between the quotation marks a text can be spelled in many ways, as
characters can stand for themselves or be escaped; a reader gives the text back from all of them.
What is written is one of them.
-/

namespace Scratchpad.Json

------------------------------------------------------------------------------------------
-- Spellings
------------------------------------------------------------------------------------------

/-- The value of a digit of base 16, in either case. -/
def hexDigitValue? (char : Char) : Option Nat :=
  if '0' ≤ char ∧ char ≤ '9' then
    some (char.toNat - 48)
  else if 'A' ≤ char ∧ char ≤ 'F' then
    some (char.toNat - 55)
  else if 'a' ≤ char ∧ char ≤ 'f' then
    some (char.toNat - 87)
  else
    none

/-- The value of four digits of base 16. -/
def hexUnit? (a b c d : Char) : Option Nat := do
  let a ← hexDigitValue? a
  let b ← hexDigitValue? b
  let c ← hexDigitValue? c
  let d ← hexDigitValue? d
  return a * 0x1000 + b * 0x100 + c * 0x10 + d

/-- The character that a letter behind a backslash stands for. -/
def escapeMeaning? : Char → Option Char
  | '"' => some '"'
  | '\\' => some '\\'
  | '/' => some '/'
  | 'b' => some '\x08'
  | 'f' => some '\x0c'
  | 'n' => some '\n'
  | 'r' => some '\r'
  | 't' => some '\t'
  | _ => none

/-- Whether a character may stand for itself in a string. -/
def Bare (char : Char) : Prop :=
  0x20 ≤ char.toNat ∧ char ≠ '"' ∧ char ≠ '\\'

/-- How a text can be spelled between quotation marks: a character is bare, escaped by a letter, or
escaped by its number in base 16, which takes two escapes if it is beyond 16 bits.
-/
inductive Spelling : List Char → List Char → Prop where
  | nil : Spelling [] []
  | bare {char : Char} {body text : List Char} (self : Bare char) (behind : Spelling body text)
    : Spelling (char :: body) (char :: text)
  | letter {letter char : Char} {body text : List Char}
      (meaning : escapeMeaning? letter = some char) (behind : Spelling body text)
    : Spelling ('\\' :: letter :: body) (char :: text)
  | unit {a b c d : Char} {unit : Nat} {body text : List Char}
      (digits : hexUnit? a b c d = some unit) (alone : unit < 0xD800 ∨ 0xDFFF < unit)
      (behind : Spelling body text)
    : Spelling ('\\' :: 'u' :: a :: b :: c :: d :: body) (Char.ofNat unit :: text)
  | pair {a b c d e f g h : Char} {high low : Nat} {body text : List Char}
      (first : hexUnit? a b c d = some high) (highRange : 0xD800 ≤ high ∧ high ≤ 0xDBFF)
      (second : hexUnit? e f g h = some low) (lowRange : 0xDC00 ≤ low ∧ low ≤ 0xDFFF)
      (behind : Spelling body text)
    : Spelling
        ('\\' :: 'u' :: a :: b :: c :: d :: '\\' :: 'u' :: e :: f :: g :: h :: body)
        (Char.ofNat (0x10000 + (high - 0xD800) * 0x400 + (low - 0xDC00)) :: text)

/-- A digit of base 16 is a byte that a reader knows as one. -/
theorem utf8EncodeChar_of_hexDigitValue? {char : Char} {value : Nat}
    (digit : hexDigitValue? char = some value)
    : ∃ byte, String.utf8EncodeChar char = [byte] ∧ hexValue? byte = some value := by
  simp only [hexDigitValue?, Char.le_def, UInt32.le_iff_toNat_le, Char.toNat_val] at digit
  have ascii : char.toNat < 128 := by
    repeat' split at digit
    all_goals first | contradiction | skip
    all_goals
      rename_i range
      have := range.2
      simp at this
      omega
  refine ⟨_, utf8EncodeChar_ascii ascii, ?_⟩
  have same : (UInt8.ofNat char.toNat).toNat = char.toNat := by
    rw [UInt8.toNat_ofNat']
    omega
  simp only [hexValue?, UInt8.le_iff_toNat_le, same]
  exact digit

/-- An escape in base 16 is four bytes that a reader knows as its number. -/
theorem utf8_of_hexUnit? {a b c d : Char} {unit : Nat} (digits : hexUnit? a b c d = some unit)
    (chars : List Char)
    : ∃ w x y z, utf8 (a :: b :: c :: d :: chars) = w :: x :: y :: z :: utf8 chars ∧
        hexValue4? w x y z = some unit := by
  simp only [hexUnit?, Option.bind_eq_bind, Option.bind_eq_some_iff, Option.pure_def,
    Option.some.injEq] at digits
  obtain ⟨_, digitA, _, digitB, _, digitC, _, digitD, rfl⟩ := digits
  obtain ⟨w, byteA, valueA⟩ := utf8EncodeChar_of_hexDigitValue? digitA
  obtain ⟨x, byteB, valueB⟩ := utf8EncodeChar_of_hexDigitValue? digitB
  obtain ⟨y, byteC, valueC⟩ := utf8EncodeChar_of_hexDigitValue? digitC
  obtain ⟨z, byteD, valueD⟩ := utf8EncodeChar_of_hexDigitValue? digitD
  refine ⟨w, x, y, z, by simp [utf8_cons, byteA, byteB, byteC, byteD], ?_⟩
  simp only [hexValue4?, valueA, valueB, valueC, valueD, Option.bind_eq_bind, Option.bind_some,
    Option.pure_def, Option.some.injEq]
  omega

/-- A letter that can be escaped is a byte that a reader knows as such. -/
theorem utf8_of_escapeMeaning? {letter char : Char} (meaning : escapeMeaning? letter = some char)
    : ∃ byte meant, String.utf8EncodeChar letter = [byte] ∧ shortEscape? byte = some meant ∧
        String.utf8EncodeChar char = [meant] := by
  unfold escapeMeaning? at meaning
  split at meaning
  all_goals first | contradiction | skip
  all_goals
    obtain rfl := Option.some.inj meaning
    exact ⟨_, _, utf8EncodeChar_ascii (by decide), by decide, utf8EncodeChar_ascii (by decide)⟩

------------------------------------------------------------------------------------------
-- Reading a spelling
------------------------------------------------------------------------------------------

namespace Cursor

variable (text : Array UInt8) (place : Place) (rest : List UInt8)

/-- Bytes of bare characters are read as they are. -/
theorem stringFrom_bare {bytes : List UInt8}
    (bare : ∀ byte ∈ bytes, 32 ≤ byte ∧ byte ≠ 34 ∧ byte ≠ 92)
    : stringFrom .plain text place (bytes ++ rest) =
        stringFrom .plain (text ++ bytes.toArray) (bytes.foldl Place.after place) rest := by
  induction bytes generalizing text place with
  | nil => simp
  | cons byte bytes hyp =>
    obtain ⟨printed, unquoted, unescaped⟩ := bare byte List.mem_cons_self
    have step : StringState.plain.step text byte = .go .plain (text.push byte) := by
      simp only [StringState.step, unquoted, unescaped, UInt8.not_lt.mpr printed, if_false]
    simp only [List.cons_append, stringFrom, step, List.foldl_cons]
    rw [hyp _ _ fun byte within => bare byte (List.mem_cons_of_mem _ within)]
    simp

/-- An escaped letter is read as what it stands for. -/
theorem stringFrom_letter {byte meant : UInt8} (meaning : shortEscape? byte = some meant)
    : ∃ behind, stringFrom .plain text place (92 :: byte :: rest) =
        stringFrom .plain (text.push meant) behind rest := by
  refine ⟨(place.after 92).after byte, ?_⟩
  simp [stringFrom, StringState.step, meaning]

/-- An escape of a character of its own is read as that character. -/
theorem stringFrom_unit {a b c d : UInt8} {unit : Nat} (digits : hexValue4? a b c d = some unit)
    (alone : unit < 0xD800 ∨ 0xDFFF < unit)
    : ∃ behind, stringFrom .plain text place (92 :: 117 :: a :: b :: c :: d :: rest) =
        stringFrom .plain (pushChar text (Char.ofNat unit)) behind rest := by
  have notLow : isLowSurrogate unit = false := by
    simp only [isLowSurrogate, Bool.and_eq_false_iff, decide_eq_false_iff_not]
    omega
  have notHigh : isHighSurrogate unit = false := by
    simp only [isHighSurrogate, Bool.and_eq_false_iff, decide_eq_false_iff_not]
    omega
  refine ⟨((((((place.after 92).after 117).after a).after b).after c).after d), ?_⟩
  simp [stringFrom, StringState.step, shortEscape?, StringStep.ofDigits, digits, notLow, notHigh]

/-- Two escapes of a pair are read as the character of the pair. -/
theorem stringFrom_pair {a b c d e f g h : UInt8} {high low : Nat}
    (first : hexValue4? a b c d = some high) (highRange : 0xD800 ≤ high ∧ high ≤ 0xDBFF)
    (second : hexValue4? e f g h = some low) (lowRange : 0xDC00 ≤ low ∧ low ≤ 0xDFFF)
    : ∃ behind,
        stringFrom .plain text place
            (92 :: 117 :: a :: b :: c :: d :: 92 :: 117 :: e :: f :: g :: h :: rest) =
          stringFrom .plain (pushChar text (pairChar high low)) behind rest := by
  have notLow : isLowSurrogate high = false := by
    simp only [isLowSurrogate, Bool.and_eq_false_iff, decide_eq_false_iff_not]
    omega
  have isHigh : isHighSurrogate high = true := by
    simpa [isHighSurrogate] using highRange
  have isLow : isLowSurrogate low = true := by
    simpa [isLowSurrogate] using lowRange
  refine ⟨[92, 117, a, b, c, d, 92, 117, e, f, g, h].foldl Place.after place, ?_⟩
  simp [stringFrom, StringState.step, shortEscape?, StringStep.ofDigits, first, second, notLow,
    isHigh, isLow]

/-- A spelled text is read as the text. The induction is on the spelling, with what was read before
it and where.
-/
theorem stringFrom_spelling {body chars : List Char} (spelling : Spelling body chars)
    : ∃ behind, stringFrom .plain text place (utf8 body ++ 34 :: rest) =
        .ok (text ++ (utf8 chars).toArray, ⟨behind, rest⟩) := by
  induction spelling generalizing text place with
  | nil => exact ⟨place.after 34, by simp [utf8_nil, stringFrom, StringState.step]⟩
  | bare self spelled hyp =>
    rw [utf8_cons, utf8_cons, List.append_assoc, stringFrom_bare _ _ _
      fun _ => bare_of_mem_utf8EncodeChar self.1 self.2.1 self.2.2]
    obtain ⟨behind, read⟩ := hyp _ _
    exact ⟨behind, by rw [read]; simp⟩
  | @letter _ char body chars meaning spelled hyp =>
    obtain ⟨byte, meant, letterByte, escape, charByte⟩ := utf8_of_escapeMeaning? meaning
    obtain ⟨middle, step⟩ := stringFrom_letter text place (utf8 body ++ 34 :: rest) escape
    obtain ⟨behind, read⟩ := hyp _ middle
    refine ⟨behind, ?_⟩
    rw [utf8_cons, utf8_cons, letterByte]
    exact step.trans (read.trans (by rw [utf8_cons, charByte]; simp))
  | @unit _ _ _ _ unit body chars digits alone spelled hyp =>
    obtain ⟨w, x, y, z, bytes, number⟩ := utf8_of_hexUnit? digits body
    obtain ⟨middle, step⟩ := stringFrom_unit text place (utf8 body ++ 34 :: rest) number alone
    obtain ⟨behind, read⟩ := hyp _ middle
    refine ⟨behind, ?_⟩
    rw [utf8_cons, utf8_cons, bytes]
    exact step.trans (read.trans (by rw [utf8_cons, pushChar]; simp))
  | @pair _ _ _ _ _ _ _ _ high low body chars first highRange second lowRange spelled hyp =>
    obtain ⟨_, _, _, _, firstBytes, firstNumber⟩ := utf8_of_hexUnit? first _
    obtain ⟨_, _, _, _, secondBytes, secondNumber⟩ := utf8_of_hexUnit? second body
    obtain ⟨middle, step⟩ := stringFrom_pair text place (utf8 body ++ 34 :: rest) firstNumber
      highRange secondNumber lowRange
    obtain ⟨behind, read⟩ := hyp _ middle
    refine ⟨behind, ?_⟩
    rw [utf8_cons, utf8_cons, firstBytes, utf8_cons, utf8_cons, secondBytes]
    exact step.trans (read.trans (by rw [utf8_cons, pushChar, pairChar]; simp))

/-- Behind its opening quotation mark, a spelled text is read as the text. -/
theorem string_spelling {body : List Char} {text : String} (spelling : Spelling body text.toList)
    : Reads string (utf8 body ++ [34]) text rest := by
  intro place
  obtain ⟨behind, read⟩ := stringFrom_spelling #[] place rest spelling
  refine ⟨behind, ?_⟩
  rw [List.append_assoc, List.singleton_append]
  simp only [string, read, bind, Except.bind, Array.empty_append, fromUTF8?_utf8]
  rfl

end Cursor

------------------------------------------------------------------------------------------
-- What is written
------------------------------------------------------------------------------------------

/-- The two digits that a control is written with are its number. -/
theorem hexUnit?_hexDigit
    : ∀ value < 0x20,
        hexUnit? '0' '0' (hexDigit (value / 16)) (hexDigit (value % 16)) = some value := by
  decide

/-- What is written of a character is a spelling of it. -/
theorem spelling_escapedChar (char : Char) {body text : List Char} (behind : Spelling body text)
    : Spelling (escapedChar char ++ body) (char :: text) := by
  unfold escapedChar
  repeat' split
  all_goals first | subst char; exact .letter rfl behind | skip
  · rename_i control
    have spelled := Spelling.unit (hexUnit?_hexDigit _ control) (by omega) behind
    rwa [Char.ofNat_toNat] at spelled
  · rename_i unquoted unescaped _ _ _ _ _ printed
    exact .bare ⟨Nat.le_of_not_lt printed, unquoted, unescaped⟩ behind

/-- What is written of a text is a spelling of it. -/
theorem spelling_escaped (text : List Char)
    : Spelling (text.flatMap escapedChar) text := by
  induction text with
  | nil => exact .nil
  | cons char text hyp => exact spelling_escapedChar char hyp

/-- A text is written between quotation marks. -/
theorem toList_quote (text : String)
    : (quote text).toList = '"' :: (text.toList.flatMap escapedChar ++ ['"']) :=
  String.toList_ofList

theorem utf8_quoted (body : List Char)
    : utf8 ('"' :: (body ++ ['"'])) = 34 :: (utf8 body ++ [34]) := by
  rw [utf8_cons, utf8_append]
  rfl

theorem utf8_quote (text : String)
    : utf8 (quote text).toList = 34 :: (utf8 (text.toList.flatMap escapedChar) ++ [34]) := by
  rw [toList_quote, utf8_quoted]

end Scratchpad.Json
