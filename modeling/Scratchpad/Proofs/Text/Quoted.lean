import Mathlib.Logic.Function.Defs
import Scratchpad.Text.Quoted

/-! Quoted text is read back. Every character in quotation marks, whether it stands for itself or
is escaped, is the first that a reader finds there, whatever is behind it; so no two texts are
quoted alike.
-/

namespace Scratchpad.Text

------------------------------------------------------------------------------------------
-- Numbers in base 16
------------------------------------------------------------------------------------------

/-- The value of a digit of base 16, of which those above 9 are small letters. -/
def hexDigitValue (digit : Char) : Nat :=
  if digit.isDigit then digit.toNat - '0'.toNat else digit.toNat - 'a'.toNat + 10

/-- The number that digits of base 16 make up. -/
def hexNumber (digits : List Char) : Nat :=
  digits.foldl (fun number digit => 16 * number + hexDigitValue digit) 0

theorem hexDigitValue_digitChar {value : Nat} (small : value < 16)
    : hexDigitValue value.digitChar = value := by
  have all : ∀ value : Fin 16, hexDigitValue value.val.digitChar = value.val := by decide
  exact all ⟨value, small⟩

theorem digitChar_ne_brace {value : Nat} (small : value < 16)
    : value.digitChar ≠ '\x7d' := by
  have all : ∀ value : Fin 16, value.val.digitChar ≠ '\x7d' := by decide
  exact all ⟨value, small⟩

/-- The digits of a number make it up again, by induction from all but the last of them. -/
theorem hexNumber_toDigits (number : Nat)
    : hexNumber (Nat.toDigits 16 number) = number := by
  induction number using Nat.strongRecOn with
  | ind number hyp =>
    by_cases short : number < 16
    · rw [Nat.toDigits_of_lt_base short]
      simpa [hexNumber] using hexDigitValue_digitChar short
    · have shorter := hyp (number / 16) (by omega)
      have last := hexDigitValue_digitChar (Nat.mod_lt number (by decide : 16 > 0))
      rw [Nat.toDigits_of_base_le (by decide) (by omega), hexNumber, List.foldl_append]
      rw [hexNumber] at shorter
      rw [shorter, List.foldl_cons, List.foldl_nil, last]
      exact Nat.div_add_mod number 16

theorem ne_brace_of_mem_toDigits (number : Nat)
    : ∀ digit ∈ Nat.toDigits 16 number, digit ≠ '\x7d' := by
  induction number using Nat.strongRecOn with
  | ind number hyp =>
    intro digit member
    by_cases short : number < 16
    · rw [Nat.toDigits_of_lt_base short] at member
      rw [List.mem_singleton.mp member]
      exact digitChar_ne_brace short
    · rw [Nat.toDigits_of_base_le (by decide) (by omega)] at member
      rcases List.mem_append.mp member with earlier | last
      · exact hyp (number / 16) (by omega) digit earlier
      · rw [List.mem_singleton.mp last]
        exact digitChar_ne_brace (Nat.mod_lt number (by decide))

------------------------------------------------------------------------------------------
-- Characters
------------------------------------------------------------------------------------------

/-- The character that a letter behind a backslash stands for. -/
def escaped? : Char → Option Char
  | '"' => some '"'
  | '\\' => some '\\'
  | '0' => some '\x00'
  | 't' => some '\t'
  | 'n' => some '\n'
  | 'r' => some '\r'
  | _ => none

/-- The character whose number stands between braces, and what is behind it. -/
def readNumbered (chars : List Char) : Char × List Char :=
  let digits := chars.takeWhile (· != '\x7d')
  (Char.ofNat (hexNumber digits), chars.drop (digits.length + 1))

/-- The first character of quoted text, and what is behind it; none at a quotation mark or where the
text ends.
-/
def readChar? : List Char → Option (Char × List Char)
  | '\\' :: 'u' :: '\x7b' :: rest => some (readNumbered rest)
  | '\\' :: letter :: rest => (escaped? letter).map fun char => (char, rest)
  | '"' :: _ => none
  | char :: rest => some (char, rest)
  | [] => none

theorem readNumbered_toDigits (char : Char) (rest : List Char)
    : readNumbered (Nat.toDigits 16 char.toNat ++ '\x7d' :: rest) = (char, rest) := by
  have digits
      : (Nat.toDigits 16 char.toNat ++ '\x7d' :: rest).takeWhile (· != '\x7d')
        = Nat.toDigits 16 char.toNat := by
    rw [List.takeWhile_append_of_pos, List.takeWhile_cons_of_neg, List.append_nil]
    · simp
    · intro digit member
      simpa using ne_brace_of_mem_toDigits _ digit member
  simp only [readNumbered, digits, hexNumber_toDigits, Char.ofNat_toNat]
  rw [List.drop_append, List.drop_of_length_le (by omega)]
  simp

theorem readChar?_plain {char : Char} (mark : char ≠ '"') (backslash : char ≠ '\\')
    (rest : List Char)
    : readChar? (char :: rest) = some (char, rest) := by
  rw [readChar?.eq_def]
  split
  · rename_i same
    exact absurd (List.cons.inj same).1 backslash
  · rename_i same
    exact absurd (List.cons.inj same).1 backslash
  · rename_i same
    exact absurd (List.cons.inj same).1 mark
  · rename_i same
    obtain ⟨rfl, rfl⟩ := List.cons.inj same
    rfl
  · contradiction

/-- A character is read back in front of anything, by the cases of how it is quoted. -/
theorem readChar?_quotedChar (char : Char) (rest : List Char)
    : readChar? (quotedChar char ++ rest) = some (char, rest) := by
  rw [quotedChar]
  split
  next same => rw [same]; rfl
  next mark =>
    split
    next same => rw [same]; rfl
    next backslash =>
      split
      next same => rw [same]; rfl
      split
      next same => rw [same]; rfl
      split
      next same => rw [same]; rfl
      split
      next same => rw [same]; rfl
      split
      next =>
        rw [List.append_assoc, List.append_assoc]
        exact congrArg some (readNumbered_toDigits char rest)
      next => exact readChar?_plain mark backslash rest

------------------------------------------------------------------------------------------
-- Texts
------------------------------------------------------------------------------------------

/-- Characters that are quoted alike are the same, by induction on one list of them. -/
theorem flatMap_quotedChar_inj {first second : List Char}
    (same : first.flatMap quotedChar = second.flatMap quotedChar)
    : first = second := by
  induction first generalizing second with
  | nil =>
      cases second with
      | nil => rfl
      | cons char chars =>
          have read := congrArg readChar? same
          rw [List.flatMap_cons, readChar?_quotedChar] at read
          cases read
  | cons char chars hyp =>
      have read := congrArg readChar? same
      rw [List.flatMap_cons, readChar?_quotedChar] at read
      cases second with
      | nil => cases read
      | cons other others =>
          rw [List.flatMap_cons, readChar?_quotedChar] at read
          obtain ⟨rfl, behind⟩ := Prod.mk.inj (Option.some.inj read)
          rw [hyp behind]

/-- Texts that are quoted alike are the same. -/
theorem quote_injective
    : Function.Injective quote := by
  intro first second same
  have chars : quotedChars first.toList = quotedChars second.toList :=
    String.ofList_injective same
  have body : first.toList.flatMap quotedChar = second.toList.flatMap quotedChar :=
    List.append_cancel_right (List.cons.inj chars).2
  exact String.toList_injective (flatMap_quotedChar_inj body)

end Scratchpad.Text
