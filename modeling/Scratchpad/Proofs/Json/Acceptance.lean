import Scratchpad.Proofs.Json.Skipping

/-! What the readers of strings and numbers accept. Of the texts of the grammar, a string is read if
it spells a text, which surrogates out of pairs do not; and a number is read as a natural one only
if it is written as one, without a sign, a fraction or an exponent.
-/

namespace Scratchpad.Json

open Grammar

namespace Cursor

/-- With other bytes behind them, a reader gives exactly the values that bytes mean, and stops
behind the bytes.
-/
structure Accepts {α : Type} (reader : Cursor → Except ReadError (α × Cursor))
    (bytes : List UInt8) (meaning : α → Prop) (rest : List UInt8) : Prop where
  reads : ∀ value, meaning value → Reads reader bytes value rest
  meant : ∀ place value after, reader ⟨place, bytes ++ rest⟩ = .ok (value, after) → meaning value

section Accepts

variable {α β : Type} {reader : Cursor → Except ReadError (α × Cursor)}
variable {front back bytes rest : List UInt8} {meaning : α → Prop}

/-- What a reader gives is what it reads. -/
theorem Reads.unique {value other : α} (reads : Reads reader bytes value rest) {place : Place}
    {after : Cursor} (found : reader ⟨place, bytes ++ rest⟩ = .ok (other, after))
    : other = value := by
  obtain ⟨behind, read⟩ := reads place
  exact (Prod.mk.inj (Except.ok.inj (found.symm.trans read))).1

/-- What is read of bytes is all that is accepted of them. -/
theorem Reads.accepts {value : α} (reads : Reads reader bytes value rest)
    : Accepts reader bytes (· = value) rest where
  reads _ same := same ▸ reads
  meant _ _ _ found := reads.unique found

/-- A reader accepts what another accepts that does the same there. -/
theorem Accepts.congr {other : Cursor → Except ReadError (α × Cursor)}
    (accepts : Accepts reader bytes meaning rest)
    (same : ∀ place, other ⟨place, bytes ++ rest⟩ = reader ⟨place, bytes ++ rest⟩)
    : Accepts other bytes meaning rest where
  reads value meant := (accepts.reads value meant).congr same
  meant place value after found := accepts.meant place value after ((same place).symm.trans found)

theorem Accepts.of_iff {other : α → Prop} (accepts : Accepts reader bytes meaning rest)
    (same : ∀ value, other value ↔ meaning value)
    : Accepts reader bytes other rest where
  reads value meant := accepts.reads value ((same value).mp meant)
  meant place value after found := (same value).mpr (accepts.meant place value after found)

/-- What a reader gives that goes on behind a value is meant by the bytes behind that. -/
theorem Accepts.bind {next : α → Cursor → Except ReadError (β × Cursor)} {result : α → β → Prop}
    (first : Accepts reader front meaning (back ++ rest))
    (second : ∀ value, meaning value → Accepts (next value) back (result value) rest)
    : Accepts (fun cursor => reader cursor >>= fun read => next read.1 read.2) (front ++ back)
        (fun last => ∃ value, meaning value ∧ result value last) rest where
  reads last meant := by
    obtain ⟨value, meansFirst, meansLast⟩ := meant
    exact (first.reads value meansFirst).bind ((second value meansFirst).reads last meansLast)
  meant place last after found := by
    rw [List.append_assoc] at found
    cases read : reader ⟨place, front ++ (back ++ rest)⟩ with
    | error error => simp [read, Bind.bind, Except.bind] at found
    | ok middle =>
      obtain ⟨value, cursor⟩ := middle
      have meansFirst := first.meant place value cursor read
      obtain ⟨middle, behind⟩ := first.reads value meansFirst place
      obtain ⟨-, rfl⟩ := Prod.mk.inj (Except.ok.inj (read.symm.trans behind))
      rw [read] at found
      exact ⟨value, meansFirst, (second value meansFirst).meant middle last after found⟩

/-- Values that are made of others are accepted of the bytes of these. -/
theorem Accepts.map (make : α → β) (accepts : Accepts reader bytes meaning rest)
    : Accepts (fun cursor => reader cursor >>= fun read => .ok (make read.1, read.2)) bytes
        (fun result => ∃ value, meaning value ∧ result = make value) rest where
  reads _ made := by
    obtain ⟨value, meant, rfl⟩ := made
    exact (accepts.reads value meant).map make
  meant place result after found := by
    cases read : reader ⟨place, bytes ++ rest⟩ with
    | error error => simp [read, Bind.bind, Except.bind] at found
    | ok first =>
      rw [read] at found
      exact ⟨first.1, accepts.meant place _ _ read, (Prod.mk.inj (Except.ok.inj found)).1.symm⟩

/-- Of bytes that mean nothing nothing is accepted. -/
theorem Accepts.nothing (never : ∀ place read, reader ⟨place, bytes ++ rest⟩ ≠ .ok read)
    (meansNothing : ∀ value, ¬ meaning value)
    : Accepts reader bytes meaning rest where
  reads value meant := absurd meant (meansNothing value)
  meant place _ _ found := absurd found (never place _)

/-- What is accepted of bytes is accepted of them behind others by a reader that goes on there. -/
theorem Accepts.behind {other : Cursor → Except ReadError (α × Cursor)}
    (accepts : Accepts reader bytes meaning rest)
    (goesOn : ∀ place, ∃ middle,
      other ⟨place, front ++ (bytes ++ rest)⟩ = reader ⟨middle, bytes ++ rest⟩)
    : Accepts other (front ++ bytes) meaning rest where
  reads value meant place := by
    obtain ⟨middle, same⟩ := goesOn place
    rw [List.append_assoc, same]
    exact accepts.reads value meant middle
  meant place value after found := by
    obtain ⟨middle, same⟩ := goesOn place
    rw [List.append_assoc, same] at found
    exact accepts.meant middle value after found

/-- What is accepted behind a byte is accepted of the bytes behind it. -/
theorem Accepts.advance (byte : UInt8) (accepts : Accepts reader bytes meaning rest)
    : Accepts (fun cursor => reader cursor.advance) (byte :: bytes) meaning rest where
  reads value meant := (accepts.reads value meant).advance byte
  meant place := accepts.meant (place.after byte)

end Accepts

variable {rest : List UInt8}

------------------------------------------------------------------------------------------
-- Strings
------------------------------------------------------------------------------------------

variable {text next : Array UInt8} {state : StringState} {place : Place}

/-- Four digits lead to what they complete. -/
theorem stringFrom_digits_go (place : Place) (rest : List UInt8) {a b c d : UInt8}
    {high : Option Nat} (step : StringStep.ofDigits text high (hexValue4? a b c d) = .go state next)
    : ∃ behind, stringFrom (.digits [] high) text place (a :: b :: c :: d :: rest) =
        stringFrom state next behind rest := by
  refine ⟨(((place.after a).after b).after c).after d, ?_⟩
  simp [stringFrom, StringState.step, step]

theorem stringFrom_digits_wrong {a b c d : UInt8} {high : Option Nat} {fault : Fault}
    (step : StringStep.ofDigits text high (hexValue4? a b c d) = .wrong fault)
    {read : Array UInt8 × Cursor}
    : stringFrom (.digits [] high) text place (a :: b :: c :: d :: rest) ≠ .ok read := by
  simp [stringFrom, StringState.step, step]

/-- Behind the first surrogate of a pair nothing but a backslash is read. -/
theorem stringFrom_betweenPair_ne_ok {byte : UInt8} (other : byte ≠ 92) {high : Nat}
    {read : Array UInt8 × Cursor}
    : stringFrom (.betweenPair high) text place (byte :: rest) ≠ .ok read := by
  simp [stringFrom, StringState.step, other]

/-- Behind that backslash nothing but an escape in base 16 is read. -/
theorem stringFrom_escapeInPair_ne_ok {byte : UInt8} (other : byte ≠ 117) {high : Nat}
    {read : Array UInt8 × Cursor}
    : stringFrom (.escapeInPair high) text place (byte :: rest) ≠ .ok read := by
  simp [stringFrom, StringState.step, other]

/-- A reader that comes to the end of what stands between quotation marks has read a text that is
spelled so; if it was behind the first surrogate of a pair, a text spelled by this and what follows.
-/
structure Spells (body : List Char) (rest : List UInt8) : Prop where
  plain : ∀ {text place bytes after},
    stringFrom .plain text place (utf8 body ++ 34 :: rest) = .ok (bytes, after) →
      ∃ chars, Spelling body chars ∧ bytes = text ++ (utf8 chars).toArray
  behindHigh : ∀ {a b c d high}, hexUnit? a b c d = some high → 0xD800 ≤ high ∧ high ≤ 0xDBFF →
    ∀ {text place bytes after},
      stringFrom (.betweenPair high) text place (utf8 body ++ 34 :: rest) = .ok (bytes, after) →
        ∃ chars, Spelling ('\\' :: 'u' :: a :: b :: c :: d :: body) chars ∧
          bytes = text ++ (utf8 chars).toArray

theorem spells_nil
    : Spells [] rest where
  plain {text place _ _} found := by
    have closed : stringFrom .plain text place (34 :: rest) = .ok (text, ⟨place.after 34, rest⟩) :=
      rfl
    obtain ⟨rfl, -⟩ := Prod.mk.inj (Except.ok.inj (closed.symm.trans found))
    exact ⟨[], .nil, by simp [utf8_nil]⟩
  behindHigh _ _ _ _ _ _ found := absurd found (stringFrom_betweenPair_ne_ok (by decide))

theorem Spells.bare {char : Char} {body : List Char} (spells : Spells body rest)
    (self : Bare char)
    : Spells (char :: body) rest where
  plain {text _ _ _} found := by
    rw [utf8_cons, List.append_assoc, stringFrom_bare _ _ _
      fun _ => bare_of_mem_utf8EncodeChar self.1 self.2.1 self.2.2] at found
    obtain ⟨chars, spelling, rfl⟩ := spells.plain found
    exact ⟨char :: chars, .bare self spelling, by simp [utf8_cons]⟩
  behindHigh _ _ _ _ _ _ found := by
    have size : (String.utf8EncodeChar char).length ≠ 0 := by
      rw [String.length_utf8EncodeChar]
      exact Nat.ne_of_gt char.utf8Size_pos
    obtain ⟨byte, bytes, encoded⟩ := List.exists_cons_of_length_pos (Nat.pos_of_ne_zero size)
    have within : byte ∈ String.utf8EncodeChar char := encoded ▸ List.mem_cons_self
    have other := (bare_of_mem_utf8EncodeChar self.1 self.2.1 self.2.2 within).2.2
    rw [utf8_cons, encoded] at found
    exact absurd found (stringFrom_betweenPair_ne_ok other)

theorem Spells.letter {letter : Char} {body : List Char} (spells : Spells body rest)
    (escape : (escapeMeaning? letter).isSome)
    : Spells ('\\' :: letter :: body) rest := by
  obtain ⟨char, meaning⟩ := Option.isSome_iff_exists.mp escape
  obtain ⟨byte, meant, letterByte, short, charByte⟩ := utf8_of_escapeMeaning? meaning
  have bytes : utf8 ('\\' :: letter :: body) = 92 :: byte :: utf8 body := by
    rw [utf8_cons, utf8_cons, letterByte]
    rfl
  constructor
  · intro text place read after found
    obtain ⟨middle, step⟩ := stringFrom_letter text place (utf8 body ++ 34 :: rest) short
    rw [bytes, List.cons_append, List.cons_append, step] at found
    obtain ⟨chars, spelling, rfl⟩ := spells.plain found
    exact ⟨char :: chars, .letter meaning spelling, by simp [utf8_cons, charByte]⟩
  · intro a b c d high _ _ text place read after found
    have other : byte ≠ 117 := by
      rintro rfl
      cases short
    rw [bytes] at found
    exact absurd found (stringFrom_escapeInPair_ne_ok other)

theorem Spells.unit {a b c d : Char} {unit : Nat} {body : List Char} (spells : Spells body rest)
    (digits : hexUnit? a b c d = some unit)
    : Spells ('\\' :: 'u' :: a :: b :: c :: d :: body) rest := by
  obtain ⟨w, x, y, z, encoded, number⟩ := utf8_of_hexUnit? digits body
  have bytes : utf8 ('\\' :: 'u' :: a :: b :: c :: d :: body) =
      92 :: 117 :: w :: x :: y :: z :: utf8 body := by
    rw [utf8_cons, utf8_cons, encoded]
    rfl
  constructor
  · intro text place read after found
    rw [bytes] at found
    by_cases low : isLowSurrogate unit = true
    · have step : StringStep.ofDigits text none (hexValue4? w x y z) = .wrong .loneSurrogate := by
        simp [StringStep.ofDigits, number, low]
      exact absurd found (stringFrom_digits_wrong step)
    by_cases high : isHighSurrogate unit = true
    · have step : StringStep.ofDigits text none (hexValue4? w x y z) =
          .go (.betweenPair unit) text := by
        simp [StringStep.ofDigits, number, low, high]
      obtain ⟨behind, unitRead⟩ := stringFrom_digits_go ((place.after 92).after 117)
        (utf8 body ++ 34 :: rest) step
      exact spells.behindHigh digits (by simpa [isHighSurrogate] using high)
        (unitRead.symm.trans found)
    · have alone : unit < 0xD800 ∨ 0xDFFF < unit := by
        simp only [isLowSurrogate, isHighSurrogate, Bool.and_eq_true, decide_eq_true_eq] at low high
        omega
      obtain ⟨middle, step⟩ := stringFrom_unit text place (utf8 body ++ 34 :: rest) number alone
      obtain ⟨chars, spelling, rfl⟩ := spells.plain (step.symm.trans found)
      exact ⟨Char.ofNat unit :: chars, .unit digits alone spelling, by simp [utf8_cons, pushChar]⟩
  · intro e f g h high first highRange text place read after found
    rw [bytes] at found
    by_cases low : isLowSurrogate unit = true
    · have step : StringStep.ofDigits text (some high) (hexValue4? w x y z) =
          .go .plain (pushChar text (pairChar high unit)) := by
        simp [StringStep.ofDigits, number, low]
      obtain ⟨behind, unitRead⟩ := stringFrom_digits_go ((place.after 92).after 117)
        (utf8 body ++ 34 :: rest) step
      obtain ⟨chars, spelling, rfl⟩ := spells.plain (unitRead.symm.trans found)
      exact ⟨pairChar high unit :: chars,
        .pair first highRange digits (by simpa [isLowSurrogate] using low) spelling,
        by simp [utf8_cons, pushChar]⟩
    · have step : StringStep.ofDigits text (some high) (hexValue4? w x y z) =
          .wrong .loneSurrogate := by
        simp [StringStep.ofDigits, number, low]
      exact absurd found (stringFrom_digits_wrong step)

theorem spells_stringBody {body : List Char} (isBody : StringBody body)
    : Spells body rest := by
  induction isBody with
  | nil => exact spells_nil
  | bare self _ spells => exact spells.bare self
  | letter escape _ spells => exact spells.letter escape
  | unit digits _ spells =>
    obtain ⟨unit, number⟩ := Option.isSome_iff_exists.mp digits
    exact spells.unit number

/-- Of what may stand between quotation marks, a reader accepts what spells a text. -/
theorem accepts_string {body : List Char} (isBody : StringBody body) (rest : List UInt8)
    : Accepts string (utf8 body ++ [34]) (fun text => Spelling body text.toList) rest where
  reads _ spelling := string_spelling rest spelling
  meant place text after found := by
    rw [List.append_assoc, List.singleton_append] at found
    simp only [string, bind, Except.bind, pure, Except.pure, fail] at found
    split at found
    · contradiction
    rename_i bytes read
    obtain ⟨chars, spelling, same⟩ := (spells_stringBody isBody).plain read
    have valid : String.fromUTF8? ⟨bytes.1⟩ = some (String.ofList chars) := by
      rw [same, Array.empty_append, ← fromUTF8?_utf8, String.toList_ofList]
    obtain ⟨rfl, -⟩ : String.ofList chars = text ∧ _ := by simpa [valid] using found
    rwa [String.toList_ofList]

------------------------------------------------------------------------------------------
-- Numbers
------------------------------------------------------------------------------------------

/-- Figures without needless zeros are an integer part, whose value is kept if none of them was
passed over.
-/
theorem integerPart_row {figures : List Char} (plain : Plain figures) (ends : NoFigure rest)
    (place : Place)
    : ∃ row behind, integerPart ⟨place, utf8 figures ++ rest⟩ = .ok (row, ⟨behind, rest⟩) ∧
        (row.dropped = 0 → row.value = Nat.ofDigitChars 10 figures 0) := by
  obtain rfl | ⟨first, others, rfl, nonzero, digits⟩ := plain
  · obtain ⟨row, behind, read, value, -⟩ :=
      integerPart_plain (.inl rfl) (Nat.zero_le _) place ends
    exact ⟨row, behind, read, fun _ => value⟩
  · obtain ⟨row, behind, read, kept⟩ :=
      figuresFrom_figures digits greatestNatural ⟨0, 0, 0, none⟩ place ends
    refine ⟨row, behind, ?_, fun fresh => (kept fresh).2⟩
    rw [integerPart_nonzero nonzero digits, figures, read]

theorem Figures.natural_of_numeral? {figures : Figures} {negative : Bool} {value : Nat}
    (found : figures.numeral? negative = some (.natural value))
    : negative = false ∧ figures.whole = true ∧ figures.significand = value := by
  simp only [numeral?] at found
  split at found
  · rename_i unsigned
    obtain ⟨whole, plain⟩ := by simpa using unsigned
    exact ⟨plain, whole, by simpa using found⟩
  · split at found
    · simp at found
    · simp at found

/-- Behind a fraction an integer is not the number as it is written. -/
theorem fractionPart_whole {row : FigureRow} {cursor after : Cursor} {figures : Figures}
    (found : cursor.fractionPart row = .ok (figures, after)) (whole : figures.whole = true)
    : after = cursor ∧ cursor.peek? ≠ some 46 ∧ row.dropped = 0 ∧
        figures.significand = row.value := by
  simp only [fractionPart, failAhead, fail] at found
  split at found
  · repeat' split at found
    all_goals first | contradiction | skip
    obtain ⟨rfl, -⟩ := by simpa using found
    contradiction
  · rename_i noPoint
    obtain ⟨rfl, rfl⟩ := by simpa using found
    exact ⟨rfl, noPoint, by simpa using whole, rfl⟩

theorem Figures.whole_of_withExponent {before figures : Figures} {negative : Bool}
    {row : FigureRow} (found : before.withExponent negative row = .ok figures)
    : figures.whole = false := by
  simp only [withExponent] at found
  repeat' split at found
  all_goals first | contradiction | skip
  all_goals
    obtain rfl := Except.ok.inj found
    rfl

/-- Behind an exponent an integer is not the number as it is written. -/
theorem exponentPart_whole {before figures : Figures} {cursor after : Cursor}
    (found : cursor.exponentPart before = .ok (figures, after)) (whole : figures.whole = true)
    : after = cursor ∧ cursor.atExponent = false ∧ figures = before := by
  simp only [exponentPart, fail] at found
  split at found
  · repeat' split at found
    all_goals first | contradiction | skip
    rename_i exponent
    obtain ⟨rfl, -⟩ := by simpa using found
    exact absurd (Figures.whole_of_withExponent exponent) (by simp [whole])
  · rename_i noExponent
    obtain ⟨rfl, rfl⟩ := by simpa using found
    exact ⟨rfl, by simpa using noExponent, rfl⟩

/-- A number that is read as a natural one is an integer part alone. -/
theorem integerPart_of_natural {negative : Bool} {cursor after : Cursor} {value : Nat}
    (found : cursor.unsignedNumber negative = .ok (.natural value, after))
    : negative = false ∧ ∃ row, cursor.integerPart = .ok (row, after) ∧ row.dropped = 0 ∧
        row.value = value ∧ after.peek? ≠ some 46 ∧ after.atExponent = false := by
  simp only [unsignedNumber, bind, Except.bind, pure, Except.pure, fail] at found
  repeat' split at found
  all_goals first | contradiction | skip
  rename_i _ read integer _ _ fraction _ _ exponent _ _ number
  obtain ⟨rfl, rfl⟩ := by simpa using found
  obtain ⟨unsigned, whole, rfl⟩ := Figures.natural_of_numeral? number
  obtain ⟨behind, noExponent, same⟩ := exponentPart_whole exponent whole
  rw [same] at whole
  obtain ⟨middle, noPoint, fresh, value⟩ := fractionPart_whole fraction whole
  rw [behind, middle]
  rw [middle] at noExponent
  exact ⟨unsigned, read.1, integer, fresh, same ▸ value.symm, noPoint, noExponent⟩

/-- A number that is read as a natural one is written as figures alone, which make it. -/
theorem plain_of_number {chars : List Char} (isNumber : Number chars) (ends : EndsNumber rest)
    {value : Nat} {after : Cursor}
    (found : number ⟨place, utf8 chars ++ rest⟩ = .ok (.natural value, after))
    : Plain chars ∧ Nat.ofDigitChars 10 chars 0 = value := by
  obtain @⟨_, integer, fraction, exponent, isSign, plain, isFraction, isExponent⟩ := isNumber
  obtain rfl | rfl := isSign
  · have endsFraction := endsFraction_exponent isExponent ends
    have noFigure := noFigure_fraction isFraction endsFraction.1
    obtain ⟨row, behind, integerPart, value⟩ := integerPart_row plain noFigure place
    have unsigned : peek? ⟨place, utf8 integer ++ (utf8 fraction ++ (utf8 exponent ++ rest))⟩ ≠
        some 45 := peek?_of_atFigure (atFigure_plain plain place _) (by decide)
    rw [List.nil_append, utf8_append, utf8_append, List.append_assoc, List.append_assoc, number,
      if_neg unsigned] at found
    obtain ⟨-, whole, read, fresh, rfl, noPoint, noExponent⟩ := integerPart_of_natural found
    obtain ⟨rfl, rfl⟩ := Prod.mk.inj (Except.ok.inj (integerPart.symm.trans read))
    cases isFraction with
    | point => exact absurd rfl noPoint
    | none =>
      cases isExponent with
      | power isLetter isSign isFigures =>
        have sees := (skipSign_exponent isLetter isSign isFigures behind rest).1
        exact absurd (noExponent.symm.trans sees) Bool.false_ne_true
      | none =>
        rw [List.nil_append, List.append_nil, List.append_nil]
        exact ⟨plain, (value fresh).symm⟩
  · have negative : unsignedNumber true _ = .ok (.natural value, after) := found
    exact absurd (integerPart_of_natural negative).1 Bool.noConfusion

end Cursor

end Scratchpad.Json
