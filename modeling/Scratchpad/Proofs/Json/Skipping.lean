import Scratchpad.Json.Skip
import Scratchpad.Proofs.Json.Trees

/-! Passing over values. Every text of the grammar is passed over, whatever is nested in it, and the
reader goes on behind it.
-/

namespace Scratchpad.Json

open Grammar

------------------------------------------------------------------------------------------
-- Blanks
------------------------------------------------------------------------------------------

theorem isBlank_of_mem_utf8 {blanks : List Char} (blank : Blanks blanks)
    : ∀ byte ∈ utf8 blanks, Cursor.isBlank byte := by
  intro byte within
  obtain ⟨char, listed, encoded⟩ := List.mem_flatMap.mp within
  obtain rfl | rfl | rfl | rfl := blank char listed
  all_goals
    rw [utf8EncodeChar_ascii (by decide), List.mem_singleton] at encoded
    subst encoded
    rfl

/-- A number ends before blanks and what ends it behind them. -/
theorem endsNumber_blanks {blanks : List Char} (blank : Blanks blanks) {rest : List UInt8}
    (ends : EndsNumber rest)
    : EndsNumber (utf8 blanks ++ rest) := by
  have all := isBlank_of_mem_utf8 blank
  cases bytes : utf8 blanks with
  | nil => exact ends
  | cons byte bytes =>
    have isBlank := all byte (by rw [‹utf8 blanks = _›]; exact List.mem_cons_self)
    refine endsNumber_cons ?_ _
    simp only [Cursor.isBlank, Bool.or_eq_true, decide_eq_true_eq] at isBlank
    obtain ((rfl | rfl) | rfl) | rfl := isBlank <;> decide

namespace Cursor

variable {place : Place} {rest : List UInt8}

/-- With other bytes behind them, bytes are passed over up to these. -/
def Passes (skipper : Cursor → Except ReadError Cursor) (bytes rest : List UInt8) : Prop :=
  ∀ place, ∃ behind, skipper ⟨place, bytes ++ rest⟩ = .ok ⟨behind, rest⟩

theorem Passes.reads {α : Type} {skipper : Cursor → Except ReadError Cursor} {bytes : List UInt8}
    (passes : Passes skipper bytes rest) (value : α)
    : Reads (fun cursor => return (value, ← skipper cursor)) bytes value rest := by
  intro place
  obtain ⟨behind, skipped⟩ := passes place
  exact ⟨behind, by simp only [skipped]; rfl⟩

------------------------------------------------------------------------------------------
-- Numbers
------------------------------------------------------------------------------------------

/-- Figures are read up to the end of them, and if none was passed over they make the number that
the row has.
-/
theorem figuresFrom_figures {figures : List Char} (digits : ∀ char ∈ figures, char.isDigit)
    (limit : Nat) (row : FigureRow) (place : Place) (ends : NoFigure rest)
    : ∃ after behind,
        figuresFrom limit place row (utf8 figures ++ rest) = (after, ⟨behind, rest⟩) ∧
        (after.dropped = 0 →
          row.dropped = 0 ∧ after.value = Nat.ofDigitChars 10 figures row.value) := by
  induction figures generalizing row place with
  | nil =>
    refine ⟨row, place, ?_, fun fresh => ⟨fresh, rfl⟩⟩
    cases rest with
    | nil => rfl
    | cons byte rest =>
      have stop : ¬ (48 ≤ byte ∧ byte ≤ 57) := ends byte rfl
      simp [utf8_nil, figuresFrom, stop]
  | cons char figures hyp =>
    obtain ⟨byte, encoded, figure, same⟩ :=
      utf8EncodeChar_of_isDigit (digits char List.mem_cons_self)
    obtain ⟨after, behind, read, kept⟩ := hyp
      (fun char within => digits char (List.mem_cons_of_mem _ within))
      (row.add limit (place.after byte) (byte.toNat - 48)) (place.after byte)
    refine ⟨after, behind, ?_, fun fresh => ?_⟩
    · rw [utf8_cons, encoded, List.singleton_append, List.cons_append, figuresFrom, if_pos figure]
      exact read
    · obtain ⟨freshBefore, value⟩ := kept fresh
      rw [Nat.ofDigitChars_cons, show char.toNat - '0'.toNat = byte.toNat - 48 by rw [same]; rfl]
      unfold FigureRow.add at freshBefore value
      split at freshBefore
      · rename_i room
        rw [if_pos room, Nat.mul_comm] at value
        exact ⟨room.1, value⟩
      · contradiction

theorem skipFigures_figures {figures : List Char} (digits : ∀ char ∈ figures, char.isDigit)
    (place : Place) (ends : NoFigure rest)
    : ∃ behind, skipFigures ⟨place, utf8 figures ++ rest⟩ = ⟨behind, rest⟩ := by
  obtain ⟨after, behind, read, -⟩ :=
    figuresFrom_figures digits greatestNatural ⟨0, 0, 0, none⟩ place ends
  exact ⟨behind, by rw [skipFigures, Cursor.figures, read]⟩

theorem skipInteger_plain {integer : List Char} (plain : Plain integer) (ends : NoFigure rest)
    : Passes skipInteger (utf8 integer) rest := by
  intro place
  have sees := atFigure_plain plain place rest
  obtain rfl | ⟨first, others, rfl, nonzero, digits⟩ := plain
  · have stop := atFigure_of_noFigure ends (place.after 48)
    refine ⟨place.after 48, ?_⟩
    show skipInteger ⟨place, 48 :: rest⟩ = _
    simp [skipInteger, peek?, advance, stop]
  · obtain ⟨behind, skipped⟩ := skipFigures_figures digits place ends
    have notZero := peek?_ne_zero (digits first List.mem_cons_self) nonzero others place rest
    exact ⟨behind, by rw [skipInteger, if_neg notZero, if_pos sees, skipped]⟩

/-- Whether a fraction can end before bytes: neither a figure nor a point follows. -/
def EndsFraction (rest : List UInt8) : Prop :=
  NoFigure rest ∧ rest.head? ≠ some 46

theorem atFigure_figures {figures : List Char} (isFigures : Grammar.Figures figures) (place : Place)
    (rest : List UInt8)
    : atFigure ⟨place, utf8 figures ++ rest⟩ = true := by
  obtain ⟨nonempty, digits⟩ := isFigures
  obtain ⟨first, others, rfl⟩ := List.exists_cons_of_ne_nil nonempty
  obtain ⟨byte, encoded, figure, -⟩ := utf8EncodeChar_of_isDigit (digits first List.mem_cons_self)
  rw [utf8_cons, encoded]
  simpa [atFigure] using figure

theorem skipFraction_fraction {fraction : List Char} (isFraction : Fraction fraction)
    (ends : EndsFraction rest)
    : Passes skipFraction (utf8 fraction) rest := by
  intro place
  cases isFraction with
  | none => exact ⟨place, if_neg ends.2⟩
  | @point figures isFigures =>
    obtain ⟨behind, skipped⟩ := skipFigures_figures isFigures.2 (place.after 46) ends.1
    refine ⟨behind, ?_⟩
    show skipFraction ⟨place, 46 :: (utf8 figures ++ rest)⟩ = _
    have sees : peek? ⟨place, 46 :: (utf8 figures ++ rest)⟩ = some 46 := rfl
    rw [skipFraction, if_pos sees, advance_cons, if_pos (atFigure_figures isFigures _ _), skipped]

/-- A letter before an exponent, and perhaps a sign, are passed over up to the figures. -/
theorem skipSign_exponent {letter : Char} (isLetter : letter = 'e' ∨ letter = 'E')
    {sign figures : List Char} (isSign : sign = [] ∨ sign = ['+'] ∨ sign = ['-'])
    (isFigures : Grammar.Figures figures) (place : Place) (rest : List UInt8)
    : let cursor : Cursor := ⟨place, utf8 (letter :: (sign ++ figures)) ++ rest⟩
      cursor.atExponent = true ∧
        ∃ behind, cursor.advance.skipSign = ⟨behind, utf8 figures ++ rest⟩ := by
  have unsigned : ∀ place, skipSign ⟨place, utf8 figures ++ rest⟩ =
      ⟨place, utf8 figures ++ rest⟩ := by
    intro place
    have sees := atFigure_figures isFigures place rest
    refine if_neg ?_
    rintro (plus | minus)
    · exact peek?_of_atFigure sees (by decide) plus
    · exact peek?_of_atFigure sees (by decide) minus
  obtain rfl | rfl := isLetter <;> obtain rfl | rfl | rfl := isSign
  · exact ⟨rfl, _, unsigned (place.after 101)⟩
  · exact ⟨rfl, _, rfl⟩
  · exact ⟨rfl, _, rfl⟩
  · exact ⟨rfl, _, unsigned (place.after 69)⟩
  · exact ⟨rfl, _, rfl⟩
  · exact ⟨rfl, _, rfl⟩

theorem skipExponent_exponent {exponent : List Char} (isExponent : Exponent exponent)
    (ends : EndsNumber rest)
    : Passes skipExponent (utf8 exponent) rest := by
  intro place
  cases isExponent with
  | none =>
    have stop : atExponent ⟨place, rest⟩ = false := by
      have small : peek? ⟨place, rest⟩ ≠ some 101 := fun sees => (ends 101 sees).2.2.1 rfl
      have large : peek? ⟨place, rest⟩ ≠ some 69 := fun sees => (ends 69 sees).2.2.2 rfl
      simp [atExponent, small, large]
    exact ⟨place, by rw [utf8_nil, List.nil_append, skipExponent, stop]; rfl⟩
  | power isLetter isSign isFigures =>
    obtain ⟨sees, middle, signed⟩ := skipSign_exponent isLetter isSign isFigures place rest
    obtain ⟨behind, skipped⟩ := skipFigures_figures isFigures.2 middle ends.noFigure
    refine ⟨behind, ?_⟩
    rw [skipExponent, if_pos sees]
    simp only [signed]
    rw [if_pos (atFigure_figures isFigures _ _), skipped]

/-- Before an exponent a fraction ends. -/
theorem endsFraction_exponent {exponent : List Char} (isExponent : Exponent exponent)
    (ends : EndsNumber rest)
    : EndsFraction (utf8 exponent ++ rest) := by
  cases isExponent with
  | none => exact ⟨ends.noFigure, fun sees => (ends 46 sees).2.1 rfl⟩
  | @power letter sign figures isLetter =>
    have first : ∃ byte bytes, utf8 (letter :: (sign ++ figures)) = byte :: bytes ∧
        ¬ (48 ≤ byte ∧ byte ≤ 57) ∧ byte ≠ 46 := by
      obtain rfl | rfl := isLetter
      · exact ⟨101, _, rfl, by decide⟩
      · exact ⟨69, _, rfl, by decide⟩
    obtain ⟨byte, bytes, same, noFigure, noPoint⟩ := first
    rw [same]
    exact ⟨fun _ found => Option.some.inj found ▸ noFigure,
      fun found => noPoint (Option.some.inj found)⟩

/-- Before a fraction an integer part ends. -/
theorem noFigure_fraction {fraction : List Char} (isFraction : Fraction fraction)
    (ends : NoFigure rest)
    : NoFigure (utf8 fraction ++ rest) := by
  cases isFraction with
  | none => exact ends
  | point => exact fun _ found => Option.some.inj found ▸ by decide

theorem skipNumber_parts {integer fraction exponent : List Char} (plain : Plain integer)
    (isFraction : Fraction fraction) (isExponent : Exponent exponent) (ends : EndsNumber rest)
    : Passes skipNumber (utf8 (integer ++ fraction ++ exponent)) rest := by
  intro place
  have endsFraction := endsFraction_exponent isExponent ends
  have noFigure := noFigure_fraction isFraction endsFraction.1
  obtain ⟨first, skippedInteger⟩ := skipInteger_plain plain noFigure place
  obtain ⟨second, skippedFraction⟩ := skipFraction_fraction isFraction endsFraction first
  obtain ⟨behind, skippedExponent⟩ := skipExponent_exponent isExponent ends second
  refine ⟨behind, ?_⟩
  rw [utf8_append, utf8_append, List.append_assoc, List.append_assoc]
  simp only [skipNumber, skippedInteger, bind, Except.bind, skippedFraction, skippedExponent]

------------------------------------------------------------------------------------------
-- Strings
------------------------------------------------------------------------------------------

theorem skipStringFrom_bare {bytes : List UInt8}
    (bare : ∀ byte ∈ bytes, 32 ≤ byte ∧ byte ≠ 34 ∧ byte ≠ 92) (place : Place)
    (rest : List UInt8)
    : skipStringFrom place (bytes ++ rest) =
        skipStringFrom (bytes.foldl Place.after place) rest := by
  induction bytes generalizing place with
  | nil => rfl
  | cons byte bytes hyp =>
    obtain ⟨printed, unquoted, unescaped⟩ := bare byte List.mem_cons_self
    rw [List.cons_append, skipStringFrom, if_neg (UInt8.not_lt.mpr printed), if_neg unquoted,
      if_neg unescaped, hyp fun byte within => bare byte (List.mem_cons_of_mem _ within)]
    rfl

/-- What may stand between quotation marks is passed over with the second of them. -/
theorem skipString_body {body : List Char} (isBody : StringBody body) (rest : List UInt8)
    : Passes skipString (utf8 body ++ [34]) rest := by
  intro place
  rw [List.append_assoc, List.singleton_append, skipString]
  induction isBody generalizing place with
  | nil => exact ⟨place.after 34, by simp [utf8_nil, skipStringFrom]⟩
  | bare self _ hyp =>
    obtain ⟨behind, skipped⟩ := hyp _
    refine ⟨behind, ?_⟩
    rw [utf8_cons, List.append_assoc, skipStringFrom_bare
      fun _ => bare_of_mem_utf8EncodeChar self.1 self.2.1 self.2.2]
    exact skipped
  | @letter letter body escape _ hyp =>
    obtain ⟨meant, meaning⟩ := Option.isSome_iff_exists.mp escape
    obtain ⟨byte, _, encoded, short, -⟩ := utf8_of_escapeMeaning? meaning
    have other : byte ≠ 117 := by
      rintro rfl
      cases short
    obtain ⟨behind, skipped⟩ := hyp ((place.after 92).after byte)
    refine ⟨behind, ?_⟩
    rw [utf8_cons, utf8_cons, encoded]
    show skipStringFrom place (92 :: byte :: (utf8 body ++ 34 :: rest)) = _
    simpa [skipStringFrom, other, short] using skipped
  | @unit a b c d body digits _ hyp =>
    obtain ⟨unit, value⟩ := Option.isSome_iff_exists.mp digits
    obtain ⟨w, x, y, z, bytes, number⟩ := utf8_of_hexUnit? value body
    obtain ⟨behind, skipped⟩ :=
      hyp ((((((place.after 92).after 117).after w).after x).after y).after z)
    refine ⟨behind, ?_⟩
    rw [utf8_cons, utf8_cons, bytes]
    show skipStringFrom place (92 :: 117 :: w :: x :: y :: z :: (utf8 body ++ 34 :: rest)) = _
    simpa [skipStringFrom, number] using skipped

------------------------------------------------------------------------------------------
-- Values without elements
------------------------------------------------------------------------------------------

theorem skipStart_null (rest : List UInt8)
    : Reads skipStart (utf8 ['n', 'u', 'l', 'l']) none rest :=
  reads_word none 110 [117, 108, 108] rest

theorem skipStart_true (rest : List UInt8)
    : Reads skipStart (utf8 ['t', 'r', 'u', 'e']) none rest :=
  reads_word none 116 [114, 117, 101] rest

theorem skipStart_false (rest : List UInt8)
    : Reads skipStart (utf8 ['f', 'a', 'l', 's', 'e']) none rest :=
  reads_word none 102 [97, 108, 115, 101] rest

theorem skipStart_string {body : List Char} (isBody : StringBody body) (rest : List UInt8)
    : Reads skipStart (utf8 ('"' :: (body ++ ['"']))) none rest := by
  rw [utf8_quoted]
  exact ((skipString_body isBody rest).reads none).advance 34

/-- Figures without a needless zero start with a byte that starts no other value. -/
theorem skipStart_figure {byte : UInt8} (figure : 48 ≤ byte ∧ byte ≤ 57) (place : Place)
    (bytes : List UInt8)
    : skipStart ⟨place, byte :: bytes⟩ =
        (do return (none, ← skipNumber ⟨place, byte :: bytes⟩)) := by
  have other : byte ≠ 110 ∧ byte ≠ 116 ∧ byte ≠ 102 ∧ byte ≠ 45 := by
    refine ⟨?_, ?_, ?_, ?_⟩ <;> rintro rfl <;> exact absurd figure (by decide)
  have sees : atFigure ⟨place, byte :: bytes⟩ = true := by simpa [atFigure] using figure
  simp only [skipStart, peek?_cons, other, if_false, sees, if_true]

theorem skipStart_number {chars : List Char} (number : Number chars) (ends : EndsNumber rest)
    : Reads skipStart (utf8 chars) none rest := by
  obtain ⟨isSign, plain, isFraction, isExponent⟩ := number
  have reads := (skipNumber_parts plain isFraction isExponent ends).reads (none (α := Bracket))
  obtain rfl | rfl := isSign
  · obtain ⟨byte, bytes, same, figure⟩ := utf8_plain plain
    rw [utf8_append, utf8_append, same] at reads
    rw [List.nil_append, utf8_append, utf8_append, same]
    exact reads.congr fun place => skipStart_figure figure place _
  · exact reads.advance 45

------------------------------------------------------------------------------------------
-- Where values start
------------------------------------------------------------------------------------------

/-- A value starts neither with a blank nor with the end of an array. -/
theorem utf8_value {chars : List Char} (value : Value chars)
    : ∃ byte bytes, utf8 chars = byte :: bytes ∧ ¬ isBlank byte ∧ byte ≠ 93 := by
  obtain ⟨tree, writes⟩ := Tree.exists_writes value
  obtain ⟨byte, bytes, same, starts⟩ := writes.startsWith
  exact ⟨byte, bytes, same, starts.not_isBlank⟩

/-- Behind blanks, items start neither with a blank nor with the end of an array. -/
theorem utf8_items {chars : List Char} (items : Items chars)
    : ∃ blanks byte bytes, Blanks blanks ∧ utf8 chars = utf8 blanks ++ byte :: bytes ∧
        ¬ isBlank byte ∧ byte ≠ 93 := by
  have first : ∃ before item behind, Blanks before ∧ Value item ∧
      chars = before ++ (item ++ behind) := by
    cases items with
    | @last before item after front value =>
      exact ⟨before, item, after, front, value, List.append_assoc ..⟩
    | @more before item after others front value =>
      exact ⟨before, item, after ++ ',' :: others, front, value, by simp⟩
  obtain ⟨before, item, behind, front, value, rfl⟩ := first
  obtain ⟨byte, bytes, same, stop, notEnd⟩ := utf8_value value
  refine ⟨before, byte, bytes ++ utf8 behind, front, ?_, stop, notEnd⟩
  rw [utf8_append, utf8_append, same, List.cons_append]

/-- Behind blanks, members start with a quotation mark. -/
theorem utf8_members {chars : List Char} (members : Members chars)
    : ∃ blanks bytes, Blanks blanks ∧ utf8 chars = utf8 blanks ++ 34 :: bytes := by
  have first : ∃ before behind, Blanks before ∧ chars = before ++ '"' :: behind := by
    cases members with
    | last only =>
      obtain ⟨front⟩ := only
      exact ⟨_, _, front, rfl⟩
    | more first =>
      obtain ⟨front⟩ := first
      exact ⟨_, _, front, List.append_assoc ..⟩
  obtain ⟨before, behind, front, rfl⟩ := first
  exact ⟨before, utf8 behind, front, utf8_append before _⟩

------------------------------------------------------------------------------------------
-- Passing over elements
------------------------------------------------------------------------------------------

/-- Goes on from where brackets are left open. -/
def skipLeft : List Bracket × Cursor → Except ReadError Cursor
  | ([], cursor) => .ok cursor
  | (bracket :: around, cursor) => cursor.skipNameIn bracket >>= skipElements (bracket :: around)

/-- Goes on behind an element inside of brackets. -/
def skipBehind (brackets : List Bracket) (cursor : Cursor) : Except ReadError Cursor :=
  cursor.skipClosing true brackets >>= skipLeft

theorem skipElements_eq (brackets : List Bracket) (cursor : Cursor)
    : skipElements brackets cursor = cursor.skipElement brackets >>= skipLeft := by
  rw [skipElements]
  split
  · simp_all [bind, Except.bind]
  · simp_all [bind, Except.bind, skipLeft]
  · split <;> simp_all [bind, Except.bind, skipLeft]

theorem skipElements_done {brackets : List Bracket} {cursor after : Cursor}
    (start : cursor.skipBlanks.skipStart = .ok (none, after))
    : skipElements brackets cursor = skipBehind brackets after := by
  rw [skipElements_eq, skipElement, start]
  rfl

theorem skipElements_opened {brackets : List Bracket} {bracket : Bracket} {cursor after : Cursor}
    (start : cursor.skipBlanks.skipStart = .ok (some bracket, after))
    : skipElements brackets cursor =
        after.skipClosing false (bracket :: brackets) >>= skipLeft := by
  rw [skipElements_eq, skipElement, start]
  rfl

theorem skipBlanks_skipBlanks (cursor : Cursor)
    : cursor.skipBlanks.skipBlanks = cursor.skipBlanks := by
  obtain ⟨place, rest⟩ := cursor
  show (skipBlanksFrom place rest).skipBlanks = skipBlanksFrom place rest
  fun_induction skipBlanksFrom place rest with
  | case1 => rfl
  | case2 _ _ _ _ hyp => exact hyp
  | case3 place byte rest stop => exact if_neg stop

theorem skipElements_skipBlanks (brackets : List Bracket) (cursor : Cursor)
    : skipElements brackets cursor.skipBlanks = skipElements brackets cursor := by
  simp only [skipElements_eq, skipElement, skipBlanks_skipBlanks]

theorem skipName_skipBlanks (cursor : Cursor)
    : cursor.skipBlanks.skipName = cursor.skipName := by
  simp only [skipName, skipBlanks_skipBlanks]

/-- Blanks behind an element inside of a bracket do not matter. -/
theorem skipBehind_blanks {blanks : List Char} (blank : Blanks blanks) {byte : UInt8}
    (stop : ¬ isBlank byte) (bracket : Bracket) (brackets : List Bracket) (place : Place)
    (rest : List UInt8)
    : ∃ behind, skipBehind (bracket :: brackets) ⟨place, utf8 blanks ++ byte :: rest⟩ =
        skipBehind (bracket :: brackets) ⟨behind, byte :: rest⟩ := by
  have skip := skipBlanks_append (isBlank_of_mem_utf8 blank) stop place rest
  refine ⟨(utf8 blanks).foldl Place.after place, ?_⟩
  simp only [skipBehind, skipClosing, ← skip, skipBlanks_skipBlanks]

/-- Behind the last element a bracket is closed. -/
theorem skipBehind_closing (bracket : Bracket) (brackets : List Bracket) (place : Place)
    (rest : List UInt8)
    : ∃ behind, skipBehind (bracket :: brackets) ⟨place, bracket.closing :: rest⟩ =
        skipBehind brackets ⟨behind, rest⟩ := by
  have stop : ¬ isBlank bracket.closing := by cases bracket <;> decide
  have noComma : bracket.closing ≠ 44 := by cases bracket <;> decide
  refine ⟨place.after bracket.closing, ?_⟩
  simp only [skipBehind, skipClosing, skipBlanks_stop stop, peek?_cons, noComma, false_and,
    if_false, if_true]
  rfl

/-- Behind a comma the next element of a bracket follows. -/
theorem skipBehind_comma (bracket : Bracket) (brackets : List Bracket) (place : Place)
    (rest : List UInt8)
    : ∃ behind, skipBehind (bracket :: brackets) ⟨place, 44 :: rest⟩ =
        skipNameIn bracket ⟨behind, rest⟩ >>= skipElements (bracket :: brackets) :=
  ⟨_, rfl⟩

/-- An empty bracket is closed at once. -/
theorem skipOpened_closing {blanks : List Char} (blank : Blanks blanks) (bracket : Bracket)
    (brackets : List Bracket) (place : Place) (rest : List UInt8)
    : ∃ behind,
        (skipClosing false ⟨place, utf8 blanks ++ bracket.closing :: rest⟩
          (bracket :: brackets) >>= skipLeft) =
            skipBehind brackets ⟨behind, rest⟩ := by
  have stop : ¬ isBlank bracket.closing := by cases bracket <;> decide
  have skip := skipBlanks_append (isBlank_of_mem_utf8 blank) stop place rest
  refine ⟨((utf8 blanks).foldl Place.after place).after bracket.closing, ?_⟩
  simp only [skipClosing, skip, peek?_cons, Bool.false_eq_true, and_false, if_false, if_true]
  rfl

/-- A bracket with elements is opened before the first of them. -/
theorem skipOpened_element {blanks : List Char} (blank : Blanks blanks) {byte : UInt8}
    (stop : ¬ isBlank byte) {bracket : Bracket} (notEnd : byte ≠ bracket.closing)
    (brackets : List Bracket) (place : Place) (rest : List UInt8)
    : (skipClosing false ⟨place, utf8 blanks ++ byte :: rest⟩ (bracket :: brackets) >>=
        skipLeft) =
          skipNameIn bracket ⟨place, utf8 blanks ++ byte :: rest⟩ >>=
            skipElements (bracket :: brackets) := by
  have skip := skipBlanks_append (isBlank_of_mem_utf8 blank) stop place rest
  simp only [skipClosing, skip, peek?_cons, Bool.false_eq_true, and_false, if_false, notEnd]
  rw [← skip]
  cases bracket with
  | list => exact skipElements_skipBlanks ..
  | object => exact congrArg (· >>= _) (skipName_skipBlanks _)

------------------------------------------------------------------------------------------
-- Values
------------------------------------------------------------------------------------------

/-- Bytes are passed over wherever an element stands, whatever brackets are open around it. -/
def PassesElement (bytes : List UInt8) : Prop :=
  ∀ brackets place rest, EndsNumber rest →
    ∃ behind, skipElements brackets ⟨place, bytes ++ rest⟩ = skipBehind brackets ⟨behind, rest⟩

/-- Bytes are passed over as an element of a bracket, with the name and the blanks that it has, up
to a comma or the end of the bracket.
-/
def PassesIn (bracket : Bracket) (bytes : List UInt8) : Prop :=
  ∀ brackets place byte rest, byte = 44 ∨ byte = bracket.closing →
    ∃ behind,
      (skipNameIn bracket ⟨place, bytes ++ byte :: rest⟩ >>=
        skipElements (bracket :: brackets)) =
          skipBehind (bracket :: brackets) ⟨behind, byte :: rest⟩

/-- Bytes are passed over as all elements of a bracket, with its end. -/
def PassesInside (bracket : Bracket) (bytes : List UInt8) : Prop :=
  ∀ brackets place rest, ∃ behind,
    (skipNameIn bracket ⟨place, bytes ++ bracket.closing :: rest⟩ >>=
      skipElements (bracket :: brackets)) = skipBehind brackets ⟨behind, rest⟩

theorem passesElement_scalar {byte : UInt8} {bytes : List UInt8} (stop : ¬ isBlank byte)
    (passes : ∀ rest, EndsNumber rest → Reads skipStart (byte :: bytes) none rest)
    : PassesElement (byte :: bytes) := by
  intro brackets place rest ends
  obtain ⟨behind, skipped⟩ := passes rest ends place
  refine ⟨behind, skipElements_done ?_⟩
  rw [List.cons_append, skipBlanks_stop stop]
  exact skipped

/-- An element is passed over behind blanks, too. -/
theorem PassesElement.behindBlanks {blanks chars : List Char} (value : Value chars)
    (passes : PassesElement (utf8 chars)) (blank : Blanks blanks)
    : PassesElement (utf8 (blanks ++ chars)) := by
  intro brackets place rest ends
  obtain ⟨byte, bytes, same, stop, -⟩ := utf8_value value
  have skip := skipBlanks_append (isBlank_of_mem_utf8 blank) stop place (bytes ++ rest)
  rw [same] at passes
  rw [utf8_append, same, List.append_assoc, List.cons_append, ← skipElements_skipBlanks, skip]
  exact passes brackets _ rest ends

theorem PassesIn.last {bracket : Bracket} {bytes : List UInt8} (passes : PassesIn bracket bytes)
    : PassesInside bracket bytes := by
  intro brackets place rest
  obtain ⟨middle, skipped⟩ := passes brackets place bracket.closing rest (.inr rfl)
  obtain ⟨behind, closed⟩ := skipBehind_closing bracket brackets middle rest
  exact ⟨behind, skipped.trans closed⟩

theorem PassesIn.more {bracket : Bracket} {bytes others : List UInt8}
    (passes : PassesIn bracket bytes) (inside : PassesInside bracket others)
    : PassesInside bracket (bytes ++ 44 :: others) := by
  intro brackets place rest
  obtain ⟨comma, skipped⟩ :=
    passes brackets place 44 (others ++ bracket.closing :: rest) (.inl rfl)
  obtain ⟨middle, next⟩ :=
    skipBehind_comma bracket brackets comma (others ++ bracket.closing :: rest)
  obtain ⟨behind, closed⟩ := inside brackets middle rest
  refine ⟨behind, ?_⟩
  rw [List.append_assoc, List.cons_append, skipped, next, closed]

/-- What follows an element of a bracket, a comma or its end, is no blank and ends a number. -/
theorem endsElement {bracket : Bracket} {byte : UInt8} (stop : byte = 44 ∨ byte = bracket.closing)
    (rest : List UInt8)
    : ¬ isBlank byte ∧ EndsNumber (byte :: rest) := by
  obtain rfl | rfl := stop
  · exact ⟨by decide, endsNumber_cons (by decide) rest⟩
  · cases bracket with
    | list => exact ⟨by decide, endsNumber_cons (by decide) rest⟩
    | object => exact ⟨by decide, endsNumber_cons (by decide) rest⟩

/-- An item is passed over with the blanks around it. -/
theorem PassesElement.item {before chars after : List Char} (value : Value chars)
    (passes : PassesElement (utf8 chars)) (front : Blanks before) (back : Blanks after)
    : PassesIn .list (utf8 (before ++ chars ++ after)) := by
  intro brackets place byte rest stop
  obtain ⟨noBlank, ends⟩ := endsElement stop rest
  obtain ⟨middle, skipped⟩ := passes.behindBlanks value front (.list :: brackets) place
    (utf8 after ++ byte :: rest) (endsNumber_blanks back ends)
  obtain ⟨behind, ended⟩ := skipBehind_blanks back noBlank .list brackets middle rest
  refine ⟨behind, ?_⟩
  rw [utf8_append, List.append_assoc]
  exact skipped.trans ended

/-- A name is passed over with the blanks around it and the colon behind it. -/
theorem skipName_body {before body between : List Char} (front : Blanks before)
    (isBody : StringBody body) (beforeColon : Blanks between) (rest : List UInt8)
    : Passes skipName (utf8 (before ++ '"' :: (body ++ '"' :: (between ++ [':'])))) rest := by
  intro place
  have skip := skipBlanks_append (isBlank_of_mem_utf8 front) (show ¬ isBlank 34 by decide) place
    (utf8 body ++ 34 :: (utf8 between ++ 58 :: rest))
  obtain ⟨middle, skipped⟩ := skipString_body isBody (utf8 between ++ 58 :: rest)
    (((utf8 before).foldl Place.after place).after 34)
  have colon := skipBlanks_append (isBlank_of_mem_utf8 beforeColon)
    (show ¬ isBlank 58 by decide) middle rest
  have quote : String.utf8EncodeChar '"' = [34] := rfl
  have last : String.utf8EncodeChar ':' = [58] := rfl
  have bytes : utf8 (before ++ '"' :: (body ++ '"' :: (between ++ [':']))) ++ rest =
      utf8 before ++ 34 :: (utf8 body ++ 34 :: (utf8 between ++ 58 :: rest)) := by
    simp [utf8_append, utf8_cons, utf8_nil, quote, last]
  refine ⟨((utf8 between).foldl Place.after middle).after 58, ?_⟩
  rw [List.append_assoc, List.singleton_append] at skipped
  simp only [bytes, skipName, skip, peek?_cons, advance_cons, skipped, colon, if_true, bind,
    Except.bind]

/-- A member is passed over with its name and the blanks around it. -/
theorem PassesElement.member {before body between blanks chars after : List Char}
    (value : Value chars) (passes : PassesElement (utf8 chars)) (front : Blanks before)
    (isBody : StringBody body) (beforeColon : Blanks between) (behindColon : Blanks blanks)
    (back : Blanks after)
    : PassesIn .object
        (utf8 (before ++ '"' :: (body ++ '"' :: (between ++ ':' :: (blanks ++ chars ++ after)))))
          := by
  intro brackets place byte rest stop
  obtain ⟨noBlank, ends⟩ := endsElement stop rest
  obtain ⟨colon, named⟩ := skipName_body front isBody beforeColon
    (utf8 (blanks ++ chars) ++ (utf8 after ++ byte :: rest)) place
  obtain ⟨middle, skipped⟩ := passes.behindBlanks value behindColon (.object :: brackets) colon
    (utf8 after ++ byte :: rest) (endsNumber_blanks back ends)
  obtain ⟨behind, ended⟩ := skipBehind_blanks back noBlank .object brackets middle rest
  refine ⟨behind, ?_⟩
  have parts : before ++ '"' :: (body ++ '"' :: (between ++ ':' :: (blanks ++ chars ++ after))) =
      before ++ '"' :: (body ++ '"' :: (between ++ [':'])) ++ (blanks ++ chars) ++ after := by
    simp
  rw [parts, utf8_append, utf8_append, List.append_assoc, List.append_assoc, skipNameIn, named]
  exact skipped.trans ended

/-- An empty bracket is passed over. -/
theorem passesElement_empty (bracket : Bracket) {opening : UInt8}
    (opens : ∀ place rest, skipStart ⟨place, opening :: rest⟩ =
      .ok (some bracket, ⟨place.after opening, rest⟩))
    (stop : ¬ isBlank opening) {blanks : List Char} (blank : Blanks blanks)
    : PassesElement (opening :: (utf8 blanks ++ [bracket.closing])) := by
  intro brackets place rest _
  obtain ⟨behind, closed⟩ := skipOpened_closing blank bracket brackets (place.after opening) rest
  refine ⟨behind, ?_⟩
  rw [List.cons_append, List.append_assoc, List.singleton_append,
    skipElements_opened (by rw [skipBlanks_stop stop]; exact opens ..), closed]

/-- A bracket with elements is passed over, if these are. -/
theorem PassesInside.element {bracket : Bracket} {blanks : List Char} {byte : UInt8}
    {bytes : List UInt8} (inside : PassesInside bracket (utf8 blanks ++ byte :: bytes))
    {opening : UInt8}
    (opens : ∀ place rest, skipStart ⟨place, opening :: rest⟩ =
      .ok (some bracket, ⟨place.after opening, rest⟩))
    (stop : ¬ isBlank opening) (blank : Blanks blanks) (first : ¬ isBlank byte)
    (notEnd : byte ≠ bracket.closing)
    : PassesElement (opening :: (utf8 blanks ++ byte :: bytes ++ [bracket.closing])) := by
  intro brackets place rest _
  have opened := skipOpened_element blank first notEnd brackets (place.after opening)
    (bytes ++ bracket.closing :: rest)
  obtain ⟨behind, closed⟩ := inside brackets (place.after opening) rest
  refine ⟨behind, ?_⟩
  rw [List.cons_append, List.append_assoc _ [_], List.singleton_append,
    skipElements_opened (by rw [skipBlanks_stop stop]; exact opens ..)]
  rw [List.append_assoc, List.cons_append] at closed ⊢
  rw [opened, closed]

mutual

/-- A value of the grammar is passed over wherever an element stands, by recursion on how it is
made. The brackets around it are any, so that the parts of an array or an object are passed over
inside of one bracket more.
-/
theorem passesElement_value {chars : List Char}
    : Value chars → PassesElement (utf8 chars)
  | .null => passesElement_scalar (by decide) fun rest _ => skipStart_null rest
  | .true => passesElement_scalar (by decide) fun rest _ => skipStart_true rest
  | .false => passesElement_scalar (by decide) fun rest _ => skipStart_false rest
  | .number isNumber => by
    obtain ⟨byte, bytes, same, stop, -⟩ := utf8_value (.number isNumber)
    have passes := fun rest (ends : EndsNumber rest) => skipStart_number isNumber ends
    rw [same] at passes ⊢
    exact passesElement_scalar stop passes
  | .string isBody => passesElement_scalar (by decide) fun rest _ => skipStart_string isBody rest
  | .emptyArray inside => by
    rw [utf8_cons, utf8_append]
    exact passesElement_empty .list (fun _ _ => rfl) (by decide) inside
  | .emptyObject inside => by
    rw [utf8_cons, utf8_append]
    exact passesElement_empty .object (fun _ _ => rfl) (by decide) inside
  | .array inside => by
    have passes := passesInside_items inside
    obtain ⟨blanks, byte, bytes, blank, same, first, notEnd⟩ := utf8_items inside
    rw [same] at passes
    rw [utf8_cons, utf8_append, same]
    exact passes.element (fun _ _ => rfl) (by decide) blank first notEnd
  | .object inside => by
    have passes := passesInside_members inside
    obtain ⟨blanks, bytes, blank, same⟩ := utf8_members inside
    rw [same] at passes
    rw [utf8_cons, utf8_append, same]
    exact passes.element (fun _ _ => rfl) (by decide) blank (by decide) (by decide)

theorem passesInside_items {chars : List Char}
    : Items chars → PassesInside .list (utf8 chars)
  | .last front value back => ((passesElement_value value).item value front back).last
  | .more front value back others => by
    rw [utf8_append]
    exact ((passesElement_value value).item value front back).more (passesInside_items others)

theorem passesInside_members {chars : List Char}
    : Members chars → PassesInside .object (utf8 chars)
  | .last only => (passesIn_member only).last
  | .more first others => by
    rw [utf8_append]
    exact (passesIn_member first).more (passesInside_members others)

theorem passesIn_member {chars : List Char}
    : Member chars → PassesIn .object (utf8 chars)
  | .named front isBody beforeColon behindColon value back =>
    (passesElement_value value).member value front isBody beforeColon behindColon back

end

/-- A value is passed over behind blanks, up to what is behind it. -/
theorem skipValue_value {blanks chars : List Char} (blank : Blanks blanks) (value : Value chars)
    {rest : List UInt8} (ends : EndsNumber rest)
    : Passes skipValue (utf8 (blanks ++ chars)) rest :=
  fun place => (passesElement_value value).behindBlanks value blank [] place rest ends

end Cursor

end Scratchpad.Json
