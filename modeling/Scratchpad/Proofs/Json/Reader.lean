import Mathlib.Algebra.Group.Nat.Defs
import Scratchpad.Proofs.Json.Grammar

/-! A reader of JSON texts with natural numbers, which gives back every value that is written.
Arrays and objects may be nested to any depth; those that are open are kept with the elements
before the next.
-/

namespace Scratchpad.Json

/-- What is open around a place in a text: an array with the items before it, or an object with the
members before it and the name of the next.
-/
inductive Frame where
  | array (before : List Json)
  | object (before : List (String × Json)) (name : String)

/-- The byte that closes what is open. -/
def Frame.closing : Frame → UInt8
  | array _ => 93
  | object _ _ => 125

/-- What was open, when it is closed behind its last element. -/
def Frame.complete (last : Json) : Frame → Json
  | array before => .array (before ++ [last])
  | object before name => .object (before ++ [(name, last)])

/-- What a reader has found: a complete value, or a place inside of frames, the innermost first. -/
inductive Progress where
  | done (value : Json)
  | inside (frames : List Frame)

namespace Cursor

------------------------------------------------------------------------------------------
-- The reader
------------------------------------------------------------------------------------------

/-- Reads a natural number of any size. -/
def unboundedNatural (cursor : Cursor) : Except ReadError (Nat × Cursor) :=
  if cursor.peek? = some 48 then
    .ok (0, cursor.advance)
  else
    let (row, after) := cursor.figures (10 ^ cursor.ahead) 0
    .ok (row.value, after)

/-- Reads a value without elements. -/
def scalar (cursor : Cursor) : Except ReadError (Json × Cursor) := do
  let next := cursor.advance
  if cursor.peek? = some 110 then
    return (.null, ← next.expect [117, 108, 108])
  else if cursor.peek? = some 116 then
    return (.bool true, ← next.expect [114, 117, 101])
  else if cursor.peek? = some 102 then
    return (.bool false, ← next.expect [97, 108, 115, 101])
  else if cursor.peek? = some 34 then
    let (text, cursor) ← next.string
    return (.string text, cursor)
  else if cursor.atFigure then
    let (value, cursor) ← cursor.unboundedNatural
    return (.number value, cursor)
  else
    cursor.failAhead .expectedValue

/-- Reads the name of a member and the colon behind it. -/
def memberName (cursor : Cursor) : Except ReadError (String × Cursor) := do
  let cursor := cursor.skipBlanks
  if cursor.peek? = some 34 then
    let (name, cursor) ← cursor.advance.string
    let cursor := cursor.skipBlanks
    if cursor.peek? = some 58 then
      return (name, cursor.advance)
    else
      cursor.failAhead .expectedColon
  else
    cursor.failAhead .keyNotString

/-- Reads a value without elements, or opens one before its first element. -/
def start (cursor : Cursor) : Except ReadError (Progress × Cursor) := do
  let next := cursor.advance.skipBlanks
  if cursor.peek? = some 91 then
    if next.peek? = some 93 then
      return (.done (.array []), next.advance)
    else
      return (.inside [.array []], next)
  else if cursor.peek? = some 123 then
    if next.peek? = some 125 then
      return (.done (.object []), next.advance)
    else
      let (name, cursor) ← next.memberName
      return (.inside [.object [] name], cursor)
  else
    let (value, cursor) ← cursor.scalar
    return (.done value, cursor)

/-- Reads what is before the next element of a frame, behind an element. -/
def next (frame : Frame) (last : Json) (cursor : Cursor) : Except ReadError (Frame × Cursor) :=
  match frame with
  | .array before => .ok (.array (before ++ [last]), cursor)
  | .object before name => do
    let (next, cursor) ← cursor.memberName
    return (.object (before ++ [(name, last)]) next, cursor)

/-- Reads what is behind a value inside of frames, up to the next element of one of them. -/
def close (value : Json) (cursor : Cursor) : List Frame → Except ReadError (Progress × Cursor)
  | [] => .ok (.done value, cursor)
  | frame :: frames => do
    let cursor := cursor.skipBlanks
    if cursor.peek? = some 44 then
      let (frame, cursor) ← cursor.advance.next frame value
      return (.inside (frame :: frames), cursor)
    else if cursor.peek? = some frame.closing then
      close (frame.complete value) cursor.advance frames
    else
      cursor.failAhead .trailingCharacters

/-- Reads from an element on up to the next that is not complete before it. -/
def element (frames : List Frame) (cursor : Cursor) : Except ReadError (Progress × Cursor) := do
  let (progress, cursor) ← cursor.skipBlanks.start
  match progress with
  | .done value => close value cursor frames
  | .inside opened => return (.inside (opened ++ frames), cursor)

------------------------------------------------------------------------------------------
-- Readers do not go back
------------------------------------------------------------------------------------------

theorem ahead_unboundedNatural {cursor after : Cursor} {value : Nat}
    (sees : cursor.atFigure = true) (found : cursor.unboundedNatural = .ok (value, after))
    : after.ahead < cursor.ahead := by
  unfold unboundedNatural at found
  split at found
  · rename_i zero
    have := ahead_advance zero
    obtain ⟨-, rfl⟩ := by simpa using found
    omega
  · obtain ⟨-, rfl⟩ := by simpa using found
    exact ahead_figures_lt sees

theorem ahead_scalar {cursor after : Cursor} {value : Json}
    (found : cursor.scalar = .ok (value, after))
    : after.ahead < cursor.ahead := by
  simp only [scalar, bind, Except.bind, pure, Except.pure, failAhead, fail] at found
  repeat' split at found
  all_goals first | contradiction | skip
  all_goals obtain ⟨-, rfl⟩ := by simpa using found
  · have := ahead_advance ‹_›
    have := ahead_expect ‹_›
    omega
  · have := ahead_advance ‹_›
    have := ahead_expect ‹_›
    omega
  · have := ahead_advance ‹_›
    have := ahead_expect ‹_›
    omega
  · have := ahead_advance ‹_›
    have := ahead_string ‹_›
    omega
  · exact ahead_unboundedNatural ‹_› ‹_›

theorem ahead_memberName {cursor after : Cursor} {name : String}
    (found : cursor.memberName = .ok (name, after))
    : after.ahead ≤ cursor.ahead := by
  have := cursor.ahead_skipBlanks
  have := cursor.skipBlanks.ahead_advance_le
  simp only [memberName, bind, Except.bind, pure, Except.pure, failAhead, fail] at found
  repeat' split at found
  all_goals first | contradiction | skip
  rename_i middle string _
  obtain ⟨-, rfl⟩ := by simpa using found
  have := ahead_string string
  have := middle.2.ahead_skipBlanks
  have := middle.2.skipBlanks.ahead_advance_le
  omega

theorem ahead_start {cursor after : Cursor} {progress : Progress}
    (found : cursor.start = .ok (progress, after))
    : after.ahead < cursor.ahead := by
  have := cursor.advance.ahead_skipBlanks
  have := cursor.advance.skipBlanks.ahead_advance_le
  simp only [start, bind, Except.bind, pure, Except.pure] at found
  repeat' split at found
  all_goals first | contradiction | skip
  all_goals obtain ⟨-, rfl⟩ := by simpa using found
  · have := ahead_advance ‹cursor.peek? = some 91›
    omega
  · have := ahead_advance ‹cursor.peek? = some 91›
    omega
  · have := ahead_advance ‹cursor.peek? = some 123›
    omega
  · have := ahead_advance ‹cursor.peek? = some 123›
    have := ahead_memberName ‹_›
    omega
  · exact ahead_scalar ‹_›

theorem ahead_next {frame next : Frame} {last : Json} {cursor after : Cursor}
    (found : cursor.next frame last = .ok (next, after))
    : after.ahead ≤ cursor.ahead := by
  cases frame with
  | array before =>
    obtain ⟨-, rfl⟩ := by simpa [Cursor.next] using found
    exact Nat.le_refl _
  | object before name =>
    simp only [Cursor.next, bind, Except.bind, pure, Except.pure] at found
    split at found
    · contradiction
    · obtain ⟨-, rfl⟩ := by simpa using found
      exact ahead_memberName ‹_›

theorem ahead_close {frames : List Frame} {value : Json} {cursor after : Cursor}
    {progress : Progress} (found : cursor.close value frames = .ok (progress, after))
    : after.ahead ≤ cursor.ahead := by
  induction frames generalizing value cursor with
  | nil =>
    obtain ⟨-, rfl⟩ := by simpa [close] using found
    exact Nat.le_refl _
  | cons frame frames hyp =>
    have := cursor.ahead_skipBlanks
    have := cursor.skipBlanks.ahead_advance_le
    simp only [close, bind, Except.bind, pure, Except.pure, failAhead, fail] at found
    repeat' split at found
    all_goals first | contradiction | skip
    · obtain ⟨-, rfl⟩ := by simpa using found
      have := ahead_next ‹_›
      omega
    · have := hyp found
      omega

theorem ahead_element {frames : List Frame} {cursor after : Cursor} {progress : Progress}
    (found : cursor.element frames = .ok (progress, after))
    : after.ahead < cursor.ahead := by
  simp only [element, bind, Except.bind, pure, Except.pure] at found
  repeat' split at found
  all_goals first | contradiction | skip
  all_goals
    have := cursor.ahead_skipBlanks
    have := ahead_start ‹_›
  · have := ahead_close found
    omega
  · obtain ⟨-, rfl⟩ := by simpa using found
    omega

------------------------------------------------------------------------------------------
-- Values
------------------------------------------------------------------------------------------

/-- Reads from an element on up to the end of the outermost frame. -/
def elements (frames : List Frame) (cursor : Cursor) : Except ReadError (Json × Cursor) :=
  match _element : cursor.element frames with
  | .error error => .error error
  | .ok (.done value, cursor) => .ok (value, cursor)
  | .ok (.inside frames, cursor) => elements frames cursor
termination_by cursor.ahead
decreasing_by
  exact ahead_element ‹_›

/-- Reads a value. -/
def value (cursor : Cursor) : Except ReadError (Json × Cursor) :=
  cursor.elements []

/-- Goes on from where a reader has come to. -/
def resume (progress : Progress) (cursor : Cursor) : Except ReadError (Json × Cursor) :=
  match progress with
  | .done value => .ok (value, cursor)
  | .inside frames => cursor.elements frames

theorem elements_eq (frames : List Frame) (cursor : Cursor)
    : cursor.elements frames = cursor.element frames >>= fun read => read.2.resume read.1 := by
  rw [elements]
  split <;> simp_all [bind, Except.bind, resume]

------------------------------------------------------------------------------------------
-- Reading values without elements
------------------------------------------------------------------------------------------

/-- A number is read whatever its size, as it is not larger than its figures allow. -/
theorem unboundedNatural_toDigits (value : Nat) {rest : List UInt8} (ends : NoFigure rest)
    : Reads unboundedNatural (utf8 (Nat.toDigits 10 value)) value rest := by
  intro place
  have same : Nat.ofDigitChars 10 (Nat.toDigits 10 value) 0 = value :=
    Nat.ofDigitChars_ten_toDigits
  obtain zero | ⟨first, others, digits, nonzero, isDigit⟩ := plain_toDigits value
  · rw [zero] at same ⊢
    exact ⟨place.after 48, congrArg (fun value => Except.ok (value, _)) same⟩
  · have room : Nat.ofDigitChars 10 (Nat.toDigits 10 value) 0 ≤
        10 ^ (utf8 (Nat.toDigits 10 value) ++ rest).length := by
      have small : value < 10 ^ (Nat.toDigits 10 value).length :=
        (Nat.length_toDigits_le_iff (by decide) Nat.length_toDigits_pos).mp (Nat.le_refl _)
      have shorter : (Nat.toDigits 10 value).length ≤
          (utf8 (Nat.toDigits 10 value) ++ rest).length := by
        have := length_le_utf8 (Nat.toDigits 10 value)
        rw [List.length_append]
        omega
      rw [same]
      exact Nat.le_trans (Nat.le_of_lt small) (Nat.pow_le_pow_right (by decide) shorter)
    obtain ⟨behind, read⟩ := figuresFrom_digits isDigit ⟨0, 0, 0, none⟩ rfl room place ends
    have notZero : peek? ⟨place, utf8 (Nat.toDigits 10 value) ++ rest⟩ ≠ some 48 := by
      rw [digits] at isDigit ⊢
      exact peek?_ne_zero (isDigit first List.mem_cons_self) nonzero others place rest
    refine ⟨behind, ?_⟩
    simp only [unboundedNatural, notZero, if_false, figures, ahead, read, same]

theorem scalar_render_string (text : String) (rest : List UInt8)
    : Reads scalar (utf8 (Json.string text).render.toList) (.string text) rest := by
  rw [toList_render_string, utf8_cons, utf8_append]
  exact ((string_spelling rest (spelling_escaped text.toList)).map Json.string).advance 34

theorem scalar_render_number (value : Nat) {rest : List UInt8} (ends : NoFigure rest)
    : Reads scalar (utf8 (Json.number value).render.toList) (.number value) rest := by
  rw [toList_render_number]
  refine ((unboundedNatural_toDigits value ends).map Json.number).congr fun place => ?_
  have sees := atFigure_plain (plain_toDigits value) place rest
  simp only [scalar, peek?_of_atFigure sees (show ¬ (48 ≤ 110 ∧ 110 ≤ 57) by decide),
    peek?_of_atFigure sees (show ¬ (48 ≤ 116 ∧ 116 ≤ 57) by decide),
    peek?_of_atFigure sees (show ¬ (48 ≤ 102 ∧ 102 ≤ 57) by decide),
    peek?_of_atFigure sees (show ¬ (48 ≤ 34 ∧ 34 ≤ 57) by decide), sees, if_true, if_false]
  rfl

------------------------------------------------------------------------------------------
-- Reading inside of frames
------------------------------------------------------------------------------------------

/-- Goes on behind a value inside of frames. -/
def finish (value : Json) (frames : List Frame) (cursor : Cursor)
    : Except ReadError (Json × Cursor) :=
  cursor.close value frames >>= fun read => read.2.resume read.1

theorem elements_done {frames : List Frame} {cursor after : Cursor} {value : Json}
    (start : cursor.skipBlanks.start = .ok (.done value, after))
    : cursor.elements frames = after.finish value frames := by
  rw [elements_eq, element, start]
  rfl

theorem elements_inside {frame : Frame} {frames : List Frame} {cursor after : Cursor}
    (start : cursor.skipBlanks.start = .ok (.inside [frame], after))
    : cursor.elements frames = after.elements (frame :: frames) := by
  rw [elements_eq, element, start]
  rfl

/-- Behind the last element of a frame it is complete. -/
theorem finish_closing (value : Json) (frame : Frame) (frames : List Frame) (place : Place)
    (rest : List UInt8)
    : finish value (frame :: frames) ⟨place, frame.closing :: rest⟩ =
        finish (frame.complete value) frames ⟨place.after frame.closing, rest⟩ := by
  have stop : ¬ isBlank frame.closing := by
    cases frame <;> simp [Frame.closing, isBlank]
  have notComma : some frame.closing ≠ some 44 := by
    cases frame <;> simp [Frame.closing]
  simp only [finish, close, skipBlanks_stop stop, peek?_cons, advance_cons, notComma, if_true,
    if_false]

theorem finish_comma_array (value : Json) (before : List Json) (frames : List Frame)
    (place : Place) (rest : List UInt8)
    : finish value (.array before :: frames) ⟨place, 44 :: rest⟩ =
        elements (.array (before ++ [value]) :: frames) ⟨place.after 44, rest⟩ := by
  rw [finish, close, skipBlanks_stop (by decide)]
  rfl

theorem memberName_quote (name : String) (rest : List UInt8)
    : Reads memberName (utf8 (quote name).toList ++ [58]) name rest := by
  intro place
  obtain ⟨behind, read⟩ := string_spelling (58 :: rest) (spelling_escaped name.toList)
    (place.after 34)
  refine ⟨behind.after 58, ?_⟩
  rw [utf8_quote, List.append_assoc, List.cons_append, List.singleton_append]
  simp only [memberName, skipBlanks_stop (show ¬ isBlank 34 by decide), peek?_cons, advance_cons,
    if_true, read, bind, Except.bind, skipBlanks_stop (show ¬ isBlank 58 by decide)]
  rfl

theorem finish_comma_object (value : Json) (before : List (String × Json)) (name next : String)
    (frames : List Frame) (place : Place) (rest : List UInt8)
    : ∃ behind,
        finish value (.object before name :: frames)
            ⟨place, 44 :: (utf8 (quote next).toList ++ [58] ++ rest)⟩ =
          elements (.object (before ++ [(name, value)]) next :: frames) ⟨behind, rest⟩ := by
  obtain ⟨behind, read⟩ := memberName_quote next rest (place.after 44)
  refine ⟨behind, ?_⟩
  simp only [finish, close, skipBlanks_stop (show ¬ isBlank 44 by decide), peek?_cons,
    advance_cons, if_true, Cursor.next, read, bind, Except.bind]
  rfl

/-- An array with an item in it is opened before the item. -/
theorem elements_array (frames : List Frame) (place : Place) (item : Json) (rest : List UInt8)
    : elements frames ⟨place, 91 :: (utf8 item.render.toList ++ rest)⟩ =
        elements (.array [] :: frames) ⟨place.after 91, utf8 item.render.toList ++ rest⟩ := by
  obtain ⟨byte, bytes, same, stop, notEnd⟩ := utf8_render_first item
  have notEnd : some byte ≠ some 93 := fun same => notEnd (Option.some.inj same)
  rw [same]
  refine elements_inside ?_
  simp only [start, skipBlanks_stop (show ¬ isBlank 91 by decide), List.cons_append, peek?_cons,
    advance_cons, skipBlanks_stop stop, notEnd, if_true, if_false]
  rfl

/-- An object with a member in it is opened behind the name of the member. -/
theorem elements_object (frames : List Frame) (name : String) (place : Place) (rest : List UInt8)
    : ∃ behind, elements frames ⟨place, 123 :: (utf8 (quote name).toList ++ [58] ++ rest)⟩ =
        elements (.object [] name :: frames) ⟨behind, rest⟩ := by
  obtain ⟨behind, read⟩ := memberName_quote name rest (place.after 123)
  refine ⟨behind, elements_inside ?_⟩
  rw [utf8_quote, List.append_assoc, List.cons_append] at read ⊢
  have notArray : some (123 : UInt8) ≠ some 91 := by decide
  have notEnd : some (34 : UInt8) ≠ some 125 := by decide
  simp only [start, skipBlanks_stop (show ¬ isBlank 123 by decide), peek?_cons, advance_cons,
    skipBlanks_stop (show ¬ isBlank 34 by decide), notArray, notEnd, if_true, if_false, read]
  rfl

/-- Bytes are read as a value wherever an element stands: inside of any frames a reader goes on
behind them with the value.
-/
def ReadsElement (bytes : List UInt8) (value : Json) : Prop :=
  ∀ frames place rest, EndsNumber rest →
    ∃ behind, elements frames ⟨place, bytes ++ rest⟩ = finish value frames ⟨behind, rest⟩

/-- A value without elements is read as an element. -/
theorem readsElement_scalar {byte : UInt8} {bytes : List UInt8} {value : Json}
    (stop : ¬ isBlank byte) (noBracket : byte ≠ 91 ∧ byte ≠ 123)
    (reads : ∀ rest, EndsNumber rest → Reads scalar (byte :: bytes) value rest)
    : ReadsElement (byte :: bytes) value := by
  intro frames place rest ends
  obtain ⟨behind, read⟩ := reads rest ends place
  refine ⟨behind, elements_done ?_⟩
  have notArray : some byte ≠ some 91 := fun same => noBracket.1 (Option.some.inj same)
  have notObject : some byte ≠ some 123 := fun same => noBracket.2 (Option.some.inj same)
  rw [List.cons_append] at read ⊢
  rw [skipBlanks_stop stop]
  simp only [start, peek?, List.head?_cons, notArray, notObject, if_false, read]
  rfl

/-- Items behind an item are read as items of the same array, by induction on them. -/
theorem finish_laterItems {items : List Json}
    (reads : ∀ item ∈ items, ReadsElement (utf8 item.render.toList) item) (first : Json)
    (before : List Json) (frames : List Frame) (place : Place) (rest : List UInt8)
    : ∃ behind,
        finish first (.array before :: frames) ⟨place, laterItems items ++ rest⟩ =
          finish (.array (before ++ first :: items)) frames ⟨behind, rest⟩ := by
  induction items generalizing first before place with
  | nil => exact ⟨place.after 93, finish_closing first (.array before) frames place rest⟩
  | cons item items hyp =>
    obtain ⟨middle, read⟩ := reads item List.mem_cons_self (.array (before ++ [first]) :: frames)
      (place.after 44) _ (endsNumber_laterItems items rest)
    obtain ⟨behind, others⟩ := hyp (fun item within => reads item (List.mem_cons_of_mem _ within))
      item (before ++ [first]) middle
    refine ⟨behind, ?_⟩
    rw [laterItems_cons, List.append_assoc, List.cons_append, finish_comma_array, read, others]
    simp

/-- Members behind a member are read as members of the same object, by induction on them. -/
theorem finish_laterMembers {members : List (String × Json)}
    (reads : ∀ member ∈ members, ReadsElement (utf8 member.2.render.toList) member.2)
    (first : Json) (before : List (String × Json)) (name : String) (frames : List Frame)
    (place : Place) (rest : List UInt8)
    : ∃ behind,
        finish first (.object before name :: frames) ⟨place, laterMembers members ++ rest⟩ =
          finish (.object (before ++ (name, first) :: members)) frames ⟨behind, rest⟩ := by
  induction members generalizing first before name place with
  | nil => exact ⟨place.after 125, finish_closing first (.object before name) frames place rest⟩
  | cons member members hyp =>
    obtain ⟨inner, comma⟩ := finish_comma_object first before name member.1 frames place
      (utf8 member.2.render.toList ++ (laterMembers members ++ rest))
    obtain ⟨middle, read⟩ := reads member List.mem_cons_self
      (.object (before ++ [(name, first)]) member.1 :: frames) inner _
      (endsNumber_laterMembers members rest)
    obtain ⟨behind, others⟩ := hyp
      (fun member within => reads member (List.mem_cons_of_mem _ within)) member.2
      (before ++ [(name, first)]) member.1 middle
    refine ⟨behind, ?_⟩
    rw [laterMembers_cons, utf8_memberChars, List.cons_append, List.cons_append,
      List.append_assoc, List.append_assoc, comma, read, others]
    simp

/-- What is written of a value is read as that value, by induction on it. -/
theorem readsElement_render (json : Json)
    : ReadsElement (utf8 json.render.toList) json := by
  induction json using inductionOn with
  | null =>
    have written : utf8 Json.null.render.toList = [110, 117, 108, 108] := rfl
    rw [written]
    exact readsElement_scalar (by decide) (by decide)
      fun rest _ => reads_word Json.null 110 [117, 108, 108] rest
  | bool value =>
    cases value with
    | true =>
      have written : utf8 (Json.bool true).render.toList = [116, 114, 117, 101] := rfl
      rw [written]
      exact readsElement_scalar (by decide) (by decide)
        fun rest _ => reads_word (Json.bool true) 116 [114, 117, 101] rest
    | false =>
      have written : utf8 (Json.bool false).render.toList = [102, 97, 108, 115, 101] := rfl
      rw [written]
      exact readsElement_scalar (by decide) (by decide)
        fun rest _ => reads_word (Json.bool false) 102 [97, 108, 115, 101] rest
  | number value =>
    obtain ⟨byte, bytes, same, figure⟩ := utf8_plain (plain_toDigits value)
    have reads := fun rest (ends : EndsNumber rest) => scalar_render_number value ends.noFigure
    rw [toList_render_number, same] at *
    refine readsElement_scalar (not_isBlank_of_figure figure) ⟨?_, ?_⟩ reads
    · rintro rfl
      exact absurd figure.2 (by decide)
    · rintro rfl
      exact absurd figure.2 (by decide)
  | string text =>
    have reads := scalar_render_string text
    rw [toList_render_string] at *
    exact readsElement_scalar (by decide) (by decide) fun rest _ => reads rest
  | array items hyp =>
    intro frames place rest ends
    cases items with
    | nil => exact ⟨(place.after 91).after 93, elements_done rfl⟩
    | cons item items =>
      obtain ⟨middle, first⟩ := hyp item List.mem_cons_self (.array [] :: frames)
        (place.after 91) _ (endsNumber_laterItems items rest)
      obtain ⟨behind, others⟩ := finish_laterItems
        (fun item within => hyp item (List.mem_cons_of_mem _ within)) item [] frames middle rest
      refine ⟨behind, ?_⟩
      rw [utf8_render_array_cons, List.cons_append, List.append_assoc,
        elements_array frames place item, first, others]
      rfl
  | object members hyp =>
    intro frames place rest ends
    cases members with
    | nil => exact ⟨(place.after 123).after 125, elements_done rfl⟩
    | cons member members =>
      obtain ⟨inner, opened⟩ := elements_object frames member.1 place
        (utf8 member.2.render.toList ++ (laterMembers members ++ rest))
      obtain ⟨middle, first⟩ := hyp member List.mem_cons_self (.object [] member.1 :: frames)
        inner _ (endsNumber_laterMembers members rest)
      obtain ⟨behind, others⟩ := finish_laterMembers
        (fun member within => hyp member (List.mem_cons_of_mem _ within)) member.2 [] member.1
        frames middle rest
      refine ⟨behind, ?_⟩
      rw [utf8_render_object_cons, utf8_memberChars, List.cons_append, List.append_assoc,
        List.append_assoc, opened, first, others]
      rfl

end Cursor

/-- The value of a JSON text with natural numbers. -/
def read? (text : String) : Option Json :=
  match Cursor.value (.ofText text) with
  | .error _ => none
  | .ok (value, cursor) => if cursor.skipBlanks.peek?.isNone then some value else none

/-- Every value is read from what is written of it. -/
theorem read?_render (json : Json)
    : read? json.render = some json := by
  obtain ⟨behind, read⟩ := Cursor.readsElement_render json [] ⟨1, 0⟩ [] endsNumber_nil
  rw [List.append_nil] at read
  have value : Cursor.value (.ofText json.render) = .ok (json, ⟨behind, []⟩) := by
    rw [Cursor.value, Cursor.ofText_eq, read]
    rfl
  rw [read?, value]
  rfl

end Scratchpad.Json
