import Scratchpad.Proofs.Json.Rendering
import Scratchpad.Settings.Reader

/-! Reading the members of an object into settings. A value of the type that its field asks for is
read into that field, whatever blanks are around it, and the reader goes on behind it.
-/

namespace Scratchpad.Json.Cursor

------------------------------------------------------------------------------------------
-- Values of known types
------------------------------------------------------------------------------------------

variable (rest : List UInt8)

variable {blanks : List UInt8} (blank : ∀ byte ∈ blanks, isBlank byte)

include blank

theorem toValue_blanks {byte : UInt8} (stop : ¬ isBlank byte) (place : Place)
    : ∃ behind, toValue ⟨place, blanks ++ byte :: rest⟩ = .ok ⟨behind, byte :: rest⟩ := by
  have skip := skipBlanks_append blank stop place rest
  exact ⟨_, by rw [toValue, skip]; rfl⟩

/-- What is read at the next value is read behind blanks, too. -/
theorem Reads.behindBlanks {α : Type} {reader : Cursor → Except ReadError (α × Cursor)}
    {byte : UInt8} {bytes : List UInt8} {value : α} {rest : List UInt8}
    (reads : Reads reader (byte :: bytes) value rest) (stop : ¬ isBlank byte)
    : Reads (fun cursor => cursor.toValue >>= reader) (blanks ++ byte :: bytes) value rest := by
  intro place
  obtain ⟨middle, start⟩ := toValue_blanks (bytes ++ rest) blank stop place
  obtain ⟨behind, read⟩ := reads middle
  refine ⟨behind, ?_⟩
  rw [List.append_assoc, List.cons_append]
  simp only [start]
  exact read

theorem stringOrNull_null
    : Reads stringOrNull (blanks ++ [110, 117, 108, 108]) none rest :=
  Reads.behindBlanks blank (reads_word none 110 [117, 108, 108] rest) (by decide)

theorem stringOrNull_string {body : List Char} {text : String}
    (spelling : Spelling body text.toList)
    : Reads stringOrNull (blanks ++ 34 :: (utf8 body ++ [34])) (some text) rest :=
  Reads.behindBlanks blank (((string_spelling rest spelling).map some).advance 34) (by decide)

theorem truth_render (value : Bool)
    : Reads truth (blanks ++ utf8 (Json.bool value).render.toList) value rest := by
  cases value with
  | true => exact Reads.behindBlanks blank (reads_word true 116 [114, 117, 101] rest) (by decide)
  | false =>
    exact Reads.behindBlanks blank (reads_word false 102 [97, 108, 115, 101] rest) (by decide)

theorem natural_plain {name : String} {bound : Nat} {figures : List Char} (plain : Plain figures)
    (inside : Nat.ofDigitChars 10 figures 0 ≤ bound) (room : bound ≤ greatestNatural)
    (ends : EndsNumber rest)
    : Reads (natural name bound) (blanks ++ utf8 figures) (Nat.ofDigitChars 10 figures 0) rest := by
  obtain ⟨byte, bytes, same, figure⟩ := utf8_plain plain
  have number := number_plain plain (Nat.le_trans inside room) ends
  have sees : ∀ place, atNumber ⟨place, utf8 figures ++ rest⟩ = true := fun place => by
    simp [atNumber, atFigure_plain plain]
  rw [same] at number sees ⊢
  refine Reads.behindBlanks blank (fun place => ?_) (not_isBlank_of_figure figure)
  obtain ⟨behind, read⟩ := number place
  refine ⟨behind, ?_⟩
  simp only [sees, if_true, read]
  exact if_pos inside

end Scratchpad.Json.Cursor

namespace Scratchpad.Settings

open Json Json.Cursor

------------------------------------------------------------------------------------------
-- Members
------------------------------------------------------------------------------------------

variable {members next : Members} {settings : Settings} {bytes back rest : List UInt8}

/-- Where the name of a member is the member is read, and then the others. -/
theorem readMembers_named {first : Bool} {cursor name : Cursor}
    (found : toName? first cursor = .ok (some name))
    : readMembers first members cursor =
        readNamed members name >>= fun read => readMembers false read.1 read.2 := by
  rw [readMembers]
  split
  · simp_all
  · simp_all
  · rename_i cursor at'
    obtain rfl : name = cursor := by simpa [found] using at'
    split <;> simp_all [bind, Except.bind]

/-- Members are read one after the other from where the name of the first is. -/
theorem readMembers_of_toName? {first : Bool}
    (start : ∀ place, ∃ name, toName? first ⟨place, bytes ++ (back ++ rest)⟩ = .ok (some name) ∧
      ∃ behind, readNamed members name = .ok (next, ⟨behind, back ++ rest⟩))
    (others : Reads (readMembers false next) back settings rest)
    : Reads (readMembers first members) (bytes ++ back) settings rest := by
  intro place
  obtain ⟨name, found, middle, member⟩ := start place
  obtain ⟨behind, read⟩ := others middle
  refine ⟨behind, ?_⟩
  rw [List.append_assoc, readMembers_named found, member]
  exact read

variable {blanks : List UInt8} (blank : ∀ byte ∈ blanks, isBlank byte)

include blank

theorem skipColon_blanks (place : Place) (rest : List UInt8)
    : ∃ behind, skipColon ⟨place, blanks ++ 58 :: rest⟩ = .ok ⟨behind, rest⟩ := by
  have skip := skipBlanks_append blank (show ¬ isBlank 58 by decide) place rest
  exact ⟨_, by rw [skipColon, skip]; rfl⟩

/-- A member of a field that was not read before is read into that field. -/
theorem readMember_field {name : String} {field : Field} (known : Field.ofName? name = some field)
    (fresh : field ∉ members.seen)
    (reads : Reads (field.read members.settings) bytes settings rest)
    : Reads (readMember members name) (blanks ++ 58 :: bytes)
        ⟨settings, field :: members.seen⟩ rest := by
  intro place
  obtain ⟨middle, colon⟩ := skipColon_blanks blank place (bytes ++ rest)
  obtain ⟨behind, read⟩ := reads middle
  have new : members.seen.contains field = false := by simpa using fresh
  refine ⟨behind, ?_⟩
  rw [List.append_assoc, List.cons_append]
  simp only [readMember, known, new, colon, bind, Except.bind, read]
  rfl

theorem readNamed_field {body : List Char} {name : String} (spelling : Spelling body name.toList)
    {field : Field} (known : Field.ofName? name = some field) (fresh : field ∉ members.seen)
    (reads : Reads (field.read members.settings) bytes settings rest)
    : Reads (readNamed members) (34 :: (utf8 body ++ [34] ++ (blanks ++ 58 :: bytes)))
        ⟨settings, field :: members.seen⟩ rest :=
  ((string_spelling _ spelling).bind (readMember_field blank known fresh reads)).advance 34

/-- At the end of an object its members have been read. -/
theorem readMembers_end (first : Bool)
    : Reads (readMembers first members) (blanks ++ [125]) members.settings rest := by
  intro place
  have skip := skipBlanks_append blank (show ¬ isBlank 125 by decide) place rest
  have done : toName? first ⟨place, blanks ++ 125 :: rest⟩ = .ok none := by
    rw [toName?, skip]
    rfl
  refine ⟨(blanks.foldl Place.after place).after 125, ?_⟩
  rw [List.append_assoc, List.singleton_append, readMembers]
  split
  · simp_all
  · rw [skip]
    rfl
  · simp_all

/-- The first member of an object is read before the others. -/
theorem readMembers_first (member : Reads (readNamed members) (34 :: bytes) next (back ++ rest))
    (others : Reads (readMembers false next) back settings rest)
    : Reads (readMembers true members) (blanks ++ 34 :: bytes ++ back) settings rest := by
  refine readMembers_of_toName? (fun place => ⟨_, ?_, member (blanks.foldl Place.after place)⟩)
    others
  have skip := skipBlanks_append blank (show ¬ isBlank 34 by decide) place
    (bytes ++ (back ++ rest))
  rw [List.append_assoc, List.cons_append, toName?, skip]
  rfl

/-- Behind a comma a member of an object is read before the others. -/
theorem readMembers_next {further : List UInt8} (blank' : ∀ byte ∈ further, isBlank byte)
    (member : Reads (readNamed members) (34 :: bytes) next (back ++ rest))
    (others : Reads (readMembers false next) back settings rest)
    : Reads (readMembers false members) (blanks ++ 44 :: (further ++ 34 :: bytes) ++ back)
        settings rest := by
  refine readMembers_of_toName? (fun place => ⟨_, ?_, member
    (further.foldl Place.after ((blanks.foldl Place.after place).after 44))⟩) others
  have skip := skipBlanks_append blank (show ¬ isBlank 44 by decide) place
    (further ++ 34 :: bytes ++ (back ++ rest))
  have skip' := skipBlanks_append blank' (show ¬ isBlank 34 by decide)
    ((blanks.foldl Place.after place).after 44) (bytes ++ (back ++ rest))
  rw [List.append_assoc, List.cons_append, toName?, skip]
  simp only [List.append_assoc, List.cons_append, peek?, List.head?_cons, Bool.false_eq_true,
    if_false, Cursor.advance, skip']
  rfl

end Scratchpad.Settings
