import Scratchpad.Proofs.Json.Grammar

/-! What JSON texts say, whatever the blanks between their parts. A text of the grammar writes a
tree, in which numbers and strings are kept as they are written.
-/

namespace Scratchpad.Json

open Grammar

/-- A JSON text without the blanks between its parts. -/
inductive Tree where
  | null
  | bool (value : Bool)
  | number (chars : List Char)
  | string (body : List Char)
  | array (items : List Tree)
  | object (members : List (List Char × Tree))

namespace Tree

mutual

/-- The texts of a value. -/
inductive Writes : Tree → List Char → Prop where
  | null : Writes null ['n', 'u', 'l', 'l']
  | true : Writes (bool Bool.true) ['t', 'r', 'u', 'e']
  | false : Writes (bool Bool.false) ['f', 'a', 'l', 's', 'e']
  | number {chars : List Char} (isNumber : Number chars) : Writes (number chars) chars
  | string {body : List Char} (isBody : StringBody body)
    : Writes (string body) ('"' :: (body ++ ['"']))
  | emptyArray {blanks : List Char} (inside : Blanks blanks)
    : Writes (array []) ('[' :: (blanks ++ [']']))
  | array {items : List Tree} {chars : List Char} (inside : WritesItems items chars)
    : Writes (array items) ('[' :: (chars ++ [']']))
  | emptyObject {blanks : List Char} (inside : Blanks blanks)
    : Writes (object []) ('\x7b' :: (blanks ++ ['\x7d']))
  | object {members : List (List Char × Tree)} {chars : List Char}
      (inside : WritesMembers members chars)
    : Writes (object members) ('\x7b' :: (chars ++ ['\x7d']))

/-- The texts of one or more items of an array. -/
inductive WritesItems : List Tree → List Char → Prop where
  | last {item : Tree} {before chars after : List Char} (front : Blanks before)
      (value : Writes item chars) (back : Blanks after)
    : WritesItems [item] (before ++ chars ++ after)
  | more {item : Tree} {items : List Tree} {before chars after rest : List Char}
      (front : Blanks before) (value : Writes item chars) (back : Blanks after)
      (others : WritesItems items rest)
    : WritesItems (item :: items) (before ++ chars ++ after ++ ',' :: rest)

/-- The texts of one or more members of an object. -/
inductive WritesMembers : List (List Char × Tree) → List Char → Prop where
  | last {member : List Char × Tree} {chars : List Char} (only : WritesMember member chars)
    : WritesMembers [member] chars
  | more {member : List Char × Tree} {members : List (List Char × Tree)} {chars rest : List Char}
      (first : WritesMember member chars) (others : WritesMembers members rest)
    : WritesMembers (member :: members) (chars ++ ',' :: rest)

/-- The texts of a member of an object, with the blanks around it. -/
inductive WritesMember : List Char × Tree → List Char → Prop where
  | named {name : List Char} {tree : Tree} {before between blanks chars after : List Char}
      (front : Blanks before) (isBody : StringBody name) (beforeColon : Blanks between)
      (behindColon : Blanks blanks) (value : Writes tree chars) (back : Blanks after)
    : WritesMember (name, tree)
        (before ++ '"' :: (name ++ '"' :: (between ++ ':' :: (blanks ++ chars ++ after))))

end

------------------------------------------------------------------------------------------
-- The texts of the grammar
------------------------------------------------------------------------------------------

mutual

theorem Writes.value {tree : Tree} {chars : List Char}
    : Writes tree chars → Value chars
  | .null => .null
  | .true => .true
  | .false => .false
  | .number isNumber => .number isNumber
  | .string isBody => .string isBody
  | .emptyArray inside => .emptyArray inside
  | .array inside => .array inside.items
  | .emptyObject inside => .emptyObject inside
  | .object inside => .object inside.members

theorem WritesItems.items {items : List Tree} {chars : List Char}
    : WritesItems items chars → Items chars
  | .last front value back => .last front value.value back
  | .more front value back others => .more front value.value back others.items

theorem WritesMembers.members {members : List (List Char × Tree)} {chars : List Char}
    : WritesMembers members chars → Members chars
  | .last only => .last only.member
  | .more first others => .more first.member others.members

theorem WritesMember.member {member : List Char × Tree} {chars : List Char}
    : WritesMember member chars → Member chars
  | .named front isBody beforeColon behindColon value back =>
    .named front isBody beforeColon behindColon value.value back

end

mutual

theorem exists_writes {chars : List Char}
    : Value chars → ∃ tree, Writes tree chars
  | .null => ⟨_, .null⟩
  | .true => ⟨_, .true⟩
  | .false => ⟨_, .false⟩
  | .number isNumber => ⟨_, .number isNumber⟩
  | .string isBody => ⟨_, .string isBody⟩
  | .emptyArray inside => ⟨_, .emptyArray inside⟩
  | .array inside =>
    have ⟨_, items⟩ := exists_writesItems inside
    ⟨_, .array items⟩
  | .emptyObject inside => ⟨_, .emptyObject inside⟩
  | .object inside =>
    have ⟨_, members⟩ := exists_writesMembers inside
    ⟨_, .object members⟩

theorem exists_writesItems {chars : List Char}
    : Items chars → ∃ items, WritesItems items chars
  | .last front value back =>
    have ⟨_, item⟩ := exists_writes value
    ⟨_, .last front item back⟩
  | .more front value back others =>
    have ⟨_, item⟩ := exists_writes value
    have ⟨_, items⟩ := exists_writesItems others
    ⟨_, .more front item back items⟩

theorem exists_writesMembers {chars : List Char}
    : Members chars → ∃ members, WritesMembers members chars
  | .last only =>
    have ⟨_, member⟩ := exists_writesMember only
    ⟨_, .last member⟩
  | .more first others =>
    have ⟨_, member⟩ := exists_writesMember first
    have ⟨_, members⟩ := exists_writesMembers others
    ⟨_, .more member members⟩

theorem exists_writesMember {chars : List Char}
    : Member chars → ∃ member, WritesMember member chars
  | .named front isBody beforeColon behindColon value back =>
    have ⟨_, written⟩ := exists_writes value
    ⟨_, .named front isBody beforeColon behindColon written back⟩

end

------------------------------------------------------------------------------------------
-- Where the text of a tree starts
------------------------------------------------------------------------------------------

/-- The first byte of a tree says what kind of tree it is. -/
def StartsWith (byte : UInt8) : Tree → Prop
  | null => byte = 110
  | bool Bool.true => byte = 116
  | bool Bool.false => byte = 102
  | number _ => byte = 45 ∨ 48 ≤ byte ∧ byte ≤ 57
  | string _ => byte = 34
  | array _ => byte = 91
  | object _ => byte = 123

theorem startsWith_number {chars : List Char} (isNumber : Number chars)
    : ∃ byte bytes, utf8 chars = byte :: bytes ∧ (byte = 45 ∨ 48 ≤ byte ∧ byte ≤ 57) := by
  obtain ⟨rfl | rfl, plain, _, _⟩ := isNumber
  · obtain ⟨byte, bytes, same, figure⟩ := utf8_plain plain
    exact ⟨byte, _, by rw [List.nil_append, utf8_append, utf8_append, same]; rfl, .inr figure⟩
  · exact ⟨45, _, rfl, .inl rfl⟩

theorem Writes.startsWith {tree : Tree} {chars : List Char} (writes : Writes tree chars)
    : ∃ byte bytes, utf8 chars = byte :: bytes ∧ tree.StartsWith byte := by
  cases writes with
  | number isNumber => exact startsWith_number isNumber
  | null => exact ⟨110, _, rfl, rfl⟩
  | true => exact ⟨116, _, rfl, rfl⟩
  | false => exact ⟨102, _, rfl, rfl⟩
  | string => exact ⟨34, _, rfl, rfl⟩
  | emptyArray => exact ⟨91, _, rfl, rfl⟩
  | array => exact ⟨91, _, rfl, rfl⟩
  | emptyObject => exact ⟨123, _, rfl, rfl⟩
  | object => exact ⟨123, _, rfl, rfl⟩

/-- A tree starts neither with a blank nor with the end of an array. -/
theorem StartsWith.not_isBlank {tree : Tree} {byte : UInt8} (starts : tree.StartsWith byte)
    : ¬ Cursor.isBlank byte ∧ byte ≠ 93 := by
  cases tree with
  | null => exact starts ▸ by decide
  | bool value => cases value <;> exact starts ▸ by decide
  | string => exact starts ▸ by decide
  | array => exact starts ▸ by decide
  | object => exact starts ▸ by decide
  | number =>
    obtain rfl | figure := starts
    · decide
    · refine ⟨Cursor.not_isBlank_of_figure figure, ?_⟩
      rintro rfl
      exact absurd figure.2 (by decide)

theorem StartsWith.eq_null {tree : Tree} (starts : tree.StartsWith 110)
    : tree = null := by
  cases tree with
  | null => rfl
  | bool value => cases value <;> simp [StartsWith] at starts
  | _ => simp [StartsWith] at starts

theorem StartsWith.eq_bool {tree : Tree} {byte : UInt8} (starts : tree.StartsWith byte)
    (word : byte = 116 ∨ byte = 102)
    : ∃ value, tree = bool value := by
  cases tree with
  | bool value => exact ⟨value, rfl⟩
  | _ => obtain rfl | rfl := word <;> simp [StartsWith] at starts

theorem StartsWith.eq_string {tree : Tree} (starts : tree.StartsWith 34)
    : ∃ body, tree = string body := by
  cases tree with
  | string body => exact ⟨body, rfl⟩
  | bool value => cases value <;> simp [StartsWith] at starts
  | _ => simp [StartsWith] at starts

theorem StartsWith.eq_number {tree : Tree} {byte : UInt8} (starts : tree.StartsWith byte)
    (sees : byte = 45 ∨ 48 ≤ byte ∧ byte ≤ 57)
    : ∃ chars, tree = number chars := by
  cases tree with
  | number chars => exact ⟨chars, rfl⟩
  | bool value => cases value <;> exact absurd sees (starts ▸ by decide)
  | _ => exact absurd sees (starts ▸ by decide)

end Tree

end Scratchpad.Json
