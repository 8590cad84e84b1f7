import Scratchpad.Proofs.Json.Numbers

/-! The compact text of a JSON value, character by character. Elements of a list are written one
after the other, all but the first behind a comma.
-/

namespace Scratchpad.Json

/-- The characters of the members of an object, one by one. -/
def memberChars (member : String × Json) : List Char :=
  (quote member.1).toList ++ ':' :: member.2.render.toList

theorem toList_render_number (value : Nat)
    : (number value).render.toList = Nat.toDigits 10 value :=
  Nat.toList_repr

theorem toList_render_string (text : String)
    : (string text).render.toList = '"' :: (text.toList.flatMap escapedChar ++ ['"']) :=
  toList_quote text

theorem toList_renderItems (item : Json) (rest : List Json)
    : (render.renderItems (item :: rest)).toList =
        item.render.toList ++ rest.flatMap fun item => ',' :: item.render.toList := by
  induction rest generalizing item with
  | nil => simp [render.renderItems]
  | cons next rest hyp => simp [render.renderItems, hyp]

theorem toList_render_array (items : List Json)
    : (array items).render.toList = '[' :: ((render.renderItems items).toList ++ [']']) := by
  simp [render]

theorem exists_memberChars (member : String × Json)
    : ∃ chars, memberChars member = '"' :: chars :=
  ⟨_, by rw [memberChars, toList_quote, List.cons_append]⟩

theorem toList_renderMembers (member : String × Json) (rest : List (String × Json))
    : (render.renderMembers (member :: rest)).toList =
        memberChars member ++ rest.flatMap fun member => ',' :: memberChars member := by
  induction rest generalizing member with
  | nil => simp [render.renderMembers, memberChars]
  | cons next rest hyp => simp [render.renderMembers, memberChars, hyp]

theorem toList_render_object (members : List (String × Json))
    : (object members).render.toList =
        '\x7b' :: ((render.renderMembers members).toList ++ ['\x7d']) := by
  simp [render]

------------------------------------------------------------------------------------------
-- Bytes
------------------------------------------------------------------------------------------

/-- The bytes of an array behind its first item. -/
def laterItems (items : List Json) : List UInt8 :=
  utf8 (items.flatMap fun item => ',' :: item.render.toList) ++ [93]

/-- The bytes of an object behind its first member. -/
def laterMembers (members : List (String × Json)) : List UInt8 :=
  utf8 (members.flatMap fun member => ',' :: memberChars member) ++ [125]

theorem utf8_memberChars (member : String × Json)
    : utf8 (memberChars member) =
        utf8 (quote member.1).toList ++ [58] ++ utf8 member.2.render.toList := by
  rw [memberChars, utf8_append, List.append_assoc]
  rfl

theorem utf8_render_array_cons (item : Json) (rest : List Json)
    : utf8 (array (item :: rest)).render.toList =
        91 :: (utf8 item.render.toList ++ laterItems rest) := by
  have opening : String.utf8EncodeChar '[' = [91] := rfl
  have closing : utf8 [']'] = [93] := rfl
  simp only [toList_render_array, toList_renderItems, utf8_cons, utf8_append, opening, closing,
    laterItems, List.singleton_append, List.append_assoc]

theorem utf8_render_object_cons (member : String × Json) (rest : List (String × Json))
    : utf8 (object (member :: rest)).render.toList =
        123 :: (utf8 (memberChars member) ++ laterMembers rest) := by
  have opening : String.utf8EncodeChar '\x7b' = [123] := rfl
  have closing : utf8 ['\x7d'] = [125] := rfl
  simp only [toList_render_object, toList_renderMembers, utf8_cons, utf8_append, opening, closing,
    laterMembers, List.singleton_append, List.append_assoc]

theorem laterItems_cons (item : Json) (items : List Json)
    : laterItems (item :: items) = 44 :: utf8 item.render.toList ++ laterItems items := by
  have comma : String.utf8EncodeChar ',' = [44] := rfl
  simp only [laterItems, List.flatMap_cons, utf8_cons, utf8_append, comma, List.append_assoc,
    List.cons_append, List.nil_append]

theorem laterMembers_cons (member : String × Json) (members : List (String × Json))
    : laterMembers (member :: members) =
        44 :: utf8 (memberChars member) ++ laterMembers members := by
  have comma : String.utf8EncodeChar ',' = [44] := rfl
  simp only [laterMembers, List.flatMap_cons, utf8_cons, utf8_append, comma, List.append_assoc,
    List.cons_append, List.nil_append]

/-- A number that is an item ends before what follows. -/
theorem endsNumber_laterItems (items : List Json) (rest : List UInt8)
    : EndsNumber (laterItems items ++ rest) := by
  cases items with
  | nil => exact endsNumber_cons (by decide) rest
  | cons item items => exact endsNumber_cons (by decide) _

/-- A number that is the value of a member ends before what follows. -/
theorem endsNumber_laterMembers (members : List (String × Json)) (rest : List UInt8)
    : EndsNumber (laterMembers members ++ rest) := by
  cases members with
  | nil => exact endsNumber_cons (by decide) rest
  | cons member members => exact endsNumber_cons (by decide) _

/-- What is written of a value starts neither with a blank nor with the end of an array. -/
theorem utf8_render_first (json : Json)
    : ∃ byte bytes, utf8 json.render.toList = byte :: bytes ∧ ¬ Cursor.isBlank byte ∧
        byte ≠ 93 := by
  cases json with
  | null => exact ⟨110, [117, 108, 108], rfl, by decide⟩
  | bool value =>
    cases value with
    | true => exact ⟨116, [114, 117, 101], rfl, by decide⟩
    | false => exact ⟨102, [97, 108, 115, 101], rfl, by decide⟩
  | number value =>
    obtain ⟨byte, bytes, same, figure⟩ := utf8_plain (plain_toDigits value)
    have written := (congrArg utf8 (toList_render_number value)).trans same
    refine ⟨byte, bytes, written, Cursor.not_isBlank_of_figure figure, ?_⟩
    rintro rfl
    exact absurd figure.2 (by decide)
  | string text => exact ⟨34, _, congrArg utf8 (toList_render_string text), by decide⟩
  | array items => exact ⟨91, _, congrArg utf8 (toList_render_array items), by decide⟩
  | object members => exact ⟨123, _, congrArg utf8 (toList_render_object members), by decide⟩

end Scratchpad.Json
