import Scratchpad.Proofs.Json.Rendering

/-! The grammar of JSON texts, to which all that is written keeps. Blanks may stand between the
parts of a text, numbers may have a sign, a fraction and an exponent, and strings may have escapes
of any 16 bits.
-/

namespace Scratchpad.Json

------------------------------------------------------------------------------------------
-- Numbers and strings
------------------------------------------------------------------------------------------

namespace Grammar

/-- Characters without meaning between the parts of a text. -/
def Blanks (chars : List Char) : Prop :=
  ∀ char ∈ chars, char = ' ' ∨ char = '\n' ∨ char = '\t' ∨ char = '\r'

/-- One or more figures. -/
def Figures (chars : List Char) : Prop :=
  chars ≠ [] ∧ ∀ char ∈ chars, char.isDigit

/-- Perhaps a fraction. -/
inductive Fraction : List Char → Prop where
  | none : Fraction []
  | point {figures : List Char} (some : Figures figures) : Fraction ('.' :: figures)

/-- Perhaps an exponent of ten. -/
inductive Exponent : List Char → Prop where
  | none : Exponent []
  | power {letter : Char} {sign figures : List Char} (isLetter : letter = 'e' ∨ letter = 'E')
      (isSign : sign = [] ∨ sign = ['+'] ∨ sign = ['-']) (some : Figures figures)
    : Exponent (letter :: (sign ++ figures))

/-- A number. -/
inductive Number : List Char → Prop where
  | parts {sign integer fraction exponent : List Char} (isSign : sign = [] ∨ sign = ['-'])
      (plain : Plain integer) (isFraction : Fraction fraction) (isExponent : Exponent exponent)
    : Number (sign ++ integer ++ fraction ++ exponent)

/-- What may stand between quotation marks. -/
inductive StringBody : List Char → Prop where
  | nil : StringBody []
  | bare {char : Char} {body : List Char} (self : Bare char) (behind : StringBody body)
    : StringBody (char :: body)
  | letter {letter : Char} {body : List Char} (escape : (escapeMeaning? letter).isSome)
      (behind : StringBody body)
    : StringBody ('\\' :: letter :: body)
  | unit {a b c d : Char} {body : List Char} (digits : (hexUnit? a b c d).isSome)
      (behind : StringBody body)
    : StringBody ('\\' :: 'u' :: a :: b :: c :: d :: body)

------------------------------------------------------------------------------------------
-- Values
------------------------------------------------------------------------------------------

mutual

/-- A value. -/
inductive Value : List Char → Prop where
  | null : Value ['n', 'u', 'l', 'l']
  | true : Value ['t', 'r', 'u', 'e']
  | false : Value ['f', 'a', 'l', 's', 'e']
  | number {chars : List Char} (number : Number chars) : Value chars
  | string {body : List Char} (string : StringBody body) : Value ('"' :: (body ++ ['"']))
  | emptyArray {blanks : List Char} (inside : Blanks blanks) : Value ('[' :: (blanks ++ [']']))
  | array {items : List Char} (inside : Items items) : Value ('[' :: (items ++ [']']))
  | emptyObject {blanks : List Char} (inside : Blanks blanks)
    : Value ('\x7b' :: (blanks ++ ['\x7d']))
  | object {members : List Char} (inside : Members members)
    : Value ('\x7b' :: (members ++ ['\x7d']))

/-- One or more items of an array. -/
inductive Items : List Char → Prop where
  | last {before item after : List Char} (front : Blanks before) (value : Value item)
      (back : Blanks after)
    : Items (before ++ item ++ after)
  | more {before item after items : List Char} (front : Blanks before) (value : Value item)
      (back : Blanks after) (others : Items items)
    : Items (before ++ item ++ after ++ ',' :: items)

/-- One or more members of an object. -/
inductive Members : List Char → Prop where
  | last {member : List Char} (only : Member member) : Members member
  | more {member members : List Char} (first : Member member) (others : Members members)
    : Members (member ++ ',' :: members)

/-- A member of an object, with the blanks around it. -/
inductive Member : List Char → Prop where
  | named {before name between blanks value after : List Char} (front : Blanks before)
      (string : StringBody name) (beforeColon : Blanks between) (behindColon : Blanks blanks)
      (isValue : Value value) (back : Blanks after)
    : Member (before ++ '"' :: (name ++ '"' :: (between ++ ':' :: (blanks ++ value ++ after))))

end

/-- A whole text that is an object. -/
def ObjectText (text : String) : Prop :=
  ∃ before inside after, Blanks before ∧ (Blanks inside ∨ Members inside) ∧ Blanks after ∧
    text.toList = before ++ '\x7b' :: (inside ++ '\x7d' :: after)

end Grammar

------------------------------------------------------------------------------------------
-- What is written
------------------------------------------------------------------------------------------

/-- A property holds of all values if it holds of each value of which it holds of the parts. -/
theorem inductionOn {motive : Json → Prop} (null : motive .null)
    (bool : ∀ value, motive (.bool value)) (number : ∀ value, motive (.number value))
    (string : ∀ text, motive (.string text))
    (array : ∀ items, (∀ item ∈ items, motive item) → motive (.array items))
    (object : ∀ members, (∀ member ∈ members, motive member.2) → motive (.object members))
    : ∀ json, motive json
  | .null => null
  | .bool value => bool value
  | .number value => number value
  | .string text => string text
  | .array items =>
    array items fun item _ => inductionOn null bool number string array object item
  | .object members =>
    object members fun member _ => inductionOn null bool number string array object member.2
termination_by json => sizeOf json
decreasing_by
  · have := List.sizeOf_lt_of_mem ‹item ∈ items›
    rw [Json.array.sizeOf_spec]
    omega
  · have := List.sizeOf_lt_of_mem ‹member ∈ members›
    have : sizeOf member = 1 + sizeOf member.1 + sizeOf member.2 := rfl
    rw [Json.object.sizeOf_spec]
    omega

open Grammar

theorem stringBody_of_spelling {body text : List Char} (spelling : Spelling body text)
    : StringBody body := by
  induction spelling with
  | nil => exact .nil
  | bare self _ hyp => exact .bare self hyp
  | letter meaning _ hyp => exact .letter (Option.isSome_of_eq_some meaning) hyp
  | unit digits _ _ hyp => exact .unit (Option.isSome_of_eq_some digits) hyp
  | pair first _ second _ _ hyp =>
    exact .unit (Option.isSome_of_eq_some first) (.unit (Option.isSome_of_eq_some second) hyp)

theorem blanks_nil
    : Blanks [] :=
  List.forall_mem_nil _

theorem stringBody_escaped (text : String)
    : StringBody (text.toList.flatMap escapedChar) :=
  stringBody_of_spelling (spelling_escaped text.toList)

/-- Items behind an item, each after a comma, are items. -/
theorem items_flatMap {item : Json} {rest : List Json}
    (values : ∀ other ∈ item :: rest, Value other.render.toList)
    : Items (item.render.toList ++ rest.flatMap fun item => ',' :: item.render.toList) := by
  have first := values item List.mem_cons_self
  induction rest generalizing item with
  | nil => simpa using Items.last blanks_nil first blanks_nil
  | cons next rest hyp =>
    have values : ∀ other ∈ next :: rest, Value other.render.toList := fun other within =>
      values other (List.mem_cons_of_mem _ within)
    have others := hyp values (values next List.mem_cons_self)
    simpa using Items.more blanks_nil first blanks_nil others

theorem member_memberChars {member : String × Json} (value : Value member.2.render.toList)
    : Member (memberChars member) := by
  have named := Member.named blanks_nil (stringBody_escaped member.1) blanks_nil blanks_nil value
    blanks_nil
  simpa [memberChars, toList_quote] using named

/-- Members behind a member, each after a comma, are members. -/
theorem members_flatMap {member : String × Json} {rest : List (String × Json)}
    (values : ∀ other ∈ member :: rest, Value other.2.render.toList)
    : Members (memberChars member ++ rest.flatMap fun member => ',' :: memberChars member) := by
  have first := member_memberChars (values member List.mem_cons_self)
  induction rest generalizing member with
  | nil => simpa using Members.last first
  | cons next rest hyp =>
    have values : ∀ other ∈ next :: rest, Value other.2.render.toList := fun other within =>
      values other (List.mem_cons_of_mem _ within)
    have others := hyp values (member_memberChars (values next List.mem_cons_self))
    simpa using Members.more first others

/-- What is written of a value keeps to the grammar. -/
theorem value_render (json : Json)
    : Value json.render.toList := by
  induction json using inductionOn with
  | null => exact .null
  | bool value => cases value with
    | true => exact .true
    | false => exact .false
  | number value =>
    rw [toList_render_number]
    have number := Number.parts (.inl rfl) (plain_toDigits value) .none .none
    exact .number (by simpa using number)
  | string text =>
    rw [toList_render_string]
    exact .string (stringBody_escaped text)
  | array items hyp =>
    rw [toList_render_array]
    cases items with
    | nil => exact .emptyArray blanks_nil
    | cons item rest =>
      rw [toList_renderItems]
      exact .array (items_flatMap hyp)
  | object members hyp =>
    rw [toList_render_object]
    cases members with
    | nil => exact .emptyObject blanks_nil
    | cons member rest =>
      rw [toList_renderMembers]
      exact .object (members_flatMap hyp)

/-- What is written of an object is the text of an object. -/
theorem objectText_render (members : List (String × Json))
    : ObjectText (object members).render := by
  have inside : Blanks (render.renderMembers members).toList ∨
      Members (render.renderMembers members).toList := by
    cases members with
    | nil => exact .inl blanks_nil
    | cons member rest =>
      rw [toList_renderMembers]
      exact .inr (members_flatMap fun other _ => value_render other.2)
  exact ⟨[], _, [], blanks_nil, inside, blanks_nil, toList_render_object members⟩

end Scratchpad.Json
