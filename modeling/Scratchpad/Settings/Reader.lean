import Scratchpad.Json.Skip
import Scratchpad.Settings

/-! Reading settings from a JSON text: an object, or an array with the values in the order of the
fields. Fields that are left out keep their defaults, and members of other names are passed over.
-/

namespace Scratchpad

namespace Json.Cursor

------------------------------------------------------------------------------------------
-- Values of known types
------------------------------------------------------------------------------------------

/-- The cursor at the next value. -/
def toValue (cursor : Cursor) : Except ReadError Cursor :=
  let cursor := cursor.skipBlanks
  if cursor.peek?.isNone then cursor.failAhead .endInValue else .ok cursor

/-- Reads what is not of the type that is asked for, as far as is needed to name it. -/
def unexpected (cursor : Cursor) : Except ReadError (Unexpected × Cursor) := do
  let next := cursor.advance
  if cursor.peek? = some 110 then
    return (.null, ← next.expect [117, 108, 108])
  else if cursor.peek? = some 116 then
    return (.bool true, ← next.expect [114, 117, 101])
  else if cursor.peek? = some 102 then
    return (.bool false, ← next.expect [97, 108, 115, 101])
  else if cursor.atNumber then
    let (numeral, cursor) ← cursor.number
    return (.number numeral, cursor)
  else if cursor.peek? = some 34 then
    let (text, cursor) ← next.string
    return (.string text, cursor)
  else if cursor.peek? = some 91 then
    return (.sequence, cursor)
  else if cursor.peek? = some 123 then
    return (.map, cursor)
  else
    cursor.failAhead .expectedValue

/-- The fault that a value is not of the type that is asked for. -/
def wrongType {α : Type} (expected : String) (cursor : Cursor) : Except ReadError α := do
  let (found, cursor) ← cursor.unexpected
  cursor.fail (.invalidType found expected)

/-- Reads a string or `null`. -/
def stringOrNull (cursor : Cursor) : Except ReadError (Option String × Cursor) := do
  let cursor ← cursor.toValue
  if cursor.peek? = some 110 then
    return (none, ← cursor.advance.expect [117, 108, 108])
  else if cursor.peek? = some 34 then
    let (text, cursor) ← cursor.advance.string
    return (some text, cursor)
  else
    cursor.wrongType "a string"

/-- Reads a truth value. -/
def truth (cursor : Cursor) : Except ReadError (Bool × Cursor) := do
  let cursor ← cursor.toValue
  if cursor.peek? = some 116 then
    return (true, ← cursor.advance.expect [114, 117, 101])
  else if cursor.peek? = some 102 then
    return (false, ← cursor.advance.expect [97, 108, 115, 101])
  else
    cursor.wrongType "a boolean"

/-- Reads a natural number up to a bound, which is known under a name. -/
def natural (name : String) (bound : Nat) (cursor : Cursor)
    : Except ReadError (Nat × Cursor) := do
  let cursor ← cursor.toValue
  if cursor.atNumber then
    let (numeral, cursor) ← cursor.number
    match numeral with
    | .natural value =>
      if value ≤ bound then
        return (value, cursor)
      else
        cursor.fail (.invalidValue (.number numeral) name)
    | .negative _ => cursor.fail (.invalidValue (.number numeral) name)
    | .real _ _ => cursor.fail (.invalidType (.number numeral) name)
  else
    cursor.wrongType name

end Json.Cursor

namespace Settings

open Json

------------------------------------------------------------------------------------------
-- Fields
------------------------------------------------------------------------------------------

/-- The settings by name. -/
inductive Field where
  | defaultPreset
  | memoize
  | compressionLevel
  | maxDecodedBytes
deriving DecidableEq

namespace Field

/-- The fields in order. -/
def all : List Field :=
  [defaultPreset, memoize, compressionLevel, maxDecodedBytes]

/-- The name of a field in a JSON text. -/
def name : Field → String
  | defaultPreset => "default_preset"
  | memoize => "memoize"
  | compressionLevel => "compression_level"
  | maxDecodedBytes => "max_decoded_bytes"

/-- The field of a name. -/
def ofName? (name : String) : Option Field :=
  all.find? (·.name == name)

/-- Reads the value of a field into the settings. -/
def read (field : Field) (settings : Settings) (cursor : Cursor)
    : Except ReadError (Settings × Cursor) := do
  match field with
  | defaultPreset =>
    let (value, cursor) ← cursor.stringOrNull
    return ({ settings with defaultPreset := value }, cursor)
  | memoize =>
    let (value, cursor) ← cursor.truth
    return ({ settings with memoize := value }, cursor)
  | compressionLevel =>
    let (value, cursor) ← cursor.natural "u8" 255
    return ({ settings with compressionLevel := UInt8.ofNat value }, cursor)
  | maxDecodedBytes =>
    let (value, cursor) ← cursor.natural "usize" 18446744073709551615
    return ({ settings with maxDecodedBytes := UInt64.ofNat value }, cursor)

end Field

------------------------------------------------------------------------------------------
-- Arrays
------------------------------------------------------------------------------------------

/-- Reads the end of an array behind all fields. -/
def readArrayEnd (settings : Settings) (cursor : Cursor)
    : Except ReadError (Settings × Cursor) :=
  let cursor := cursor.skipBlanks
  match cursor.peek? with
  | none => cursor.failAhead .endInList
  | some 93 => .ok (settings, cursor.advance)
  | some 44 =>
    let cursor := cursor.advance.skipBlanks
    if cursor.peek? = some 93 then
      cursor.failAhead .trailingComma
    else
      cursor.failAhead .trailingCharacters
  | some _ => cursor.failAhead .trailingCharacters

/-- Passes over the comma before an item that is not the first. -/
def skipItemComma (cursor : Cursor) : Except ReadError Cursor :=
  if cursor.peek? = some 44 then
    let cursor := cursor.advance.skipBlanks
    match cursor.peek? with
    | none => cursor.failAhead .endInValue
    | some 93 => cursor.failAhead .trailingComma
    | some _ => .ok cursor
  else
    cursor.failAhead .expectedListEnd

/-- Reads the items of an array into the given fields, as far as there are items. -/
def readItems (first : Bool) (settings : Settings) (cursor : Cursor)
    : List Field → Except ReadError (Settings × Cursor)
  | [] => readArrayEnd settings cursor
  | field :: fields => do
    let cursor := cursor.skipBlanks
    match cursor.peek? with
    | none => cursor.failAhead .endInList
    | some 93 => readArrayEnd settings cursor
    | some _ =>
      let cursor ← if first then .ok cursor else skipItemComma cursor
      let (settings, cursor) ← field.read settings cursor
      readItems false settings cursor fields

------------------------------------------------------------------------------------------
-- Objects
------------------------------------------------------------------------------------------

/-- The cursor at the name of the next member, or none at the end of the object. -/
def toName? (first : Bool) (cursor : Cursor) : Except ReadError (Option Cursor) :=
  let cursor := cursor.skipBlanks
  match cursor.peek? with
  | none => cursor.failAhead .endInObject
  | some 125 => .ok none
  | some 44 =>
    if first then
      .ok (some cursor)
    else
      let cursor := cursor.advance.skipBlanks
      match cursor.peek? with
      | none => cursor.failAhead .endInValue
      | some 125 => cursor.failAhead .trailingComma
      | some _ => .ok (some cursor)
  | some _ => if first then .ok (some cursor) else cursor.failAhead .expectedObjectEnd

/-- Passes over the colon behind a name. -/
def skipColon (cursor : Cursor) : Except ReadError Cursor :=
  let cursor := cursor.skipBlanks
  match cursor.peek? with
  | none => cursor.failAhead .endInObject
  | some 58 => .ok cursor.advance
  | some _ => cursor.failAhead .expectedColon

/-- What is known in the middle of an object: the settings so far and the fields they come from. -/
structure Members where
  settings : Settings
  seen : List Field

/-- The cursor behind the end of an object, if nothing but blanks is before it, and else behind
these.
-/
def behindObject (cursor : Cursor) : Cursor :=
  let cursor := cursor.skipBlanks
  if cursor.peek? = some 125 then cursor.advance else cursor

/-- Reads the value behind a name. A field may occur once, which is judged before the colon; the
object is still ended, if it can be, before the fault is placed.
-/
def readMember (members : Members) (name : String) (cursor : Cursor)
    : Except ReadError (Members × Cursor) := do
  match Field.ofName? name with
  | none =>
    let cursor ← skipColon cursor
    let cursor ← cursor.skipValue
    return (members, cursor)
  | some field =>
    if members.seen.contains field then
      (behindObject cursor).fail (.duplicateField name)
    else
      let cursor ← skipColon cursor
      let (settings, cursor) ← field.read members.settings cursor
      return (⟨settings, field :: members.seen⟩, cursor)

/-- Reads a member from its name on. -/
def readNamed (members : Members) (cursor : Cursor) : Except ReadError (Members × Cursor) := do
  if cursor.peek? = some 34 then
    let (name, cursor) ← cursor.advance.string
    readMember members name cursor
  else
    cursor.failAhead .keyNotString

------------------------------------------------------------------------------------------
-- Readers do not go back
------------------------------------------------------------------------------------------

theorem wrongType_ne_ok {α : Type} {expected : String} {cursor : Cursor} {value : α}
    : cursor.wrongType expected ≠ .ok value := by
  simp only [Cursor.wrongType, bind, Except.bind, Cursor.fail]
  split <;> simp

theorem ahead_toValue {cursor after : Cursor} (found : cursor.toValue = .ok after)
    : after.ahead ≤ cursor.ahead := by
  have := cursor.ahead_skipBlanks
  simp only [Cursor.toValue, Cursor.failAhead, Cursor.fail] at found
  split at found
  · contradiction
  · obtain rfl := Except.ok.inj found
    assumption

theorem ahead_stringOrNull {cursor after : Cursor} {value : Option String}
    (found : cursor.stringOrNull = .ok (value, after))
    : after.ahead ≤ cursor.ahead := by
  simp only [Cursor.stringOrNull, bind, Except.bind, pure, Except.pure] at found
  split at found
  · contradiction
  · rename_i start
    have := ahead_toValue start
    have := Cursor.ahead_advance_le ‹_›
    repeat' split at found
    all_goals first | contradiction | exact absurd found wrongType_ne_ok | skip
    · obtain ⟨-, rfl⟩ := by simpa using found
      have := Cursor.ahead_expect ‹_›
      omega
    · obtain ⟨-, rfl⟩ := by simpa using found
      have := Cursor.ahead_string ‹_›
      omega

theorem ahead_truth {cursor after : Cursor} {value : Bool}
    (found : cursor.truth = .ok (value, after))
    : after.ahead ≤ cursor.ahead := by
  simp only [Cursor.truth, bind, Except.bind, pure, Except.pure] at found
  split at found
  · contradiction
  · rename_i start
    have := ahead_toValue start
    have := Cursor.ahead_advance_le ‹_›
    repeat' split at found
    all_goals first | contradiction | exact absurd found wrongType_ne_ok | skip
    all_goals
      obtain ⟨-, rfl⟩ := by simpa using found
      have := Cursor.ahead_expect ‹_›
      omega

theorem ahead_natural {cursor after : Cursor} {name : String} {bound value : Nat}
    (found : cursor.natural name bound = .ok (value, after))
    : after.ahead ≤ cursor.ahead := by
  simp only [Cursor.natural, bind, Except.bind, pure, Except.pure, Cursor.fail] at found
  split at found
  · contradiction
  · rename_i start
    have := ahead_toValue start
    repeat' split at found
    all_goals first | contradiction | exact absurd found wrongType_ne_ok | skip
    obtain ⟨-, rfl⟩ := by simpa using found
    have := Cursor.ahead_number ‹_›
    omega

theorem ahead_read {field : Field} {before settings : Settings} {cursor after : Cursor}
    (found : field.read before cursor = .ok (settings, after))
    : after.ahead ≤ cursor.ahead := by
  cases field
  all_goals
    simp only [Field.read, bind, Except.bind, pure, Except.pure] at found
    split at found
    · contradiction
    obtain ⟨-, rfl⟩ := by simpa using found
  · exact ahead_stringOrNull ‹_›
  · exact ahead_truth ‹_›
  · exact ahead_natural ‹_›
  · exact ahead_natural ‹_›

theorem ahead_toName {first : Bool} {cursor after : Cursor}
    (found : toName? first cursor = .ok (some after))
    : after.ahead ≤ cursor.ahead := by
  have := cursor.ahead_skipBlanks
  have := cursor.skipBlanks.ahead_advance_le
  have := cursor.skipBlanks.advance.ahead_skipBlanks
  simp only [toName?, Cursor.failAhead, Cursor.fail] at found
  repeat' split at found
  all_goals
    first
    | contradiction
    | have same := Option.some.inj (Except.ok.inj found)
      subst same
      omega
    | cases Except.ok.inj found

theorem ahead_skipColon {cursor after : Cursor} (found : skipColon cursor = .ok after)
    : after.ahead ≤ cursor.ahead := by
  have := cursor.ahead_skipBlanks
  have := cursor.skipBlanks.ahead_advance_le
  simp only [skipColon, Cursor.failAhead, Cursor.fail] at found
  repeat' split at found
  all_goals first | contradiction | skip
  obtain rfl := Except.ok.inj found
  omega

theorem ahead_readMember {before members : Members} {name : String} {cursor after : Cursor}
    (found : readMember before name cursor = .ok (members, after))
    : after.ahead ≤ cursor.ahead := by
  simp only [readMember, bind, Except.bind, pure, Except.pure, Cursor.fail] at found
  repeat' split at found
  all_goals first | contradiction | skip
  · rename_i colon _ _ value
    obtain ⟨-, rfl⟩ := by simpa using found
    have := ahead_skipColon colon
    have := Cursor.ahead_skipElements value
    omega
  · rename_i colon _ _ value
    obtain ⟨-, rfl⟩ := by simpa using found
    have := ahead_skipColon colon
    have := ahead_read value
    omega

theorem ahead_readNamed {before members : Members} {cursor after : Cursor}
    (found : readNamed before cursor = .ok (members, after))
    : after.ahead < cursor.ahead := by
  simp only [readNamed, bind, Except.bind, Cursor.failAhead, Cursor.fail] at found
  repeat' split at found
  all_goals first | contradiction | skip
  rename_i sees _ _ name
  have := Cursor.ahead_advance sees
  have := Cursor.ahead_string name
  have := ahead_readMember found
  omega

------------------------------------------------------------------------------------------
-- Whole texts
------------------------------------------------------------------------------------------

/-- Reads the members of an object. -/
def readMembers (first : Bool) (members : Members) (cursor : Cursor)
    : Except ReadError (Settings × Cursor) :=
  match _next : toName? first cursor with
  | .error error => .error error
  | .ok none => .ok (members.settings, cursor.skipBlanks.advance)
  | .ok (some cursor) =>
    match _member : readNamed members cursor with
    | .error error => .error error
    | .ok (members, cursor) => readMembers false members cursor
termination_by cursor.ahead
decreasing_by
  have := ahead_toName ‹_›
  have := ahead_readNamed ‹_›
  omega

/-- Reads an object or an array. -/
def readStart (cursor : Cursor) : Except ReadError (Settings × Cursor) := do
  let cursor ← cursor.toValue
  if cursor.peek? = some 91 then
    readItems true standard cursor.advance Field.all
  else if cursor.peek? = some 123 then
    readMembers true ⟨standard, []⟩ cursor.advance
  else
    cursor.wrongType "struct PlaygroundConfig"

/-- Reads a whole text, behind which nothing but blanks may follow. -/
def read (text : String) : Except ReadError Settings := do
  let (settings, cursor) ← readStart (.ofText text)
  let cursor := cursor.skipBlanks
  if cursor.peek?.isSome then
    cursor.failAhead .trailingCharacters
  else
    return settings

/-- The settings that a JSON text gives, if they can be used. -/
def ofJson (text : String) : Except Error Settings :=
  match read text with
  | .error error => .error (.config error.message)
  | .ok settings =>
    match settings.validate with
    | .error error => .error error
    | .ok () => .ok settings

end Settings

end Scratchpad
