/-! JSON values and their compact text: no blanks, members in the order they are given, and in
strings only what has to be escaped.
-/

namespace Scratchpad

/-- A JSON value. Numbers are natural, which is all that is ever written. -/
inductive Json where
  | null
  | bool (value : Bool)
  | number (value : Nat)
  | string (text : String)
  | array (items : List Json)
  | object (members : List (String × Json))

namespace Json

/-- A digit of base 16. -/
def hexDigit (value : Nat) : Char :=
  if value < 10 then Char.ofNat (value + 48) else Char.ofNat (value + 87)

/-- A character as it stands in a string: quotation marks, backslashes and controls are escaped, by
a letter where there is one.
-/
def escapedChar (char : Char) : List Char :=
  if char = '"' then
    ['\\', '"']
  else if char = '\\' then
    ['\\', '\\']
  else if char = '\x08' then
    ['\\', 'b']
  else if char = '\x0c' then
    ['\\', 'f']
  else if char = '\n' then
    ['\\', 'n']
  else if char = '\r' then
    ['\\', 'r']
  else if char = '\t' then
    ['\\', 't']
  else if char.toNat < 0x20 then
    ['\\', 'u', '0', '0', hexDigit (char.toNat / 16), hexDigit (char.toNat % 16)]
  else
    [char]

/-- The text of a string. -/
def quote (text : String) : String :=
  String.ofList ('"' :: text.toList.flatMap escapedChar ++ ['"'])

/-- The compact text of a value. -/
def render : Json → String
  | null => "null"
  | bool true => "true"
  | bool false => "false"
  | number value => toString value
  | string text => quote text
  | array items => "[" ++ renderItems items ++ "]"
  | object members => "\x7b" ++ renderMembers members ++ "\x7d"
where
  /-- The items of an array, with commas between them. -/
  renderItems : List Json → String
    | [] => ""
    | [item] => item.render
    | item :: rest => item.render ++ "," ++ renderItems rest
  /-- The members of an object, with commas between them. -/
  renderMembers : List (String × Json) → String
    | [] => ""
    | [(name, value)] => quote name ++ ":" ++ value.render
    | (name, value) :: rest => quote name ++ ":" ++ value.render ++ "," ++ renderMembers rest

/-- The value of an optional text. -/
def ofOption : Option String → Json
  | none => null
  | some text => string text

end Json

end Scratchpad
