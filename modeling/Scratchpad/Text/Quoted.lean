import Scratchpad.Text.Invisible

/-! Quoted text, for messages and logs. The text stands between quotation marks; whatever could not
be seen or could be taken for something else is escaped with a backslash.
-/

namespace Scratchpad.Text

/-- A character as it stands in quoted text. -/
def quotedChar (char : Char) : List Char :=
  if char = '"' then
    ['\\', '"']
  else if char = '\\' then
    ['\\', '\\']
  else if char = '\x00' then
    ['\\', '0']
  else if char = '\t' then
    ['\\', 't']
  else if char = '\n' then
    ['\\', 'n']
  else if char = '\r' then
    ['\\', 'r']
  else if isInvisible char then
    ['\\', 'u', '\x7b'] ++ Nat.toDigits 16 char.toNat ++ ['\x7d']
  else
    [char]

/-- The characters of quoted text. -/
def quotedChars (chars : List Char) : List Char :=
  '"' :: chars.flatMap quotedChar ++ ['"']

/-- A text between quotation marks. -/
def quote (text : String) : String :=
  String.ofList (quotedChars text.toList)

end Scratchpad.Text
