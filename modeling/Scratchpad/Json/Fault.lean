import Scratchpad.Decimal.Shortest
import Scratchpad.Text.Quoted

/-! What a reader of JSON can find wrong with a text, and where. -/

namespace Scratchpad.Json

/-- A number that was read: an integer if it is written as one and fits 64 bits, and else a binary
number.
-/
inductive Numeral where
  | natural (value : Nat)
  | negative (magnitude : Nat)
  | real (minus : Bool) (value : Decimal.Binary64)
deriving DecidableEq

/-- The text of a number. -/
def Numeral.text : Numeral → String
  | .natural value => toString value
  | .negative magnitude => "-" ++ toString magnitude
  | .real minus value => value.text minus

/-- How a number is named in a message. -/
def Numeral.describe (numeral : Numeral) : String :=
  match numeral with
  | .real .. => "floating point `" ++ numeral.text ++ "`"
  | _ => "integer `" ++ numeral.text ++ "`"

/-- What stands where something else was expected. -/
inductive Unexpected where
  | null
  | bool (value : Bool)
  | number (value : Numeral)
  | string (text : String)
  | sequence
  | map
deriving DecidableEq

/-- How the unexpected is named in a message. -/
def Unexpected.describe : Unexpected → String
  | .null => "null"
  | .bool true => "boolean `true`"
  | .bool false => "boolean `false`"
  | .number value => value.describe
  | .string text => "string " ++ Text.quote text
  | .sequence => "sequence"
  | .map => "map"

/-- What is wrong with a text. -/
inductive Fault where
  | endInValue
  | endInString
  | endInList
  | endInObject
  | misspelledWord
  | invalidNumber
  | numberOutOfRange
  | controlCharacter
  | invalidEscape
  | loneSurrogate
  | endOfHexEscape
  | invalidUnicode
  | expectedValue
  | expectedListEnd
  | expectedObjectEnd
  | expectedColon
  | keyNotString
  | trailingComma
  | trailingCharacters
  | duplicateField (name : String)
  | invalidType (found : Unexpected) (expected : String)
  | invalidValue (found : Unexpected) (expected : String)
deriving DecidableEq

/-- The wording of a fault. -/
def Fault.message : Fault → String
  | .endInValue => "EOF while parsing a value"
  | .endInString => "EOF while parsing a string"
  | .endInList => "EOF while parsing a list"
  | .endInObject => "EOF while parsing an object"
  | .misspelledWord => "expected ident"
  | .invalidNumber => "invalid number"
  | .numberOutOfRange => "number out of range"
  | .controlCharacter => "control character (\\u0000-\\u001F) found while parsing a string"
  | .invalidEscape => "invalid escape"
  | .loneSurrogate => "lone leading surrogate in hex escape"
  | .endOfHexEscape => "unexpected end of hex escape"
  | .invalidUnicode => "invalid unicode code point"
  | .expectedValue => "expected value"
  | .expectedListEnd => "expected `,` or `]`"
  | .expectedObjectEnd => "expected `,` or `\x7d`"
  | .expectedColon => "expected `:`"
  | .keyNotString => "key must be a string"
  | .trailingComma => "trailing comma"
  | .trailingCharacters => "trailing characters"
  | .duplicateField name => s!"duplicate field `{name}`"
  | .invalidType found expected => s!"invalid type: {found.describe}, expected {expected}"
  | .invalidValue found expected => s!"invalid value: {found.describe}, expected {expected}"

/-- A place in a text: its line, from 1, and the bytes before it on that line. -/
structure Place where
  line : Nat
  column : Nat
deriving DecidableEq

/-- The place behind a byte. -/
def Place.after (place : Place) (byte : UInt8) : Place :=
  if byte = 10 then ⟨place.line + 1, 0⟩ else ⟨place.line, place.column + 1⟩

/-- A fault and the place where it was noticed. -/
structure ReadError where
  fault : Fault
  place : Place
deriving DecidableEq

/-- The wording of a fault with its place. -/
def ReadError.message (error : ReadError) : String :=
  s!"{error.fault.message} at line {error.place.line} column {error.place.column}"

end Scratchpad.Json
