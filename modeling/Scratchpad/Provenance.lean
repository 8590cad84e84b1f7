import Scratchpad.Json.Value
import Scratchpad.Text.Quoted

/-! Where the text of a document has come from. -/

namespace Scratchpad

/-- Where a text has come from. -/
inductive Provenance where
  | preset (name : String)
  | custom
  | restored
deriving DecidableEq

namespace Provenance

/-- The name of the preset that a text is. -/
def presetName? : Provenance → Option String
  | preset name => some name
  | _ => none

/-- The provenance in a log. -/
def display : Provenance → String
  | preset name => "Preset(" ++ Text.quote name ++ ")"
  | custom => "Custom"
  | restored => "Restored"

/-- The provenance as a JSON value. -/
def toJson : Provenance → Json
  | preset name => .object [("kind", .string "preset"), ("name", .string name)]
  | custom => .object [("kind", .string "custom")]
  | restored => .object [("kind", .string "restored")]

end Provenance

end Scratchpad
