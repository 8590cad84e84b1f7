import Scratchpad.Share.TokenError

/-! What can go wrong in a session. -/

namespace Scratchpad

/-- Why a request to a session was refused. -/
inductive Error where
  /-- No preset has the name. -/
  | unknownExample (name : String)
  /-- A token was given that has no text. -/
  | malformedToken (cause : TokenError)
  /-- A catalog was to be made of no presets. -/
  | emptyCatalog
  /-- A catalog was to be made of presets two of which have the name. -/
  | duplicateExample (name : String)
  /-- The settings cannot be used. -/
  | config (detail : String)
deriving DecidableEq

/-- The wording of an error. -/
def Error.message : Error → String
  | .unknownExample name => "unknown example: " ++ name
  | .malformedToken cause => "malformed share token: " ++ cause.message
  | .emptyCatalog => "example catalog must contain at least one entry"
  | .duplicateExample name => "duplicate example name: " ++ name
  | .config detail => "invalid configuration: " ++ detail

end Scratchpad
