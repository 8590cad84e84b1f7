/-! Why a share token has no text. -/

namespace Scratchpad

/-- Why a token could not be turned back into a text, or a text not into a token. -/
inductive TokenError where
  /-- The token has no characters. -/
  | empty
  /-- The token is no canonical base64url text. -/
  | alphabet (detail : String)
  /-- The payload is no complete compressed stream, or bytes follow it. -/
  | corrupt (detail : String)
  /-- The text takes more bytes than the limit. -/
  | tooLarge (limit : Nat)
  /-- The payload holds bytes that are no text. -/
  | notUtf8
deriving DecidableEq

/-- The wording of a token error. -/
def TokenError.message : TokenError → String
  | .empty => "token is empty"
  | .alphabet detail => "invalid token alphabet: " ++ detail
  | .corrupt detail => "corrupt token payload: " ++ detail
  | .tooLarge limit => s!"token payload exceeds {limit} bytes"
  | .notUtf8 => "token payload is not valid UTF-8"

end Scratchpad
