import Scratchpad.Base64Url
import Scratchpad.Share.TokenError
import Scratchpad.Zlib.Deflate
import Scratchpad.Zlib.Inflater

/-! Share tokens. A text becomes a token by way of its UTF-8 bytes, a compressed stream and
base64url. One limit on the bytes of a text governs both directions, so that a token which was
encoded within the limit is decoded within it.
-/

namespace Scratchpad

/-- How texts become tokens: a compression level, which only decides how long tokens are, and the
most bytes that a text may have.
-/
structure Codec where
  level : Nat
  limit : Nat
  level_le : level ≤ 10
deriving DecidableEq

namespace Codec

/-- The level that is used unless another is asked for. -/
def defaultLevel : Nat := 9

/-- The limit that holds unless another is asked for: a mebibyte. -/
def defaultLimit : Nat := 1048576

/-- The codec of a level and a limit. Levels above 10 count as 10. -/
def ofLevel (level limit : Nat) : Codec :=
  ⟨min level 10, limit, Nat.min_le_right level 10⟩

/-- The codec with the default level and limit. -/
def standard : Codec :=
  ofLevel defaultLevel defaultLimit

/-- The bytes of a text. -/
def bytesOf (text : String) : Array UInt8 :=
  text.toUTF8.data

/-- The token of a text, whatever its size. -/
def encode (codec : Codec) (text : String) : String :=
  Base64Url.encode (Zlib.compress codec.level (bytesOf text)).toList

/-- The token of a text that this codec can decode again. -/
def encodeBounded (codec : Codec) (text : String) : Except TokenError String :=
  if codec.limit < text.utf8ByteSize then
    .error (.tooLarge codec.limit)
  else
    .ok (codec.encode text)

/-- The bytes that a payload holds within a limit. -/
def inflate (limit : Nat) (payload : List UInt8) : Except TokenError (Array UInt8) :=
  match Zlib.inflate limit payload with
  | .ok bytes => .ok bytes
  | .error .tooLarge => .error (.tooLarge limit)
  | .error (.flawed flaw) => .error (.corrupt flaw.name)
  | .error (.trailing count) => .error (.corrupt s!"{count} trailing bytes after stream")

/-- The text of a token. -/
def decode (codec : Codec) (token : String) : Except TokenError String :=
  if token.isEmpty then
    .error .empty
  else
    match Base64Url.decode (bytesOf token).toList with
    | .error fault => .error (.alphabet fault.message)
    | .ok payload =>
      match inflate codec.limit payload.toList with
      | .error error => .error error
      | .ok bytes =>
        match String.fromUTF8? ⟨bytes⟩ with
        | none => .error .notUtf8
        | some text => .ok text

end Codec

end Scratchpad
