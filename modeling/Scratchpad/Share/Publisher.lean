import Scratchpad.Share.Codec
import Scratchpad.Slot
import Scratchpad.Traced

/-! Publishing texts. The token of the current text stands in a slot, so that whoever opens the
slot again finds the text; a text too large for a token leaves the slot empty.
-/

namespace Scratchpad

/-- A text without one `#` at its start. -/
def withoutHash (text : String) : String :=
  match text.toList with
  | '#' :: rest => String.ofList rest
  | _ => text

/-- A text up to the first `#`. -/
def beforeHash (text : String) : String :=
  String.ofList (text.toList.takeWhile (· ≠ '#'))

/-- A slot with the codec for what is written to it, and the token that was published last. -/
structure Publisher (τ : Type) where
  codec : Codec
  slot : τ
  token : Option String

namespace Publisher

variable {τ : Type} [Slot τ]

/-- A publisher that has published nothing. -/
def new (codec : Codec) (slot : τ) : Publisher τ :=
  ⟨codec, slot, none⟩

/-- The token in the slot, if there is one. -/
def readToken (publisher : Publisher τ) : Option String :=
  let token := withoutHash (Slot.read publisher.slot)
  if token.isEmpty then none else some token

/-- Writes the token of a text to the slot, or empties the slot if the text is too large. -/
def publish (text : String) (publisher : Publisher τ) : Traced (Publisher τ) :=
  match publisher.codec.encodeBounded text with
  | .ok token => do
    Traced.log (.publishing token.utf8ByteSize)
    return { publisher with slot := Slot.write token publisher.slot, token := some token }
  | .error error => do
    Traced.log (.tooLargeToShare error text.utf8ByteSize)
    return { publisher with slot := Slot.write "" publisher.slot, token := none }

omit [Slot τ] in
/-- An address with the token as its fragment, in place of the fragment it has. -/
def shareUrl (base : String) (publisher : Publisher τ) : Option String :=
  publisher.token.map fun token => beforeHash base ++ "#" ++ token

end Publisher

end Scratchpad
