import Scratchpad.Catalog
import Scratchpad.Json.Value
import Scratchpad.Share.Codec
import Scratchpad.Traced

/-! The document that is edited. With its text it holds where the text has come from: a preset, an
edit, or a share token.
-/

namespace Scratchpad

/-- A text and where it has come from. -/
structure Document where
  text : String
  provenance : Provenance
deriving DecidableEq

/-- What became of the share token at start. -/
inductive RestoreOutcome where
  /-- There was none, so a preset was loaded. -/
  | noToken
  /-- Its text was loaded. -/
  | restored
  /-- It had no text, so a preset was loaded. -/
  | fellBack (error : TokenError)
deriving DecidableEq

namespace Document

/-- A document with the preset of a name. -/
def preset (catalog : Catalog) (name : String) : Except Error Document := do
  let text ← catalog.get name
  return ⟨text, .preset name⟩

/-- A document with the text of a token, or with a preset if the token has none. -/
def restore (catalog : Catalog) (codec : Codec) (fallback token : String)
    : Traced (Except Error (Document × RestoreOutcome)) :=
  match codec.decode token with
  | .ok text => do
    Traced.log (.restored text.utf8ByteSize)
    return .ok (⟨text, .restored⟩, .restored)
  | .error error => do
    Traced.log (.malformedToken error fallback)
    return (preset catalog fallback).map fun document => (document, .fellBack error)

/-- The document at start: that of the token if there is one and it is not empty, and else that of
a preset.
-/
def startup (catalog : Catalog) (codec : Codec) (fallback : String) (token : Option String)
    : Traced (Except Error (Document × RestoreOutcome)) :=
  match token.filter (!·.isEmpty) with
  | some token => restore catalog codec fallback token
  | none => return (preset catalog fallback).map fun document => (document, .noToken)

/-- The document after the preset of a name was selected. It is made anew from the catalog alone,
and not before the name was found, so an error leaves the document there was as it is.
-/
def select (catalog : Catalog) (name : String) : Traced (Except Error Document) :=
  match preset catalog name with
  | .ok document => do
    Traced.log (.selectedPreset name)
    return .ok document
  | .error error => do
    Traced.log (.unknownPreset name)
    return .error error

/-- The document after an edit to a text. -/
def edited (text : String) : Document :=
  ⟨text, .custom⟩

/-- The document as a JSON value. -/
def toJson (document : Document) : Json :=
  .object [("text", .string document.text), ("provenance", document.provenance.toJson)]

end Document

end Scratchpad
