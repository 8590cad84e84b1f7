import Scratchpad.Catalog
import Scratchpad.Json.Value
import Scratchpad.Share.Codec
import Scratchpad.Text.Quoted

/-! The settings of a session. Each has a default; some values that can be given cannot be used. -/

namespace Scratchpad

/-- The settings of a session. -/
structure Settings where
  /-- The preset that is loaded at start; the first of the catalog if none is named. -/
  defaultPreset : Option String
  /-- Whether the report on a text is kept and used again while the text stays the same. -/
  memoize : Bool
  /-- The compression level of share tokens. -/
  compressionLevel : UInt8
  /-- The most bytes that the text of a share token may have. -/
  maxDecodedBytes : UInt64
deriving DecidableEq

namespace Settings

/-- The settings that hold unless others are given. -/
def standard : Settings :=
  ⟨none, true, UInt8.ofNat Codec.defaultLevel, UInt64.ofNat Codec.defaultLimit⟩

/-- Checks what a value of the right type can still have wrong; the level is checked first. -/
def validate (settings : Settings) : Except Error Unit :=
  if 10 < settings.compressionLevel then
    .error (.config s!"compression_level must be 0..=10, got {settings.compressionLevel.toNat}")
  else if settings.maxDecodedBytes = 0 then
    .error (.config "max_decoded_bytes must be positive")
  else
    .ok ()

/-- The name of the preset to load at start, which has to be in the catalog. -/
def startName (settings : Settings) (catalog : Catalog) : Except Error String :=
  match settings.defaultPreset with
  | none => .ok catalog.defaultName
  | some name =>
    if catalog.contains name then
      .ok name
    else
      .error (.config s!"default_preset {Text.quote name} is not a catalog example")

/-- The codec that the settings ask for. -/
def codec (settings : Settings) : Codec :=
  .ofLevel settings.compressionLevel.toNat settings.maxDecodedBytes.toNat

/-- The settings as a JSON value. -/
def toJson (settings : Settings) : Json :=
  .object
    [ ("default_preset", .ofOption settings.defaultPreset),
      ("memoize", .bool settings.memoize),
      ("compression_level", .number settings.compressionLevel.toNat),
      ("max_decoded_bytes", .number settings.maxDecodedBytes.toNat) ]

end Settings

end Scratchpad
