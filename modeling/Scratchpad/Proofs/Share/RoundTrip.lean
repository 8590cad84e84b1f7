import Scratchpad.Proofs.Share.Verdict
import Scratchpad.Proofs.Zlib.Streams

/-! What one codec encodes another decodes, whatever their levels. Only the limit of the codec that
decodes has a say, and the codec that encodes knows beforehand what its own limit would say.
-/

namespace Scratchpad.Codec

open Zlib (Expansion)

/-- No text has the empty token: a payload of no bytes is not a whole stream. -/
theorem encode_ne_empty (codec : Codec) (text : String)
    : codec.encode text ≠ "" := by
  intro empty
  have bare : (Zlib.compress codec.level (bytesOf text)).toList = [] := Base64Url.encode_inj empty
  have whole := Zlib.expand_compress codec.level_le (bytesOf text)
  have broken : Zlib.expand [] = ⟨#[], .flawed .truncated⟩ := by cbv
  rw [bare, broken] at whole
  cases (Expansion.mk.inj whole).2

/-- The bytes of a text are that text. -/
theorem fromUTF8?_bytesOf (text : String)
    : String.fromUTF8? ⟨bytesOf text⟩ = some text :=
  dif_pos text.isValidUTF8

/-- The token of a text gives the text back to every codec that has the room for it. -/
theorem decode_encode (reader writer : Codec) (text : String)
    : reader.decode (writer.encode text)
      = if text.utf8ByteSize ≤ reader.limit then .ok text
        else .error (.tooLarge reader.limit) := by
  rw [decode_of_encode reader (writer.encode_ne_empty text) rfl,
    Zlib.expand_compress writer.level_le, verdict]
  by_cases fits : text.utf8ByteSize ≤ reader.limit
  · have inside : ¬ Expansion.Exceeds ⟨bytesOf text, .complete []⟩ reader.limit :=
      Expansion.not_exceeds_of_complete fits
    rw [if_neg inside, if_pos fits, fromUTF8?_bytesOf]
  · have exceeds : Expansion.Exceeds ⟨bytesOf text, .complete []⟩ reader.limit :=
      .inl (Nat.lt_of_not_le fits)
    rw [if_pos exceeds, if_neg fits]

/-- A text can be encoded within the limit exactly if its token can be decoded within it. -/
theorem encodeBounded_eq (codec : Codec) (text : String)
    : codec.encodeBounded text
      = (codec.decode (codec.encode text)).map fun _ => codec.encode text := by
  rw [decode_encode, encodeBounded]
  by_cases fits : text.utf8ByteSize ≤ codec.limit
  · rw [if_neg (Nat.not_lt.mpr fits), if_pos fits]
    rfl
  · rw [if_pos (Nat.lt_of_not_le fits), if_neg fits]
    rfl

/-- Whatever the levels and limits, the limit of the reading codec alone decides whether a text
comes back, and the writing codec can tell beforehand whether it could read its own token.
-/
theorem round_trip_bound (level limit level' limit' : Nat) (text : String)
    : ((ofLevel level' limit').decode ((ofLevel level limit).encode text)
        = if text.utf8ByteSize ≤ limit' then .ok text else .error (.tooLarge limit'))
      ∧ ((ofLevel level limit).encodeBounded text
            = .ok ((ofLevel level limit).encode text)
          ↔ ∃ read, (ofLevel level limit).decode ((ofLevel level limit).encode text) = .ok read)
      ∧ ((ofLevel level limit).encodeBounded text
            ≠ .ok ((ofLevel level limit).encode text)
          → (ofLevel level limit).encodeBounded text = .error (.tooLarge limit)
            ∧ (ofLevel level limit).decode ((ofLevel level limit).encode text)
              = .error (.tooLarge limit)) := by
  refine ⟨decode_encode _ _ text, ?_⟩
  have limited : (ofLevel level limit).limit = limit := rfl
  rw [encodeBounded_eq, decode_encode, limited]
  by_cases fits : text.utf8ByteSize ≤ limit
  · rw [if_pos fits]
    exact ⟨⟨fun _ => ⟨text, rfl⟩, fun _ => rfl⟩, fun refused => absurd rfl refused⟩
  · rw [if_neg fits]
    refine ⟨⟨fun encoded => ?_, fun ⟨read, decoded⟩ => ?_⟩, fun _ => ⟨rfl, rfl⟩⟩
    · cases encoded
    · cases decoded

end Scratchpad.Codec
