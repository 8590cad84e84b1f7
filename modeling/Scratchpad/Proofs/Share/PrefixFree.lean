import Scratchpad.Proofs.Base64Url.Prefixes
import Scratchpad.Proofs.Share.RoundTrip
import Scratchpad.Proofs.Zlib.Lookahead

/-! No token that has a text is the start of another one. A token that is cut short, or that goes on
behind its end, is refused for its characters or for its payload, and in no other way: a cut stream
holds no more than the whole one, and a longer one ends where the whole one did.
-/

namespace Scratchpad

namespace Zlib

/-- A payload that only more bytes complete has not come to its end by itself, and has written no
more than the complete one; where a byte is due it has written less.
-/
theorem expand_of_append_complete {payload more : List UInt8} (nonempty : more ≠ [])
    (whole : (expand (payload ++ more)).ending = .complete [])
    : (expand payload).ending ≠ .complete []
      ∧ ∀ limit, (expand (payload ++ more)).written.size ≤ limit
        → ¬ (expand payload).Exceeds limit := by
  have outlasts := expand_append payload more
  rw [Expansion.Outlasts] at outlasts
  cases ending : (expand payload).ending with
  | complete rest =>
      rw [ending] at outlasts
      rw [outlasts] at whole
      have left := (Ending.complete.inj whole)
      exact absurd (List.append_eq_nil_iff.mp left).2 nonempty
  | flawed flaw =>
      rw [ending] at outlasts
      refine ⟨nofun, fun limit fits exceeds => ?_⟩
      rcases exceeds with larger | ⟨-, starved⟩
      · exact absurd (Nat.lt_of_lt_of_le larger outlasts) (Nat.not_lt.mpr fits)
      · cases ending.symm.trans starved
  | starved =>
      rw [ending] at outlasts
      refine ⟨nofun, fun limit fits exceeds => ?_⟩
      rcases outlasts with less | same
      · have below : (expand payload).written.size < limit := Nat.lt_of_lt_of_le less fits
        rcases exceeds with larger | ⟨equal, -⟩ <;> omega
      · rw [same] at whole
        cases whole

end Zlib

namespace Codec

/-- A token is refused for its characters or for its payload. -/
def Malformed (codec : Codec) (token : String) : Prop :=
  ∃ detail,
    codec.decode token = .error (.alphabet detail) ∨ codec.decode token = .error (.corrupt detail)

/-- A payload within the limit that is not exactly one stream is malformed. -/
theorem malformed_of_ending {codec : Codec} {token : String} {payload : List UInt8}
    (nonempty : token ≠ "") (written : Base64Url.encode payload = token)
    (inside : ¬ (Zlib.expand payload).Exceeds codec.limit)
    (unfinished : (Zlib.expand payload).ending ≠ .complete [])
    : codec.Malformed token := by
  rw [Malformed, decode_of_encode codec nonempty written, verdict, if_neg inside]
  cases ending : (Zlib.expand payload).ending with
  | flawed flaw => exact ⟨_, .inr rfl⟩
  | starved => exact ⟨_, .inr rfl⟩
  | complete rest =>
      cases rest with
      | nil => exact absurd ending unfinished
      | cons byte rest => exact ⟨_, .inr rfl⟩

/-- A token that is written for no payload is malformed, so only its payloads have to be judged. -/
theorem malformed_of_payloads {codec : Codec} {token : String} (nonempty : token ≠ "")
    (judged : ∀ payload, Base64Url.encode payload = token → codec.Malformed token)
    : codec.Malformed token := by
  by_cases canonical : Base64Url.Canonical token.toList
  · obtain ⟨payload, written⟩ := Base64Url.canonical_iff.mp canonical
    exact judged payload written
  · obtain ⟨detail, refused⟩ := decode_of_not_canonical nonempty canonical
    exact ⟨detail, .inl (refused codec)⟩

/-- A token with a text is written for exactly one stream. -/
theorem exists_payload_of_decode {codec : Codec} {token text : String}
    (decoded : codec.decode token = .ok text)
    : ∃ payload, Base64Url.encode payload = token
      ∧ (Zlib.expand payload).ending = .complete [] := by
  have nonempty : token ≠ "" := by
    rintro rfl
    cases decoded.symm.trans codec.decode_empty
  by_cases canonical : Base64Url.Canonical token.toList
  · obtain ⟨payload, written⟩ := Base64Url.canonical_iff.mp canonical
    refine ⟨payload, written, ?_⟩
    rw [decode_of_encode codec nonempty written, verdict] at decoded
    split at decoded
    · cases decoded
    · split at decoded
      · cases decoded
      · cases decoded
      · cases decoded
      · assumption
  · obtain ⟨detail, refused⟩ := decode_of_not_canonical nonempty canonical
    cases decoded.symm.trans (refused codec)

/-- What follows a token with a text makes it a token without one. -/
theorem decode_append_ne_ok {first second : Codec} {token more text : String}
    (nonempty : more ≠ "") (decoded : first.decode token = .ok text) (text' : String)
    : second.decode (token ++ more) ≠ .ok text' := by
  intro longer
  obtain ⟨payload, written, ending⟩ := exists_payload_of_decode decoded
  obtain ⟨further, written', ending'⟩ := exists_payload_of_decode longer
  rw [← written] at written'
  obtain ⟨bytes, some, rfl⟩ := Base64Url.exists_append_of_encode written' nonempty
  obtain ⟨unfinished, -⟩ := Zlib.expand_of_append_complete some ending'
  exact unfinished ending

variable {reader : Codec} {text : String}

/-- A token that is cut short is malformed. -/
theorem malformed_of_cut (writer : Codec) {front more : String}
    (fits : text.utf8ByteSize ≤ reader.limit) (left : front ≠ "") (nonempty : more ≠ "")
    (cut : front ++ more = writer.encode text)
    : reader.Malformed front := by
  refine malformed_of_payloads left fun payload written => ?_
  rw [← written] at cut
  obtain ⟨bytes, some, whole⟩ := Base64Url.exists_append_of_encode cut.symm nonempty
  have expanded := Zlib.expand_compress writer.level_le (bytesOf text)
  rw [whole] at expanded
  obtain ⟨unfinished, inside⟩ := Zlib.expand_of_append_complete some (by rw [expanded])
  rw [expanded] at inside
  exact malformed_of_ending left written (inside reader.limit fits) unfinished

/-- A token that goes on is malformed. -/
theorem malformed_of_continued (writer : Codec) {more : String}
    (fits : text.utf8ByteSize ≤ reader.limit) (nonempty : more ≠ "")
    : reader.Malformed (writer.encode text ++ more) := by
  have longer : writer.encode text ++ more ≠ "" := by simp [nonempty]
  refine malformed_of_payloads longer fun payload written => ?_
  obtain ⟨bytes, some, rfl⟩ := Base64Url.exists_append_of_encode written nonempty
  have outlasts := Zlib.expand_append (Zlib.compress writer.level (bytesOf text)).toList bytes
  rw [Zlib.expand_compress writer.level_le] at outlasts
  refine malformed_of_ending longer written ?_ ?_
  · rw [outlasts]
    exact Zlib.Expansion.not_exceeds_of_complete fits
  · rw [outlasts]
    simpa using some

/-- No token with a text is the start of another one, whatever codecs read the two: with something
behind it, it is refused. What is encoded within the limit is malformed when it is cut short, and
when anything follows it; in neither case is it said to be too large, or to be no text.
-/
theorem decode_prefix_free (reader : Codec) {more : String} (nonempty : more ≠ "")
    : (∀ (other : Codec) (token text text' : String),
        other.decode token = .ok text → reader.decode (token ++ more) ≠ .ok text')
      ∧ ∀ (writer : Codec) (text : String), text.utf8ByteSize ≤ reader.limit
        → (∀ front, front ≠ "" → front ++ more = writer.encode text → reader.Malformed front)
          ∧ reader.Malformed (writer.encode text ++ more) := by
  refine ⟨fun other token text text' decoded => decode_append_ne_ok nonempty decoded text', ?_⟩
  intro writer text fits
  exact ⟨fun front left cut => malformed_of_cut writer fits left nonempty cut,
    malformed_of_continued writer fits nonempty⟩

/-- The token of the empty text, stored, is malformed without its last two characters and with those
two again behind it, even if no byte may be out.
-/
theorem decode_prefix_free_of_empty_text
    : let codec := ofLevel 0 0
      codec.encode "" = "CB0BAAD__wAAAAE"
      ∧ codec.decode "CB0BAAD__wAAAAE" = .ok ""
      ∧ codec.Malformed "CB0BAAD__wAAA"
      ∧ codec.Malformed "CB0BAAD__wAAAAEAE" := by
  intro codec
  have token : codec.encode "" = "CB0BAAD__wAAA" ++ "AE" := by cbv
  obtain ⟨-, malformed⟩ := decode_prefix_free codec (by decide : "AE" ≠ "")
  obtain ⟨cut, continued⟩ := malformed codec "" (by decide)
  rw [token] at continued
  exact ⟨token, by cbv, cut _ (by decide) token.symm, continued⟩

end Codec

end Scratchpad
