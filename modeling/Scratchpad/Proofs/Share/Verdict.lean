import Scratchpad.Proofs.Base64Url.Reading
import Scratchpad.Proofs.Zlib.Expansion
import Scratchpad.Share.Codec

/-! What a token decodes to, said without room that grows. A canonical token has one payload, the
payload has one expansion, and the limit only decides how much of the expansion is too much; the
first of five problems in a fixed order is the answer.
-/

namespace Scratchpad.Codec

open Zlib (Expansion)

/-- The answer to a token whose payload has an expansion: size is judged first, then the stream,
then what follows the stream, and the text last.
-/
def verdict (limit : Nat) (expansion : Expansion) : Except TokenError String :=
  if expansion.Exceeds limit then
    .error (.tooLarge limit)
  else
    match expansion.ending with
    | .flawed flaw => .error (.corrupt flaw.name)
    | .starved => .error (.corrupt Zlib.Flaw.truncated.name)
    | .complete (byte :: rest) =>
        .error (.corrupt s!"{(byte :: rest).length} trailing bytes after stream")
    | .complete [] =>
        match String.fromUTF8? ⟨expansion.written⟩ with
        | none => .error .notUtf8
        | some text => .ok text

/-- Where the bytes of a payload are text or not, the verdict on its expansion is the answer. -/
theorem inflate_bind_eq_verdict (limit : Nat) (payload : List UInt8)
    : (match inflate limit payload with
        | .error error => .error error
        | .ok bytes =>
          match String.fromUTF8? ⟨bytes⟩ with
          | none => .error .notUtf8
          | some text => .ok text)
      = verdict limit (Zlib.expand payload) := by
  rw [inflate, Zlib.inflate_eq_within, Expansion.within, verdict]
  by_cases exceeds : (Zlib.expand payload).Exceeds limit
  · simp only [if_pos exceeds]
  · simp only [if_neg exceeds]
    cases ending : (Zlib.expand payload).ending with
    | complete rest => cases rest <;> rfl
    | flawed flaw => rfl
    | starved => rfl

theorem decode_empty (codec : Codec)
    : codec.decode "" = .error .empty := rfl

/-- A token is judged by the expansion of the payload that it is written for. -/
theorem decode_of_encode {token : String} {payload : List UInt8} (codec : Codec)
    (nonempty : token ≠ "") (written : Base64Url.encode payload = token)
    : codec.decode token = verdict codec.limit (Zlib.expand payload) := by
  have read : Base64Url.decode (bytesOf token).toList = .ok payload.toArray :=
    Base64Url.decode_eq_ok_iff.mpr written
  have full : token.isEmpty = false := by simpa using nonempty
  rw [decode, full, read]
  exact inflate_bind_eq_verdict codec.limit payload

/-- A token that is written for no payload is refused for its characters, by every codec alike. -/
theorem decode_of_not_canonical {token : String} (nonempty : token ≠ "")
    (strange : ¬ Base64Url.Canonical token.toList)
    : ∃ detail, ∀ codec : Codec, codec.decode token = .error (.alphabet detail) := by
  have full : token.isEmpty = false := by simpa using nonempty
  cases read : Base64Url.decode (bytesOf token).toList with
  | error fault => exact ⟨fault.message, fun codec => by rw [decode, full, read]; rfl⟩
  | ok payload =>
      have written := Base64Url.decode_eq_ok_iff.mp read
      exact absurd (Base64Url.canonical_iff.mpr ⟨_, written⟩) strange

/-- A larger limit changes no answer but that of an output too large for the smaller one. -/
theorem verdict_of_le {small large : Nat} (le : small ≤ large) (expansion : Expansion)
    : verdict small expansion = .error (.tooLarge small)
      ∨ verdict large expansion = verdict small expansion := by
  by_cases exceeds : expansion.Exceeds small
  · exact .inl (by rw [verdict, if_pos exceeds])
  · have inside : ¬ expansion.Exceeds large := by
      intro further
      rcases further with more | ⟨equal, starved⟩
      · exact exceeds (.inl (by omega))
      · by_cases same : expansion.written.size = small
        · exact exceeds (.inr ⟨same, starved⟩)
        · exact exceeds (.inl (by omega))
    exact .inr (by rw [verdict, verdict, if_neg exceeds, if_neg inside])

/-- A text that comes of an expansion is no larger than the limit. -/
theorem size_le_of_verdict {limit : Nat} {expansion : Expansion} {text : String}
    (decoded : verdict limit expansion = .ok text)
    : text.utf8ByteSize ≤ limit := by
  rw [verdict] at decoded
  split at decoded
  · cases decoded
  · rename_i inside
    split at decoded
    · cases decoded
    · cases decoded
    · cases decoded
    · split at decoded
      · cases decoded
      · rename_i read
        obtain rfl := Except.ok.inj decoded
        obtain ⟨valid, same⟩ := Option.dite_none_right_eq_some.mp read
        obtain rfl := Option.some.inj same
        exact Nat.le_of_not_lt fun larger => inside (.inl larger)

/-- A token either is refused by every codec alike or is judged by one expansion, of which the codec
only sets the limit.
-/
theorem decode_uniform (token : String)
    : (∃ error, ∀ codec : Codec, codec.decode token = .error error)
      ∨ ∃ expansion, ∀ codec : Codec, codec.decode token = verdict codec.limit expansion := by
  by_cases empty : token = ""
  · exact .inl ⟨.empty, fun codec => empty ▸ decode_empty codec⟩
  · by_cases canonical : Base64Url.Canonical token.toList
    · obtain ⟨payload, written⟩ := Base64Url.canonical_iff.mp canonical
      exact .inr ⟨_, fun codec => decode_of_encode codec empty written⟩
    · obtain ⟨detail, refused⟩ := decode_of_not_canonical empty canonical
      exact .inl ⟨.alphabet detail, refused⟩

/-- What is decoded within a limit is no larger than the limit. -/
theorem size_le_of_decode {codec : Codec} {token text : String}
    (decoded : codec.decode token = .ok text)
    : text.utf8ByteSize ≤ codec.limit := by
  rcases decode_uniform token with ⟨error, refused⟩ | ⟨expansion, judged⟩
  · rw [refused] at decoded
    cases decoded
  · rw [judged] at decoded
    exact size_le_of_verdict decoded

theorem verdict_ne_error_empty (limit : Nat) (expansion : Expansion)
    : verdict limit expansion ≠ .error .empty := by
  rw [verdict]
  split
  · nofun
  · split
    · nofun
    · nofun
    · nofun
    · split <;> nofun

/-- Only the empty token is refused for being empty. -/
theorem decode_eq_error_empty_iff (codec : Codec) (token : String)
    : codec.decode token = .error .empty ↔ token = "" := by
  constructor
  · intro refused
    by_contra nonempty
    by_cases canonical : Base64Url.Canonical token.toList
    · obtain ⟨payload, written⟩ := Base64Url.canonical_iff.mp canonical
      rw [decode_of_encode codec nonempty written] at refused
      exact verdict_ne_error_empty _ _ refused
    · obtain ⟨detail, strange⟩ := decode_of_not_canonical nonempty canonical
      cases refused.symm.trans (strange codec)
  · rintro rfl
    exact decode_empty codec

/-- Decoding is the verdict on an expansion that knows no bound. An empty token, and one that is
not canonical, is refused before; any other is the token of a payload. How the room grows is not
seen, and a larger limit only takes back that an output was too large.
-/
theorem decode_eq_verdict (codec : Codec) (token : String)
    : (token = "" → codec.decode token = .error .empty)
      ∧ (token ≠ "" → ¬ Base64Url.Canonical token.toList
        → ∃ detail, codec.decode token = .error (.alphabet detail))
      ∧ (Base64Url.Canonical token.toList
        ↔ ∃ payload, Base64Url.encode payload = token)
      ∧ (∀ payload, token ≠ "" → Base64Url.encode payload = token
        → codec.decode token = verdict codec.limit (Zlib.expand payload))
      ∧ (∀ larger : Codec, codec.limit ≤ larger.limit
        → codec.decode token = .error (.tooLarge codec.limit)
          ∨ larger.decode token = codec.decode token) := by
  refine ⟨fun empty => empty ▸ decode_empty codec, fun nonempty strange => ?_,
    Base64Url.canonical_iff, fun payload => decode_of_encode codec, fun larger le => ?_⟩
  · obtain ⟨detail, refused⟩ := decode_of_not_canonical nonempty strange
    exact ⟨detail, refused codec⟩
  · rcases decode_uniform token with ⟨error, refused⟩ | ⟨expansion, judged⟩
    · exact .inr (by rw [refused, refused])
    · rw [judged, judged]
      exact verdict_of_le le expansion

/-- Not every stream that stops short within the limit is corrupt: a stored block announces two
bytes and holds one, and room for the second is asked for first.
-/
theorem decode_starved_at_limit
    : ¬ ∀ (codec : Codec) (payload : List UInt8),
        (Zlib.expand payload).written.size ≤ codec.limit
        → (Zlib.expand payload).ending = .starved
        → ∃ detail, codec.decode (Base64Url.encode payload) = .error (.corrupt detail) := by
  intro claimed
  let payload : List UInt8 := [0x78, 0x01, 0x01, 0x02, 0x00, 0xFD, 0xFF, 0x61]
  have expanded : Zlib.expand payload = ⟨#[0x61], .starved⟩ := by cbv
  have decoded
      : (ofLevel 9 1).decode (Base64Url.encode payload) = .error (.tooLarge 1) := by cbv
  obtain ⟨detail, corrupt⟩ :=
    claimed (ofLevel 9 1) payload (by rw [expanded]; decide) (by rw [expanded])
  rw [decoded] at corrupt
  cases corrupt

end Scratchpad.Codec
