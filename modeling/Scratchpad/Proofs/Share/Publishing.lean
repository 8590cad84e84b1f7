import Scratchpad.Proofs.Share.RoundTrip
import Scratchpad.Share.Publisher

/-! What stands in a slot after a text was published, and what is read from it later. A token has
no `#` in it and is never empty, so it is found again behind a `#` and behind any address.
-/

namespace Scratchpad

namespace Codec

/-- The token of a text, if the text is not too large for one. -/
def token? (codec : Codec) (text : String) : Option String :=
  if text.utf8ByteSize ≤ codec.limit then some (codec.encode text) else none

/-- What is written to the slot for a text: its token, or nothing. -/
def entry (codec : Codec) (text : String) : String :=
  (codec.token? text).getD ""

theorem entry_of_fits {codec : Codec} {text : String} (fits : text.utf8ByteSize ≤ codec.limit)
    : codec.entry text = codec.encode text := by
  rw [entry, token?, if_pos fits]
  rfl

theorem entry_of_large {codec : Codec} {text : String} (large : ¬ text.utf8ByteSize ≤ codec.limit)
    : codec.entry text = "" := by
  rw [entry, token?, if_neg large]
  rfl

/-- A token has no `#` in it. -/
theorem hash_not_mem_encode (codec : Codec) (text : String)
    : '#' ∉ (codec.encode text).toList := by
  have canonical : Base64Url.Canonical (codec.encode text).toList :=
    Base64Url.canonical_iff.mpr ⟨_, rfl⟩
  intro hash
  exact absurd (canonical.1 _ hash) (by decide)

end Codec

/-- What publishing a text does, whether or not it is too large. -/
theorem Publisher.publish_value {τ : Type} [Slot τ] (text : String) (publisher : Publisher τ)
    : (publisher.publish text).value
      = { publisher with
          slot := Slot.write (publisher.codec.entry text) publisher.slot
          token := publisher.codec.token? text } := by
  by_cases fits : text.utf8ByteSize ≤ publisher.codec.limit
  · have encoded
        : publisher.codec.encodeBounded text = .ok (publisher.codec.encode text) :=
      if_neg (Nat.not_lt.mpr fits)
    simp only [publish, encoded, Codec.entry, Codec.token?, if_pos fits]
    rfl
  · have refused
        : publisher.codec.encodeBounded text = .error (.tooLarge publisher.codec.limit) :=
      if_pos (Nat.lt_of_not_le fits)
    simp only [publish, refused, Codec.entry, Codec.token?, if_neg fits]
    rfl

------------------------------------------------------------------------------------------
-- Fragments
------------------------------------------------------------------------------------------

/-- A text from its first `#` on. -/
def fromHash (text : String) : String :=
  String.ofList (text.toList.dropWhile (· ≠ '#'))

/-- A `#` before a text is taken away again. -/
theorem withoutHash_hash (text : String)
    : withoutHash ("#" ++ text) = text := by
  have split : ("#" ++ text).toList = '#' :: text.toList := String.toList_append
  rw [withoutHash, split]
  exact String.ofList_toList

theorem withoutHash_of_not_mem {text : String} (absent : '#' ∉ text.toList)
    : withoutHash text = text := by
  rw [withoutHash]
  split
  · rename_i rest split
    exact absurd (split ▸ List.mem_cons_self) absent
  · rfl

/-- What is written to the slot does not start with `#`. -/
theorem withoutHash_entry (codec : Codec) (text : String)
    : withoutHash (codec.entry text) = codec.entry text := by
  apply withoutHash_of_not_mem
  rw [Codec.entry, Codec.token?]
  split
  · exact codec.hash_not_mem_encode text
  · exact List.not_mem_nil

theorem hash_not_mem_beforeHash (text : String)
    : '#' ∉ (beforeHash text).toList := by
  rw [beforeHash, String.toList_ofList]
  intro hash
  simpa using List.all_eq_true.mp List.all_takeWhile _ hash

/-- What has no `#` is left out in front of the first one. -/
theorem fromHash_hash {start : String} (free : '#' ∉ start.toList) (rest : String)
    : fromHash (start ++ "#" ++ rest) = "#" ++ rest := by
  have whole : (start ++ "#" ++ rest).toList = start.toList ++ '#' :: rest.toList := by simp
  have before : ∀ character ∈ start.toList, decide (character ≠ '#') = true := by
    intro character within
    exact decide_eq_true fun same => free (same ▸ within)
  rw [fromHash, whole, List.dropWhile_append_of_pos before, List.dropWhile_cons_of_neg (by simp)]
  simp

/-- The fragment of an address is the token of its publisher, behind a `#`. -/
theorem fromHash_shareUrl {τ : Type} {publisher : Publisher τ} {base url : String}
    (address : publisher.shareUrl base = some url)
    : ∃ token, publisher.token = some token ∧ fromHash url = "#" ++ token := by
  obtain ⟨token, published, rfl⟩ := Option.map_eq_some_iff.mp address
  exact ⟨token, published, fromHash_hash (hash_not_mem_beforeHash base) token⟩

/-- A slot in which the entry for a text stands, behind a `#` or not, has the token of the text. -/
theorem Publisher.readToken_of_entry {codec : Codec} {text : String} {τ : Type} [Slot τ]
    {publisher : Publisher τ}
    (holds : withoutHash (Slot.read publisher.slot) = codec.entry text)
    : publisher.readToken = codec.token? text := by
  rw [readToken, holds, Codec.entry]
  by_cases fits : text.utf8ByteSize ≤ codec.limit
  · have full : (codec.encode text).isEmpty = false := by
      simpa using codec.encode_ne_empty text
    simp [Codec.token?, fits, full]
  · simp [Codec.token?, fits]

end Scratchpad
