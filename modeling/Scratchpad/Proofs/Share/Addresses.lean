import Scratchpad.Proofs.Share.Publishing

/-! Addresses that are given out. Whatever was published before, an address leads to the text that
was published last, and there is none if that text was too large. Of the address it is made from,
only what is before the first `#` is kept.
-/

namespace Scratchpad

------------------------------------------------------------------------------------------
-- Before a fragment
------------------------------------------------------------------------------------------

/-- The longest part without a `#` that a text starts with. -/
structure FreeStart (text start : String) : Prop where
  free : '#' ∉ start.toList
  starts : start.toList <+: text.toList
  longest
    : ∀ other : String,
        '#' ∉ other.toList → other.toList <+: text.toList → other.toList <+: start.toList

theorem takeWhile_of_not_mem {start : List Char} (free : '#' ∉ start) (rest : List Char)
    : (start ++ rest).takeWhile (· ≠ '#') = start ++ rest.takeWhile (· ≠ '#') := by
  refine List.takeWhile_append_of_pos fun character within => ?_
  exact decide_eq_true fun same => free (same ▸ within)

theorem freeStart_beforeHash (text : String)
    : FreeStart text (beforeHash text) := by
  have characters : (beforeHash text).toList = text.toList.takeWhile (· ≠ '#') :=
    String.toList_ofList
  constructor
  · exact hash_not_mem_beforeHash text
  · rw [characters]
    exact List.takeWhile_prefix _
  · rintro other free ⟨rest, whole⟩
    rw [characters, ← whole, takeWhile_of_not_mem free]
    exact List.prefix_append _ _

/-- A text starts with only one longest part without a `#`. -/
theorem FreeStart.eq_beforeHash {text start : String} (free : FreeStart text start)
    : start = beforeHash text := by
  have other := freeStart_beforeHash text
  have shorter := other.longest start free.free free.starts
  have longer := free.longest (beforeHash text) other.free other.starts
  have length := Nat.le_antisymm shorter.length_le longer.length_le
  exact String.toList_inj.mp (shorter.eq_of_length length)

/-- A `#` ends the part before it. -/
theorem freeStart_hash {start : String} (free : '#' ∉ start.toList) (rest : String)
    : FreeStart (start ++ "#" ++ rest) start := by
  have whole : (start ++ "#" ++ rest).toList = start.toList ++ '#' :: rest.toList := by simp
  have before : beforeHash (start ++ "#" ++ rest) = start := by
    rw [beforeHash, whole, takeWhile_of_not_mem free, List.takeWhile_cons_of_neg (by simp),
      List.append_nil, String.ofList_toList]
  have free := freeStart_beforeHash (start ++ "#" ++ rest)
  rwa [before] at free

------------------------------------------------------------------------------------------
-- Tokens in addresses
------------------------------------------------------------------------------------------

/-- Characters that mean nothing in a fragment but themselves: letters and figures of ASCII, the
hyphen and the underscore.
-/
def IsTokenChar (character : Char) : Prop :=
  character.isAlphanum ∨ character = '-' ∨ character = '_'

/-- An address with a token as its fragment. -/
structure LeadsTo (url token : String) : Prop where
  once : url.toList.count '#' = 1
  full : token ≠ ""
  characters : ∀ character ∈ token.toList, IsTokenChar character
  found
    : ∀ (τ : Type) [Slot τ] (opened : Publisher τ),
        Slot.read opened.slot = fromHash url → opened.readToken = some token

theorem isTokenChar_of_mem_alphabet {character : Char}
    (listed : character ∈ Base64Url.alphabet)
    : IsTokenChar character := by
  have all : ∀ value : Fin 64,
      (Base64Url.digit value).isAlphanum = true ∨ Base64Url.digit value = '-'
        ∨ Base64Url.digit value = '_' := by
    decide +kernel
  obtain ⟨value, small, rfl⟩ := Base64Url.exists_digit_of_mem listed
  exact all ⟨value, small⟩

theorem Codec.isTokenChar_of_mem_encode {codec : Codec} {text : String} {character : Char}
    (within : character ∈ (codec.encode text).toList)
    : IsTokenChar character :=
  have canonical : Base64Url.Canonical (codec.encode text).toList :=
    Base64Url.canonical_iff.mpr ⟨_, rfl⟩
  isTokenChar_of_mem_alphabet (canonical.digits character within)

theorem Codec.token?_of_fits {codec : Codec} {text : String}
    (fits : text.utf8ByteSize ≤ codec.limit)
    : codec.token? text = some (codec.encode text) :=
  if_pos fits

theorem Codec.token?_eq_none_iff {codec : Codec} {text : String}
    : codec.token? text = none ↔ codec.limit < text.utf8ByteSize := by
  simp [token?]

/-- In front of a token and a `#`, what has no `#` makes an address that leads to the token. -/
theorem leadsTo_encode (codec : Codec) (text : String) {start : String}
    (free : '#' ∉ start.toList)
    : LeadsTo (start ++ "#" ++ codec.encode text) (codec.encode text) := by
  have whole
      : (start ++ "#" ++ codec.encode text).toList
        = start.toList ++ '#' :: (codec.encode text).toList := by
    simp
  refine ⟨?_, codec.encode_ne_empty text, fun _ => Codec.isTokenChar_of_mem_encode, ?_⟩
  · rw [whole, List.count_append, List.count_cons_self, List.count_eq_zero_of_not_mem free,
      List.count_eq_zero_of_not_mem (codec.hash_not_mem_encode text)]
  · intro τ _ opened holds
    rw [fromHash_hash free] at holds
    have entry : withoutHash (Slot.read opened.slot) = codec.encode text := by
      rw [holds, withoutHash_hash]
    have full : (codec.encode text).isEmpty = false := by simpa using codec.encode_ne_empty text
    rw [Publisher.readToken, entry, full]
    rfl

------------------------------------------------------------------------------------------
-- Publishing one text after the other
------------------------------------------------------------------------------------------

namespace Publisher

variable {τ : Type} [Slot τ]

/-- A publisher after it has published texts, one after the other. -/
def after (texts : List String) (publisher : Publisher τ) : Publisher τ :=
  texts.foldl (fun publisher text => (publisher.publish text).value) publisher

theorem codec_after (texts : List String) (publisher : Publisher τ)
    : (publisher.after texts).codec = publisher.codec := by
  induction texts generalizing publisher with
  | nil => rfl
  | cons text texts hyp =>
      have step : (publisher.publish text).value.codec = publisher.codec := by
        rw [publish_value]
      exact (hyp (publisher.publish text).value).trans step

/-- The token is that of the last text, whatever was published before. -/
theorem token_after (codec : Codec) (slot : τ) (texts : List String)
    : ((new codec slot).after texts).token = texts.getLast?.bind codec.token? := by
  rcases texts.eq_nil_or_concat with rfl | ⟨earlier, last, rfl⟩
  · rfl
  · have publishes
        : (new codec slot).after (earlier ++ [last])
          = (((new codec slot).after earlier).publish last).value :=
      List.foldl_concat ..
    rw [List.concat_eq_append, publishes, publish_value, codec_after, List.getLast?_concat]
    rfl

omit [Slot τ] in
/-- An address is made of what its base has before the first `#`. -/
theorem shareUrl_of_freeStart {publisher : Publisher τ} {token base start : String}
    (published : publisher.token = some token) (free : FreeStart base start)
    : publisher.shareUrl base = some (start ++ "#" ++ token) := by
  rw [shareUrl, published, free.eq_beforeHash]
  rfl

/-- After texts were published, the address that is given out leads to the last of them, and there
is none if that was too large or if there was no text. It keeps of its base what is before the first
`#` and nothing else, so that it is its own address and that of every base with the same start.
-/
theorem shareUrl_after (codec : Codec) (slot : τ) (texts : List String) (base : String)
    : let publisher := (new codec slot).after texts
      (publisher.shareUrl base = none
        ↔ ∀ text ∈ texts.getLast?, codec.limit < text.utf8ByteSize)
      ∧ (∀ text ∈ texts.getLast?, text.utf8ByteSize ≤ codec.limit
        → ∃ start url,
            FreeStart base start
            ∧ publisher.token = some (codec.encode text)
            ∧ url = start ++ "#" ++ codec.encode text
            ∧ publisher.shareUrl base = some url
            ∧ LeadsTo url (codec.encode text)
            ∧ publisher.shareUrl url = some url)
      ∧ ∀ other start, FreeStart base start → FreeStart other start
        → publisher.shareUrl other = publisher.shareUrl base := by
  intro publisher
  have token : publisher.token = texts.getLast?.bind codec.token? := token_after codec slot texts
  refine ⟨?_, ?_, ?_⟩
  · rw [shareUrl, Option.map_eq_none_iff, token, Option.bind_eq_none_iff]
    exact forall₂_congr fun _ _ => Codec.token?_eq_none_iff
  · intro text last fits
    have published : publisher.token = some (codec.encode text) := by
      rw [token, last, Option.bind_some, Codec.token?_of_fits fits]
    have free := freeStart_beforeHash base
    have again := freeStart_hash free.free (codec.encode text)
    exact ⟨beforeHash base, _, free, published, rfl, shareUrl_of_freeStart published free,
      leadsTo_encode codec text free.free, shareUrl_of_freeStart published again⟩
  · intro other start first second
    rw [shareUrl, shareUrl, ← first.eq_beforeHash, ← second.eq_beforeHash]

end Publisher

end Scratchpad
