import Scratchpad.Page
import Scratchpad.Proofs.Session.Starts
import Scratchpad.Proofs.Share.Publishing

/-! What a fragment holds. A session that is started over a fragment and a page that decodes the
fragment without a session find the same in it: nothing, the same text, or the same flaw.
-/

namespace Scratchpad

/-- Nothing is left without a `#` of the empty text and of a `#` alone, and of no other text. -/
theorem withoutHash_eq_empty_iff (text : String)
    : withoutHash text = "" ↔ text = "" ∨ text = "#" := by
  rw [withoutHash]
  split
  · rename_i rest split
    have whole : text = String.ofList ('#' :: rest) := by rw [← split, String.ofList_toList]
    constructor
    · intro bare
      have none_left : rest = [] := by simpa using bare
      exact .inr (by rw [whole, none_left])
    · rintro (rfl | rfl)
      · cases split
      · obtain rfl : rest = [] := by simpa using split.symm
        rfl
  · rename_i bare
    constructor
    · exact .inl
    · rintro (rfl | rfl)
      · rfl
      · exact absurd rfl (bare [])

/-- A text that starts with two `#` is refused for its characters, as one of the two is left. -/
theorem Share.decode_hash_hash (rest : String)
    : ∃ detail, Share.decode ("##" ++ rest) = .error (.malformedToken (.alphabet detail)) := by
  have left : withoutHash ("##" ++ rest) = "#" ++ rest := by
    rw [← withoutHash_hash ("#" ++ rest), ← String.append_assoc]
    rfl
  have strange : ¬ Base64Url.Canonical ("#" ++ rest).toList := by
    intro canonical
    exact absurd (canonical.1 '#' (by simp)) (by decide)
  have nonempty : "#" ++ rest ≠ "" := by simp
  obtain ⟨detail, refused⟩ := Codec.decode_of_not_canonical nonempty strange
  exact ⟨detail, by rw [Share.decode, left, refused]; rfl⟩

/-- The token of a text is decoded with and without a `#`, if the text is within the limit. -/
theorem Share.decode_encode (text : String)
    : let decoded : Except Error String :=
        if text.utf8ByteSize ≤ 1048576 then
          .ok text
        else
          .error (.malformedToken (.tooLarge 1048576))
      Share.decode (Share.encode text) = decoded
      ∧ Share.decode ("#" ++ Share.encode text) = decoded := by
  intro decoded
  have bare : withoutHash (Share.encode text) = Share.encode text :=
    withoutHash_of_not_mem (Codec.standard.hash_not_mem_encode text)
  have read : (Codec.standard.decode (Share.encode text)).mapError .malformedToken = decoded := by
    rw [Share.encode, Codec.decode_encode]
    exact apply_ite _ _ _ _
  rw [Share.decode, Share.decode, bare, withoutHash_hash]
  exact ⟨read, read⟩

namespace Session

variable {σ τ : Type} [Slot τ]

/-- A start with the settings that hold unless others are given, over a slot without a token. -/
theorem start_standard_none (engine : Engine σ) (state : σ) {slot : τ} (catalog : Catalog)
    (bare : withoutHash (Slot.read slot) = "")
    : ∃ session,
        (start engine state slot catalog .standard).value = .ok session
        ∧ session.restore = .noToken ∧ session.document = .ofFirst catalog := by
  have read : (Publisher.new Settings.standard.codec slot).readToken = none := by
    rw [Publisher.readToken, Publisher.new, bare]
    rfl
  rw [start_value rfl rfl, read,
    Document.startup_none (Document.preset_defaultName catalog)]
  exact ⟨_, rfl, rfl, rfl⟩

/-- Such a start over a slot with a token. -/
theorem start_standard_some (engine : Engine σ) (state : σ) {slot : τ} (catalog : Catalog)
    (present : withoutHash (Slot.read slot) ≠ "")
    : ∃ session,
        (start engine state slot catalog .standard).value = .ok session
        ∧ (session.document, session.restore)
          = match Codec.standard.decode (withoutHash (Slot.read slot)) with
            | .ok text => (⟨text, .restored⟩, .restored)
            | .error error => (.ofFirst catalog, .fellBack error) := by
  have full : (withoutHash (Slot.read slot)).isEmpty = false := by simpa using present
  have read
      : (Publisher.new Settings.standard.codec slot).readToken
        = some (withoutHash (Slot.read slot)) := by
    rw [Publisher.readToken, Publisher.new, full]
    rfl
  rw [start_value rfl rfl, read,
    Document.startup_some (Document.preset_defaultName catalog) _ present]
  exact ⟨_, rfl, rfl⟩

section

variable (fragment : String) (catalog : Catalog) (session : Session σ τ)

/-- A session and a direct decoding both find nothing in a fragment. -/
structure FindsNothing : Prop where
  bare : fragment = "" ∨ fragment = "#"
  restore : session.restore = .noToken
  document : session.document = .ofFirst catalog
  decoded : Share.decode fragment = .error (.malformedToken .empty)

/-- They both find one text. -/
def FindsText : Prop :=
  ∃ text,
    Share.decode fragment = .ok text
    ∧ session.restore = .restored
    ∧ session.document = ⟨text, .restored⟩

/-- They both find one flaw, which is not that there is nothing. -/
def FindsFlaw : Prop :=
  ∃ error,
    error ≠ .empty
    ∧ Share.decode fragment = .error (.malformedToken error)
    ∧ session.restore = .fellBack error
    ∧ session.document = .ofFirst catalog

variable {fragment : String} {catalog : Catalog} {session : Session σ τ}

omit [Slot τ]

theorem FindsNothing.not_findsText (nothing : FindsNothing fragment catalog session)
    : ¬ FindsText fragment session := by
  rintro ⟨text, decoded, -, -⟩
  cases nothing.decoded.symm.trans decoded

theorem FindsNothing.not_findsFlaw (nothing : FindsNothing fragment catalog session)
    : ¬ FindsFlaw fragment catalog session := by
  rintro ⟨error, nonempty, decoded, -, -⟩
  cases nothing.decoded.symm.trans decoded
  exact nonempty rfl

theorem FindsText.not_findsFlaw (text : FindsText fragment session)
    : ¬ FindsFlaw fragment catalog session := by
  obtain ⟨text, decoded, -, -⟩ := text
  rintro ⟨error, -, refused, -, -⟩
  cases decoded.symm.trans refused

end

/-- What one of the two finds, the other finds. -/
theorem exists_found (engine : Engine σ) (state : σ) (slot : τ) (catalog : Catalog)
    : ∃ session,
        (start engine state slot catalog .standard).value = .ok session
        ∧ (FindsNothing (Slot.read slot) catalog session
          ∨ FindsText (Slot.read slot) session
          ∨ FindsFlaw (Slot.read slot) catalog session) := by
  by_cases bare : withoutHash (Slot.read slot) = ""
  · obtain ⟨session, started, restore, document⟩ :=
      start_standard_none engine state catalog bare
    have decoded : Share.decode (Slot.read slot) = .error (.malformedToken .empty) := by
      rw [Share.decode, bare]
      rfl
    have blank := (withoutHash_eq_empty_iff _).mp bare
    exact ⟨session, started, .inl ⟨blank, restore, document, decoded⟩⟩
  · obtain ⟨session, started, found⟩ := start_standard_some engine state catalog bare
    refine ⟨session, started, .inr ?_⟩
    rw [FindsText, FindsFlaw, Share.decode]
    cases decoded : Codec.standard.decode (withoutHash (Slot.read slot)) with
    | ok text =>
        rw [decoded] at found
        obtain ⟨document, restore⟩ := Prod.mk.inj found
        exact .inl ⟨text, rfl, restore, document⟩
    | error error =>
        rw [decoded] at found
        obtain ⟨document, restore⟩ := Prod.mk.inj found
        refine .inr ⟨error, ?_, rfl, restore, document⟩
        rintro rfl
        exact bare ((Codec.decode_eq_error_empty_iff _ _).mp decoded)

/-- What a session finds in a fragment when it is started is what decoding the fragment finds, and
it finds nothing, a text or a flaw, and never two of these. Both take one `#` away and no second
one, which is a flaw. A text within the limit is found in its token, with or without a `#`; a larger
text still has a token, which is found to be too large.
-/
theorem start_finds_decoded (engine : Engine σ) (state : σ) (catalog : Catalog) (fragment : String)
    : (∃ session,
        (start engine state (RecordedSlot.holding fragment) catalog .standard).value = .ok session
        ∧ (FindsNothing fragment catalog session
            ∧ ¬ FindsText fragment session ∧ ¬ FindsFlaw fragment catalog session
          ∨ ¬ FindsNothing fragment catalog session
            ∧ FindsText fragment session ∧ ¬ FindsFlaw fragment catalog session
          ∨ ¬ FindsNothing fragment catalog session
            ∧ ¬ FindsText fragment session ∧ FindsFlaw fragment catalog session)
        ∧ (∀ rest, fragment = "##" ++ rest
          → ∃ detail,
              Share.decode fragment = .error (.malformedToken (.alphabet detail))
              ∧ session.restore = .fellBack (.alphabet detail)))
      ∧ (∀ rest, fragment = "#" ++ rest
        → Share.decode fragment = (Codec.standard.decode rest).mapError .malformedToken)
      ∧ ∀ text,
        let decoded : Except Error String :=
          if text.utf8ByteSize ≤ 1048576 then
            .ok text
          else
            .error (.malformedToken (.tooLarge 1048576))
        Share.decode (Share.encode text) = decoded
        ∧ Share.decode ("#" ++ Share.encode text) = decoded := by
  obtain ⟨session, started, found⟩ :=
    exists_found engine state (RecordedSlot.holding fragment) catalog
  have read : Slot.read (RecordedSlot.holding fragment) = fragment := rfl
  rw [read] at found
  refine ⟨⟨session, started, ?_, ?_⟩, ?_, Share.decode_encode⟩
  · rcases found with nothing | text | flaw
    · exact .inl ⟨nothing, nothing.not_findsText, nothing.not_findsFlaw⟩
    · exact .inr (.inl ⟨fun nothing => nothing.not_findsText text, text, text.not_findsFlaw⟩)
    · exact .inr (.inr ⟨fun nothing => nothing.not_findsFlaw flaw,
        fun text => text.not_findsFlaw flaw, flaw⟩)
  · rintro rest rfl
    obtain ⟨detail, refused⟩ := Share.decode_hash_hash rest
    refine ⟨detail, refused, ?_⟩
    rcases found with ⟨-, -, -, decoded⟩ | ⟨text, decoded, -, -⟩ | ⟨error, -, decoded, restore, -⟩
    · cases refused.symm.trans decoded
    · cases refused.symm.trans decoded
    · cases refused.symm.trans decoded
      exact restore
  · rintro rest rfl
    rw [Share.decode, withoutHash_hash]

end Session

end Scratchpad
