import Scratchpad.Proofs.Session.Coherence

/-! Starts over what another session has published. Engines, levels and presets play no part in it:
the text comes back if it was published and is within the limit of the session that is started.
-/

namespace Scratchpad

/-- What a start makes of the entry that one codec wrote for a text and another reads. -/
def Document.reopened (writer reader : Codec) (text : String) (preset : Document)
    : Document × RestoreOutcome :=
  if text.utf8ByteSize ≤ writer.limit then
    if text.utf8ByteSize ≤ reader.limit then
      (⟨text, .restored⟩, .restored)
    else
      (preset, .fellBack (.tooLarge reader.limit))
  else
    (preset, .noToken)

namespace Session

variable {σ ρ : Type}

/-- A session that is started over the entry for a text has reopened the text. -/
theorem start_of_entry (engine : Engine σ) (state : σ) {slot : RecordedSlot} {catalog : Catalog}
    {settings : Settings} {name text : String} {preset : Document} {writer : Codec}
    (valid : settings.validate = .ok ()) (named : settings.startName catalog = .ok name)
    (loaded : Document.preset catalog name = .ok preset)
    (holds : withoutHash slot.value = writer.entry text)
    : ∃ session,
        (start engine state slot catalog settings).value = .ok session
        ∧ (session.document, session.restore)
          = Document.reopened writer settings.codec text preset := by
  have read : (Publisher.new settings.codec slot).readToken = writer.token? text :=
    Publisher.readToken_of_entry holds
  have opened
      : (Document.startup catalog settings.codec name (writer.token? text)).value
        = .ok (Document.reopened writer settings.codec text preset) := by
    rw [Codec.token?, Document.reopened]
    by_cases published : text.utf8ByteSize ≤ writer.limit
    · rw [if_pos published, if_pos published,
        Document.startup_some loaded settings.codec (writer.encode_ne_empty text),
        Codec.decode_encode]
      by_cases fits : text.utf8ByteSize ≤ settings.codec.limit
      · rw [if_pos fits, if_pos fits]
      · rw [if_neg fits, if_neg fits]
    · rw [if_neg published, if_neg published, Document.startup_none loaded]
  rw [start_value valid named, read, opened]
  exact ⟨_, rfl, rfl⟩

/-- The fragments in which what a session has published travels: what stands in its slot, with or
without a `#` before it, and what an address made from it has from its first `#` on.
-/
inductive Fragment (session : Session σ RecordedSlot) : String → Prop
  | verbatim : Fragment session session.publisher.slot.value
  | hashed : Fragment session ("#" ++ session.publisher.slot.value)
  | shared {base url : String} (address : session.shareUrl base = some url)
    : Fragment session (fromHash url)

/-- Every fragment is read as the entry for the text. -/
theorem Fragment.withoutHash_eq {codec : Codec} {session : Session σ RecordedSlot}
    {fragment : String} (found : session.Fragment fragment)
    (published : Published codec session)
    : withoutHash fragment = codec.entry session.document.text := by
  cases found with
  | verbatim => rw [published.slot, withoutHash_entry]
  | hashed => rw [withoutHash_hash, published.slot]
  | shared address =>
      obtain ⟨token, same, fragment⟩ := fromHash_shareUrl address
      rw [fragment, withoutHash_hash, Codec.entry, ← published.token, same]
      rfl

/-- Starting again over the slot of a session that was just started changes neither text nor slot:
a text within the limit is restored, and any other was a preset, which is loaded again.
-/
theorem start_again {engine : Engine σ} {state : σ} {slot again : RecordedSlot}
    {catalog : Catalog} {settings : Settings} {session : Session σ RecordedSlot}
    (started : (start engine state slot catalog settings).value = .ok session)
    (engine' : Engine ρ) (state' : ρ) (same : again.value = session.publisher.slot.value)
    : ∃ next,
        (start engine' state' again catalog settings).value = .ok next
        ∧ next.document.text = session.document.text
        ∧ next.publisher.slot.value = session.publisher.slot.value := by
  have published : Published settings.codec session := published_after started []
  obtain ⟨name, document, restore, valid, named, opened, followed⟩ := follow_of_start started
  have document_eq : session.document = document := by rw [followed]; rfl
  obtain ⟨preset, loaded⟩ := Settings.preset_of_startName named
  have holds : withoutHash again.value = settings.codec.entry session.document.text := by
    rw [same, published.slot, withoutHash_entry]
  obtain ⟨next, restarted, reopened⟩ := start_of_entry engine' state' valid named loaded holds
  have text : next.document.text = session.document.text := by
    rw [Document.reopened] at reopened
    by_cases fits : session.document.text.utf8ByteSize ≤ settings.codec.limit
    · rw [if_pos fits, if_pos fits] at reopened
      rw [(Prod.mk.inj reopened).1]
    · rw [if_neg fits] at reopened
      rw [(Prod.mk.inj reopened).1]
      rcases Document.preset_or_decoded_of_startup opened with first | ⟨token, decoded⟩
      · rw [document_eq, Except.ok.inj (loaded.symm.trans first)]
      · rw [document_eq] at fits
        exact absurd (Codec.size_le_of_decode decoded) fits
  have again_published : Published settings.codec next := published_after restarted []
  exact ⟨next, restarted, text, by rw [again_published.slot, text, published.slot]⟩

/-- What a session published under any fragment is restored by any session that has the room. A
text too large for the session that is started, or for the one that was to publish it, leaves that
with its preset; and from then on a start over what was published last changes nothing.
-/
theorem restored_from_fragment {engine : Engine σ} {state : σ} {slot : RecordedSlot}
    {catalog : Catalog} {settings : Settings} {origin : Session σ RecordedSlot}
    (started : (start engine state slot catalog settings).value = .ok origin)
    (actions : List Action) {engine' : Engine ρ} {state' : ρ} {slot' : RecordedSlot}
    {catalog' : Catalog} {settings' : Settings} {name : String}
    (valid : settings'.validate = .ok ()) (named : settings'.startName catalog' = .ok name)
    (found : (origin.after actions).Fragment slot'.value)
    : let text := (origin.after actions).document.text
      let written := settings.maxDecodedBytes.toNat
      let read := settings'.maxDecodedBytes.toNat
      ∃ preset opened,
        Document.preset catalog' name = .ok preset
        ∧ (start engine' state' slot' catalog' settings').value = .ok opened
        ∧ (text.utf8ByteSize ≤ written → text.utf8ByteSize ≤ read
          → opened.restore = .restored ∧ opened.document = ⟨text, .restored⟩)
        ∧ (text.utf8ByteSize ≤ written → read < text.utf8ByteSize
          → opened.restore = .fellBack (.tooLarge read) ∧ opened.document = preset)
        ∧ (written < text.utf8ByteSize
          → opened.restore = .noToken ∧ opened.document = preset)
        ∧ (∀ (υ : Type) (engine'' : Engine υ) (state'' : υ) (slot'' : RecordedSlot),
          slot''.value = opened.publisher.slot.value
          → ∃ again,
              (start engine'' state'' slot'' catalog' settings').value = .ok again
              ∧ again.document.text = opened.document.text
              ∧ again.publisher.slot.value = opened.publisher.slot.value) := by
  intro text written read
  obtain ⟨preset, loaded⟩ := Settings.preset_of_startName named
  have holds : withoutHash slot'.value = settings.codec.entry text :=
    found.withoutHash_eq (published_after started actions)
  obtain ⟨opened, restarted, reopened⟩ := start_of_entry engine' state' valid named loaded holds
  have ends {document : Document} {outcome : RestoreOutcome}
      (same : Document.reopened settings.codec settings'.codec text preset = (document, outcome))
      : opened.restore = outcome ∧ opened.document = document :=
    (Prod.mk.inj (reopened.trans same)).symm
  refine ⟨preset, opened, loaded, restarted, ?_, ?_, ?_, ?_⟩
  · intro published fits
    exact ends ((if_pos published).trans (if_pos fits))
  · intro published large
    exact ends ((if_pos published).trans (if_neg (Nat.not_le.mpr large)))
  · intro large
    exact ends (if_neg (Nat.not_le.mpr large))
  · intro υ engine'' state'' slot'' same
    exact start_again restarted engine'' state'' same

/-- An edited text is restored from behind a `#`, by a session with other settings. -/
theorem restored_from_hash
    : let engine : Engine Unit := .ofFunction fun _ source => .ok source
      let settings : Settings := ⟨some "factorial", false, 3, 100⟩
      ∃ origin opened,
        (start engine () RecordedSlot.empty .builtin .standard).value = .ok origin
        ∧ (start engine () (RecordedSlot.holding ("#" ++ (origin.after [.edit "1"]).publisher.slot.value))
            .builtin settings).value = .ok opened
        ∧ opened.document = ⟨"1", .restored⟩ := by
  intro engine settings
  obtain ⟨origin, started, text⟩
      : ∃ origin,
          (start engine () RecordedSlot.empty .builtin .standard).value = .ok origin
          ∧ (origin.after [.edit "1"]).document.text = "1" := ⟨_, rfl, rfl⟩
  let slot := RecordedSlot.holding ("#" ++ (origin.after [.edit "1"]).publisher.slot.value)
  have found : (origin.after [.edit "1"]).Fragment slot.value := .hashed
  have valid : settings.validate = .ok () := rfl
  have named : settings.startName .builtin = .ok "factorial" := rfl
  obtain ⟨_, opened, -, restarted, restored, -⟩ :=
    restored_from_fragment started [.edit "1"] valid named found
  rw [text] at restored
  exact ⟨origin, opened, started, restarted, (restored (by decide) (by decide)).2⟩

end Session

end Scratchpad
