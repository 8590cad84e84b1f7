import Scratchpad.Proofs.Catalog.Lookup
import Scratchpad.Session

/-! Starts of a session. The settings are checked first, the token in the slot chooses the document,
and the session then follows it as it will follow every later one.
-/

namespace Scratchpad

/-- The preset that the settings ask for at start is in the catalog. -/
theorem Settings.preset_of_startName {settings : Settings} {catalog : Catalog} {name : String}
    (named : settings.startName catalog = .ok name)
    : ∃ document, Document.preset catalog name = .ok document :=
  Document.preset_of_mem (mem_of_startName named)

namespace Document

/-- Without a token the preset is loaded. -/
theorem startup_none {catalog : Catalog} {name : String} {document : Document}
    (loaded : preset catalog name = .ok document) (codec : Codec)
    : (startup catalog codec name none).value = .ok (document, .noToken) := by
  simp only [startup, Option.filter, loaded]
  rfl

/-- A token that is not empty is restored. -/
theorem startup_given {catalog : Catalog} {codec : Codec} {name token : String}
    (nonempty : token ≠ "")
    : startup catalog codec name (some token) = restore catalog codec name token := by
  have full : (!token.isEmpty) = true := by simpa using nonempty
  simp only [startup, Option.filter, full, if_true]

/-- What restoring a token gives: its text if it decodes, and else the preset. -/
theorem restore_value {catalog : Catalog} {name : String} {document : Document}
    (loaded : preset catalog name = .ok document) (codec : Codec) (token : String)
    : (restore catalog codec name token).value
      = .ok (match codec.decode token with
        | .ok text => (⟨text, .restored⟩, .restored)
        | .error error => (document, .fellBack error)) := by
  rw [restore]
  cases codec.decode token with
  | ok text => rfl
  | error error =>
      simp only [loaded]
      rfl

/-- A token is restored if it decodes, and else the preset is loaded. -/
theorem startup_some {catalog : Catalog} {name token : String} {document : Document}
    (loaded : preset catalog name = .ok document) (codec : Codec) (nonempty : token ≠ "")
    : (startup catalog codec name (some token)).value
      = .ok (match codec.decode token with
        | .ok text => (⟨text, .restored⟩, .restored)
        | .error error => (document, .fellBack error)) := by
  rw [startup_given nonempty]
  exact restore_value loaded codec token

/-- With a preset to fall back on, there is a document at start whatever the token is. -/
theorem exists_startup {catalog : Catalog} {name : String} {document : Document}
    (loaded : preset catalog name = .ok document) (codec : Codec) (token : Option String)
    : ∃ opened, (startup catalog codec name token).value = .ok opened := by
  rw [startup]
  split
  · exact ⟨_, restore_value loaded codec _⟩
  · rw [loaded]
    exact ⟨_, rfl⟩

/-- What a start opens is the preset, or the text of a token. -/
theorem preset_or_decoded_of_startup {catalog : Catalog} {codec : Codec} {name : String}
    {token : Option String} {document : Document} {outcome : RestoreOutcome}
    (opened : (startup catalog codec name token).value = .ok (document, outcome))
    : preset catalog name = .ok document
      ∨ ∃ token, codec.decode token = .ok document.text := by
  have preset_of_map (outcome' : RestoreOutcome)
      (mapped : ((preset catalog name).map fun document => (document, outcome'))
        = .ok (document, outcome))
      : preset catalog name = .ok document := by
    cases loaded : preset catalog name with
    | error error =>
        rw [loaded] at mapped
        cases mapped
    | ok document' =>
        rw [loaded] at mapped
        cases mapped
        rfl
  rw [startup] at opened
  split at opened
  · rename_i token _
    rw [restore] at opened
    cases decoded : codec.decode token with
    | ok text =>
        rw [decoded] at opened
        cases opened
        exact .inr ⟨token, decoded⟩
    | error error =>
        rw [decoded] at opened
        exact .inl (preset_of_map _ opened)
  · exact .inl (preset_of_map _ opened)

end Document

namespace Session

variable {σ τ : Type} [Slot τ]

omit [Slot τ] in
/-- A session that has not followed its document yet: there is no report, and nothing has been
written to the slot.
-/
def unopened (engine : Engine σ) (state : σ) (slot : τ) (catalog : Catalog) (settings : Settings)
    (document : Document) (restore : RestoreOutcome) : Session σ τ where
  catalog := catalog
  document := document
  runner := (Runner.new engine state).withMemo settings.memoize
  publisher := Publisher.new settings.codec slot
  report := ⟨.notRun, .notRun, .notRun⟩
  restore := restore

section

variable {m : Type → Type} [Monad m] {readToken : Publisher τ → m (Option String)}
  {engine : Engine σ} {state : σ} {slot : τ} {catalog : Catalog} {settings : Settings}

/-- Settings that are not valid are refused before the slot is read. -/
theorem startReading_of_invalid {error : Error} (invalid : settings.validate = .error error)
    : startReading readToken engine state slot catalog settings = pure ⟨.error error, []⟩ := by
  rw [startReading, invalid]
  rfl

/-- Settings that ask for a preset which is not there are refused before the slot is read. -/
theorem startReading_of_unnamed {error : Error} (valid : settings.validate = .ok ())
    (unnamed : settings.startName catalog = .error error)
    : startReading readToken engine state slot catalog settings = pure ⟨.error error, []⟩ := by
  rw [startReading, valid, unnamed]
  rfl

/-- With usable settings the slot is read once, and then a session is opened. -/
theorem startReading_of_named {name : String} (valid : settings.validate = .ok ())
    (named : settings.startName catalog = .ok name)
    : startReading readToken engine state slot catalog settings
      = do
        let token ← readToken (Publisher.new settings.codec slot)
        return opening engine state (Publisher.new settings.codec slot) catalog settings name
          token := by
  rw [startReading, valid, named]

theorem start_of_invalid {error : Error} (invalid : settings.validate = .error error)
    : start engine state slot catalog settings = ⟨.error error, []⟩ := by
  rw [start, startReading_of_invalid invalid]
  rfl

theorem start_of_unnamed {error : Error} (valid : settings.validate = .ok ())
    (unnamed : settings.startName catalog = .error error)
    : start engine state slot catalog settings = ⟨.error error, []⟩ := by
  rw [start, startReading_of_unnamed valid unnamed]
  rfl

theorem start_of_named {name : String} (valid : settings.validate = .ok ())
    (named : settings.startName catalog = .ok name)
    : start engine state slot catalog settings
      = opening engine state (Publisher.new settings.codec slot) catalog settings name
          (Publisher.new settings.codec slot).readToken := by
  rw [start, startReading_of_named valid named]
  rfl

end

/-- With usable settings a session follows the document at start. -/
theorem start_value {engine : Engine σ} {state : σ} {slot : τ} {catalog : Catalog}
    {settings : Settings} {name : String} (valid : settings.validate = .ok ())
    (named : settings.startName catalog = .ok name)
    : (start engine state slot catalog settings).value
      = (Document.startup catalog settings.codec name
          (Publisher.new settings.codec slot).readToken).value.map
        fun (document, restore) =>
          ((unopened engine state slot catalog settings document restore).follow document).value
      := by
  rw [start_of_named valid named]
  simp only [opening, Traced.value_bind]
  cases (Document.startup catalog settings.codec name
    (Publisher.new settings.codec slot).readToken).value <;> rfl

/-- A session is only started with usable settings, and it follows the document at start. -/
theorem follow_of_start {engine : Engine σ} {state : σ} {slot : τ} {catalog : Catalog}
    {settings : Settings} {session : Session σ τ}
    (started : (start engine state slot catalog settings).value = .ok session)
    : ∃ name document restore,
        settings.validate = .ok ()
        ∧ settings.startName catalog = .ok name
        ∧ (Document.startup catalog settings.codec name
            (Publisher.new settings.codec slot).readToken).value = .ok (document, restore)
        ∧ session
          = ((unopened engine state slot catalog settings document restore).follow
              document).value := by
  cases valid : settings.validate with
  | error error =>
      rw [start_of_invalid valid] at started
      cases started
  | ok checked =>
      cases named : settings.startName catalog with
      | error error =>
          rw [start_of_unnamed valid named] at started
          cases started
      | ok name =>
          rw [start_value valid named] at started
          cases opened : (Document.startup catalog settings.codec name
            (Publisher.new settings.codec slot).readToken).value with
          | error error =>
              rw [opened] at started
              cases started
          | ok pair =>
              obtain ⟨document, restore⟩ := pair
              rw [opened] at started
              exact ⟨name, document, restore, rfl, rfl, opened, (Except.ok.inj started).symm⟩

end Session

end Scratchpad
