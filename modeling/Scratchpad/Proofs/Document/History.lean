import Scratchpad.Proofs.Session.Refusals

/-! Where a document has come from. A start takes the text of its token if there is one, and else
the preset that it falls back on. From then on only the last action that was not refused counts, so
the provenance of a document always tells the truth about its text.
-/

namespace Scratchpad

namespace Document

variable {catalog : Catalog} {codec : Codec} {fallback : String} {token : Option String}

------------------------------------------------------------------------------------------
-- Starts
------------------------------------------------------------------------------------------

theorem preset_of_get {name text : String} (found : catalog.get name = .ok text)
    : preset catalog name = .ok ⟨text, .preset name⟩ := by
  rw [preset, found]
  rfl

/-- A document with a preset has the text of that preset, which is listed. -/
theorem eq_of_preset {name : String} {document : Document}
    (loaded : preset catalog name = .ok document)
    : name ∈ catalog.names
      ∧ ∃ text, catalog.get name = .ok text ∧ document = ⟨text, .preset name⟩ := by
  by_cases listed : name ∈ catalog.names
  · obtain ⟨text, found⟩ := Catalog.get_of_mem listed
    rw [preset_of_get found] at loaded
    exact ⟨listed, text, found, (Except.ok.inj loaded).symm⟩
  · rw [preset_of_not_mem listed] at loaded
    cases loaded

/-- No text comes with a token: there is none, it is empty, or it cannot be decoded. -/
def Textless (codec : Codec) (token : Option String) : Prop :=
  token = none ∨ token = some ""
    ∨ ∃ given cause, token = some given ∧ codec.decode given = .error cause

theorem textless_or_decoded (codec : Codec) (token : Option String)
    : Textless codec token
      ∨ ∃ given text, token = some given ∧ given ≠ "" ∧ codec.decode given = .ok text := by
  cases token with
  | none => exact .inl (.inl rfl)
  | some given =>
      by_cases empty : given = ""
      · exact .inl (.inr (.inl (congrArg some empty)))
      · cases decoded : codec.decode given with
        | error cause => exact .inl (.inr (.inr ⟨given, cause, rfl, decoded⟩))
        | ok text => exact .inr ⟨given, text, rfl, empty, decoded⟩

/-- The text of a token is opened whether or not there is a preset to fall back on. -/
theorem startup_of_decode {given text : String} (nonempty : given ≠ "")
    (decoded : codec.decode given = .ok text)
    : (startup catalog codec fallback (some given)).value
      = .ok (⟨text, .restored⟩, .restored) := by
  rw [startup_given nonempty, restore, decoded]
  rfl

/-- Without a token the preset is opened, if there is one; an empty token is as good as none. -/
theorem startup_of_absent (absent : token = none ∨ token = some "")
    : (startup catalog codec fallback token).value
      = (preset catalog fallback).map fun document => (document, .noToken) := by
  rcases absent with rfl | rfl <;> rfl

/-- Instead of a token that cannot be decoded the preset is opened, if there is one. -/
theorem startup_of_refusal {given : String} {cause : TokenError} (nonempty : given ≠ "")
    (refused : codec.decode given = .error cause)
    : (startup catalog codec fallback (some given)).value
      = (preset catalog fallback).map fun document => (document, .fellBack cause) := by
  rw [startup_given nonempty, restore, refused]
  rfl

theorem startup_of_textless (catalog : Catalog) (fallback : String)
    (textless : Textless codec token)
    : ∃ outcome, (startup catalog codec fallback token).value
        = (preset catalog fallback).map fun document => (document, outcome) := by
  rcases textless with rfl | rfl | ⟨given, cause, rfl, refused⟩
  · exact ⟨_, startup_of_absent (.inl rfl)⟩
  · exact ⟨_, startup_of_absent (.inr rfl)⟩
  · by_cases empty : given = ""
    · exact ⟨_, startup_of_absent (.inr (congrArg some empty))⟩
    · exact ⟨_, startup_of_refusal empty refused⟩

/-- A start fails exactly if no text comes with the token and the preset to fall back on is not
listed.
-/
theorem startup_error_iff {error : Error}
    : (startup catalog codec fallback token).value = .error error
      ↔ error = .unknownExample fallback ∧ fallback ∉ catalog.names ∧ Textless codec token := by
  constructor
  · intro failed
    rcases textless_or_decoded codec token with textless | ⟨given, text, rfl, nonempty, decoded⟩
    · obtain ⟨outcome, opened⟩ := startup_of_textless catalog fallback textless
      by_cases listed : fallback ∈ catalog.names
      · obtain ⟨document, loaded⟩ := preset_of_mem listed
        rw [opened, loaded] at failed
        cases failed
      · rw [opened, preset_of_not_mem listed] at failed
        exact ⟨(Except.error.inj failed).symm, listed, textless⟩
    · rw [startup_of_decode nonempty decoded] at failed
      cases failed
  · rintro ⟨rfl, unlisted, textless⟩
    obtain ⟨outcome, opened⟩ := startup_of_textless catalog fallback textless
    rw [opened, preset_of_not_mem unlisted]
    rfl

------------------------------------------------------------------------------------------
-- Actions
------------------------------------------------------------------------------------------

/-- The document after an action, and the error if it was refused, which changes nothing. -/
def apply (catalog : Catalog) (document : Document)
    : Action → Document × Except Error Unit
  | .edit text => (edited text, .ok ())
  | .select name =>
      match (select catalog name).value with
      | .ok selected => (selected, .ok ())
      | .error error => (document, .error error)

/-- The document after actions, of which some may be refused. -/
def after (catalog : Catalog) (document : Document) : List Action → Document
  | [] => document
  | action :: rest => (document.apply catalog action).1.after catalog rest

/-- Those of actions that are not refused. -/
def accepted (catalog : Catalog) (document : Document) : List Action → List Action
  | [] => []
  | action :: rest =>
      match document.apply catalog action with
      | (next, .ok ()) => action :: next.accepted catalog rest
      | (next, .error _) => next.accepted catalog rest

/-- All that an action can do: the document becomes that which is asked for, or stays as it is
because there is none.
-/
theorem apply_eq (document : Document) (action : Action)
    : document.apply catalog action
      = match action.document catalog with
        | .ok asked => (asked, .ok ())
        | .error error => (document, .error error) := by
  cases action with
  | edit text => rfl
  | select name =>
      simp only [apply, select, Action.document]
      cases preset catalog name <;> rfl

/-- Only the last action that was not refused counts, by induction over the actions. If all later
ones are refused the document stays as the first has left it, and else it no longer counts.
-/
theorem after_eq_last (catalog : Catalog) (document : Document) (actions : List Action)
    : match (document.accepted catalog actions).getLast? with
      | none => document.after catalog actions = document
      | some action => action.document catalog = .ok (document.after catalog actions) := by
  induction actions generalizing document with
  | nil => rfl
  | cons action rest hyp =>
      rw [after, accepted, apply_eq]
      cases asked : action.document catalog with
      | error error => exact hyp document
      | ok next =>
          have later := hyp next
          simp only [List.getLast?_cons]
          cases last : (next.accepted catalog rest).getLast? with
          | none =>
              rw [last] at later
              simp only [Option.getD_none]
              rw [later, asked]
          | some action =>
              rw [last] at later
              exact later

------------------------------------------------------------------------------------------
-- Provenance
------------------------------------------------------------------------------------------

/-- What a document tells of its text is true: a preset has the text of the listed preset of that
name, a restored text is that of the token, with no action accepted since, and any other is that of
an edit, which was the last action accepted.
-/
structure Truthful (catalog : Catalog) (codec : Codec) (token : Option String)
    (last : Option Action) (document : Document) : Prop where
  preset : ∀ name, document.provenance = .preset name →
    name ∈ catalog.names ∧ catalog.get name = .ok document.text
  restored : document.provenance = .restored →
    last = none ∧ ∃ given, token = some given ∧ given ≠ "" ∧ codec.decode given = .ok document.text
  custom : document.provenance = .custom → last = some (.edit document.text)

/-- A document with a preset tells the truth, whatever was accepted before. -/
theorem truthful_of_preset {name : String} {document : Document}
    (loaded : Document.preset catalog name = .ok document) (last : Option Action)
    : Truthful catalog codec token last document := by
  obtain ⟨listed, text, found, rfl⟩ := eq_of_preset loaded
  constructor
  · intro other same
    obtain rfl := Provenance.preset.inj same
    exact ⟨listed, found⟩
  · intro other
    cases other
  · intro other
    cases other

theorem truthful_of_decode {given text : String} (nonempty : given ≠ "")
    (decoded : codec.decode given = .ok text)
    : Truthful catalog codec (some given) none ⟨text, .restored⟩ := by
  constructor
  · intro name other
    cases other
  · intro _
    exact ⟨rfl, given, rfl, nonempty, decoded⟩
  · intro other
    cases other

/-- The document at start tells the truth. -/
theorem truthful_startup {document : Document} {outcome : RestoreOutcome}
    (opened : (startup catalog codec fallback token).value = .ok (document, outcome))
    : Truthful catalog codec token none document := by
  rcases textless_or_decoded codec token with textless | ⟨given, text, rfl, nonempty, decoded⟩
  · obtain ⟨_, same⟩ := startup_of_textless catalog fallback textless
    rw [same] at opened
    cases loaded : Document.preset catalog fallback with
    | error error =>
        rw [loaded] at opened
        cases opened
    | ok document' =>
        rw [loaded] at opened
        cases opened
        exact truthful_of_preset loaded none
  · rw [startup_of_decode nonempty decoded] at opened
    cases opened
    exact truthful_of_decode nonempty decoded

/-- A document that was asked for by the last action accepted tells the truth. -/
theorem truthful_of_document {action : Action} {document : Document}
    (asked : action.document catalog = .ok document)
    : Truthful catalog codec token (some action) document := by
  cases action with
  | edit text =>
      obtain rfl := Except.ok.inj asked
      constructor
      · intro name other
        cases other
      · intro other
        cases other
      · intro _
        rfl
  | select name => exact truthful_of_preset asked _

/-- From a start on, the document tells the truth after all actions. -/
theorem truthful_run {start : Document} {outcome : RestoreOutcome}
    (opened : (startup catalog codec fallback token).value = .ok (start, outcome))
    (actions : List Action)
    : Truthful catalog codec token (start.accepted catalog actions).getLast?
        (start.after catalog actions) := by
  have counts := after_eq_last catalog start actions
  cases last : (start.accepted catalog actions).getLast? with
  | none =>
      rw [last] at counts
      rw [counts]
      exact truthful_startup opened
  | some action =>
      rw [last] at counts
      exact truthful_of_document counts

/-- What a start opens, and what actions make of it. A token that decodes is restored even if the
preset to fall back on is not listed; with no text in the token that preset is opened if it is
listed, and else the start fails. From there on the document is that which the last accepted action
asks for, or that of the start if none was accepted, and its provenance is always true.
-/
theorem truthful_after (catalog : Catalog) (codec : Codec) (fallback : String)
    (token : Option String)
    : (∀ error, (startup catalog codec fallback token).value = .error error
        ↔ error = .unknownExample fallback ∧ fallback ∉ catalog.names
          ∧ (token = none ∨ token = some ""
            ∨ ∃ given cause, token = some given ∧ codec.decode given = .error cause))
      ∧ (∀ given text, token = some given → given ≠ "" → codec.decode given = .ok text →
        (startup catalog codec fallback token).value = .ok (⟨text, .restored⟩, .restored))
      ∧ (fallback ∈ catalog.names → ∃ text, catalog.get fallback = .ok text
        ∧ (token = none ∨ token = some "" →
          (startup catalog codec fallback token).value
            = .ok (⟨text, .preset fallback⟩, .noToken))
        ∧ (∀ given cause, token = some given → given ≠ "" → codec.decode given = .error cause →
          (startup catalog codec fallback token).value
            = .ok (⟨text, .preset fallback⟩, .fellBack cause)))
      ∧ ∀ start outcome, (startup catalog codec fallback token).value = .ok (start, outcome) →
        ∀ actions,
          let last := (start.accepted catalog actions).getLast?
          (last = none → start.after catalog actions = start)
          ∧ (∀ text, last = some (.edit text) → start.after catalog actions = ⟨text, .custom⟩)
          ∧ (∀ name, last = some (.select name) → ∃ text, catalog.get name = .ok text
            ∧ start.after catalog actions = ⟨text, .preset name⟩)
          ∧ Truthful catalog codec token last (start.after catalog actions) := by
  refine ⟨fun error => startup_error_iff, ?decoded, ?preset, ?actions⟩
  case decoded =>
    rintro given text rfl nonempty decoded
    exact startup_of_decode nonempty decoded
  case preset =>
    intro listed
    obtain ⟨text, found⟩ := Catalog.get_of_mem listed
    refine ⟨text, found, ?_, ?_⟩
    · intro absent
      rw [startup_of_absent absent, preset_of_get found]
      rfl
    · rintro given cause rfl nonempty refused
      rw [startup_of_refusal nonempty refused, preset_of_get found]
      rfl
  case actions =>
    intro start outcome opened actions last
    have counts : match last with
        | none => start.after catalog actions = start
        | some action => action.document catalog = .ok (start.after catalog actions) :=
      after_eq_last catalog start actions
    refine ⟨?_, ?_, ?_, truthful_run opened actions⟩
    · intro none
      rw [none] at counts
      exact counts
    · intro text edit
      rw [edit] at counts
      exact (Except.ok.inj counts).symm
    · intro name select
      rw [select] at counts
      exact (eq_of_preset counts).2

end Document

/-- An action of a session does to its document what it does to a document on its own. -/
theorem Session.document_apply {σ τ : Type} [Slot τ] (session : Session σ τ) (action : Action)
    : (session.apply action).value.1.document
      = (session.document.apply session.catalog action).1 := by
  rw [Document.apply_eq, apply_value]
  cases action.document session.catalog <;> rfl

/-- The document of a session is a document on its own, to which the same was done. -/
theorem Session.document_after {σ τ : Type} [Slot τ] (session : Session σ τ)
    (actions : List Action)
    : (session.after actions).document = session.document.after session.catalog actions := by
  induction actions generalizing session with
  | nil => rfl
  | cons action rest hyp => rw [after, hyp, apply_catalog, document_apply, Document.after]

/-- The document of a session tells the truth after a start and all actions. -/
theorem Session.truthful_document {σ τ : Type} [Slot τ] {engine : Engine σ} {state : σ} {slot : τ}
    {catalog : Catalog} {settings : Settings} {session : Session σ τ}
    (started : (start engine state slot catalog settings).value = .ok session)
    (actions : List Action)
    : Document.Truthful catalog settings.codec (Publisher.new settings.codec slot).readToken
        (session.document.accepted catalog actions).getLast?
        (session.after actions).document := by
  obtain ⟨name, document, restore, -, -, opened, rfl⟩ := follow_of_start started
  rw [document_after]
  exact Document.truthful_run opened actions

end Scratchpad
