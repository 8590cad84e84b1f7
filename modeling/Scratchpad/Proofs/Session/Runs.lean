import Scratchpad.Proofs.Session.Starts

/-! Runs of a session. An action either is refused and changes nothing, or the session follows the
document that it asks for; what following preserves holds after every run.
-/

namespace Scratchpad

/-- The document that an action asks for. -/
def Action.document (catalog : Catalog) : Action → Except Error Document
  | .edit text => .ok (.edited text)
  | .select name => Document.preset catalog name

namespace Session

variable {σ τ : Type} [Slot τ]

/-- A selection follows the preset of the name, if there is one. -/
theorem select_value (name : String) (session : Session σ τ)
    : (session.select name).value
      = (Document.preset session.catalog name).map fun document =>
          (session.follow document).value := by
  simp only [select, Document.select]
  cases Document.preset session.catalog name <;> rfl

/-- All that an action can do: the session follows the document that is asked for, or stays as it
is because there is none.
-/
theorem apply_value (action : Action) (session : Session σ τ)
    : (session.apply action).value
      = match action.document session.catalog with
        | .ok document =>
            ((session.follow document).value, .ok (session.follow document).value.report)
        | .error error => (session, .error error) := by
  cases action with
  | edit text => rfl
  | select name =>
      simp only [apply, Traced.value_bind, select_value, Action.document]
      cases Document.preset session.catalog name <;> rfl

/-- An action that asks for a document is followed. -/
theorem apply_of_document {action : Action} {session : Session σ τ} {document : Document}
    (asked : action.document session.catalog = .ok document)
    : (session.apply action).value
      = ((session.follow document).value, .ok (session.follow document).value.report) := by
  rw [apply_value, asked]

/-- An action for which there is no document is refused. -/
theorem apply_of_error {action : Action} {session : Session σ τ} {error : Error}
    (asked : action.document session.catalog = .error error)
    : (session.apply action).value = (session, .error error) := by
  rw [apply_value, asked]

/-- The session after actions, of which some may be refused. -/
def after (session : Session σ τ) : List Action → Session σ τ
  | [] => session
  | action :: rest => (session.apply action).value.1.after rest

/-- The texts that actions bring, in order; a refused action brings none. -/
def texts (session : Session σ τ) : List Action → List String
  | [] => []
  | action :: rest =>
      match (session.apply action).value with
      | (next, .ok _) => next.document.text :: next.texts rest
      | (next, .error _) => next.texts rest

/-- No action changes the catalog. -/
theorem apply_catalog (action : Action) (session : Session σ τ)
    : (session.apply action).value.1.catalog = session.catalog := by
  rw [apply_value]
  cases action.document session.catalog <;> rfl

/-- What an action leaves: the answer to it, the events on the way, and the session after it. -/
structure Step (σ τ : Type) where
  action : Action
  answer : Except Error Report
  events : List Event
  session : Session σ τ

/-- What actions leave, one after another. -/
def steps (session : Session σ τ) : List Action → List (Step σ τ)
  | [] => []
  | action :: rest =>
      let applied := session.apply action
      ⟨action, applied.value.2, applied.events, applied.value.1⟩ :: applied.value.1.steps rest

/-- No actions change the catalog. -/
theorem after_catalog (session : Session σ τ) (actions : List Action)
    : (session.after actions).catalog = session.catalog := by
  induction actions generalizing session with
  | nil => rfl
  | cons action rest ih => rw [after, ih, apply_catalog]

/-- What holds of a session that follows any document holds after all actions, by induction over
them.
-/
theorem after_of_follow {holds : Session σ τ → Prop}
    (follows : ∀ session document, holds session → holds (session.follow document).value)
    {session : Session σ τ} (initial : holds session) (actions : List Action)
    : holds (session.after actions) := by
  induction actions generalizing session with
  | nil => exact initial
  | cons action rest ih =>
      apply ih
      rw [apply_value]
      cases action.document session.catalog with
      | ok document => exact follows session document initial
      | error error => exact initial

/-- What holds of a session that follows its first document, and of one that follows any document,
holds after a start and all actions.
-/
theorem after_of_start {holds : Session σ τ → Prop} {engine : Engine σ} {state : σ} {slot : τ}
    {catalog : Catalog} {settings : Settings} {session : Session σ τ}
    (started : (start engine state slot catalog settings).value = .ok session)
    (opens : ∀ document restore,
      holds ((unopened engine state slot catalog settings document restore).follow document).value)
    (follows : ∀ session document, holds session → holds (session.follow document).value)
    (actions : List Action)
    : holds (session.after actions) := by
  obtain ⟨name, document, restore, -, -, -, rfl⟩ := follow_of_start started
  exact after_of_follow follows (opens document restore) actions

end Session

end Scratchpad
