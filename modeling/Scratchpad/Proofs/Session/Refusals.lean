import Scratchpad.Proofs.Session.Runs

/-! Refused selections. A selection is refused exactly if no preset has the name, and then nothing
but a warning is left of it: what a session does with all other actions is the same without it.
-/

namespace Scratchpad

/-- Whether what an action asks for is there: any edit is, and a preset if it is listed. -/
def Action.available (catalog : Catalog) : Action → Bool
  | .edit _ => true
  | .select name => decide (name ∈ catalog.names)

namespace Session

variable {σ τ : Type} [Slot τ]

/-- A name that is not listed is refused: the session stays as it is, and one event tells of it. -/
theorem apply_unlisted (session : Session σ τ) {name : String}
    (unlisted : name ∉ session.catalog.names)
    : session.apply (.select name)
      = ⟨(session, .error (.unknownExample name)), [.unknownPreset name]⟩ := by
  rw [apply, select, Document.select, Document.preset_of_not_mem unlisted]
  rfl

/-- What is not there was asked for by a name that is not listed, and is refused. -/
theorem apply_unavailable (session : Session σ τ) {action : Action}
    (missing : action.available session.catalog = false)
    : (session.apply action).value.1 = session := by
  cases action with
  | edit text => cases missing
  | select name => rw [session.apply_unlisted (of_decide_eq_false missing)]

/-- An action is answered with a report exactly if what it asks for is there. -/
theorem isOk_apply (session : Session σ τ) (action : Action)
    : (session.apply action).value.2.isOk = action.available session.catalog := by
  cases action with
  | edit text => rfl
  | select name =>
      by_cases listed : name ∈ session.catalog.names
      · obtain ⟨document, loaded⟩ := Document.preset_of_mem listed
        rw [apply_value, Action.document, loaded, Action.available, decide_eq_true listed]
        rfl
      · rw [session.apply_unlisted listed, Action.available, decide_eq_false listed]
        rfl

/-- Of the steps of a run those are refused whose actions ask for what is not there. -/
theorem isOk_of_mem_steps {session : Session σ τ} {actions : List Action} {step : Step σ τ}
    (taken : step ∈ session.steps actions)
    : step.answer.isOk = step.action.available session.catalog := by
  induction actions generalizing session with
  | nil => cases taken
  | cons action rest ih =>
      rw [steps] at taken
      rcases List.mem_cons.mp taken with rfl | later
      · exact session.isOk_apply action
      · rw [ih later, apply_catalog]

/-- The state after actions is the state after those of them that are not refused, by induction over
the actions: a refused one leaves the session for the next as it was.
-/
theorem after_available (session : Session σ τ) (actions : List Action)
    : session.after (actions.filter (·.available session.catalog)) = session.after actions := by
  induction actions generalizing session with
  | nil => rfl
  | cons action rest ih =>
      have later := ih (session.apply action).value.1
      rw [apply_catalog] at later
      cases there : action.available session.catalog with
      | true => simp only [List.filter_cons, there, if_true, after, later]
      | false =>
          rw [session.apply_unavailable there] at later
          simp only [List.filter_cons, there, Bool.false_eq_true, if_false, after, later,
            session.apply_unavailable there]

/-- The steps of the actions that are not refused are those that they take alone, by the same
induction.
-/
theorem steps_available (session : Session σ τ) (actions : List Action)
    : (session.steps actions).filter (·.action.available session.catalog)
      = session.steps (actions.filter (·.available session.catalog)) := by
  induction actions generalizing session with
  | nil => rfl
  | cons action rest ih =>
      have later := ih (session.apply action).value.1
      rw [apply_catalog] at later
      cases there : action.available session.catalog with
      | true => simp only [List.filter_cons, steps, there, if_true, later]
      | false =>
          rw [session.apply_unavailable there] at later
          simp only [List.filter_cons, steps, there, Bool.false_eq_true, if_false,
            session.apply_unavailable there, later]

/-- Nothing but a warning is left of a refused selection. In whatever state actions have led to, a
name that is not listed is refused, and the session stays as it is: its document, report and token,
the slot with all that was written to it, what the runner keeps, and the engine with all that it
remembers, a log of its calls included. So the answers, the events and the sessions of all other
actions are those of a run in which nothing was refused.
-/
theorem refused_without_trace (session : Session σ τ) (actions : List Action)
    : (∀ name, name ∉ session.catalog.names
        → (session.after actions).apply (.select name)
          = ⟨(session.after actions, .error (.unknownExample name)), [.unknownPreset name]⟩)
      ∧ (∀ name, (Event.unknownPreset name).level = .warn
        ∧ (Event.unknownPreset name).message = "unknown preset")
      ∧ (∀ step ∈ session.steps actions,
        step.answer.isOk = step.action.available session.catalog)
      ∧ (session.steps actions).filter (·.action.available session.catalog)
        = session.steps (actions.filter (·.available session.catalog))
      ∧ session.after (actions.filter (·.available session.catalog)) = session.after actions := by
  refine ⟨fun name unlisted => ?_, fun name => ⟨rfl, rfl⟩, fun step => isOk_of_mem_steps,
    session.steps_available actions, session.after_available actions⟩
  apply apply_unlisted
  rw [after_catalog]
  exact unlisted

end Session

end Scratchpad
