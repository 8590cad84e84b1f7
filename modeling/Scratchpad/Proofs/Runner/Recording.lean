import Scratchpad.Proofs.Runner.Freshness

/-! A record of the calls to an engine. Any engine can be given one, with the answer to each call.
It is never read, so an uncached run over the recorded engine does what one over the engine itself
does, and its calls are what it adds to the record.
-/

namespace Scratchpad

/-- A call to an engine with the answer to it. -/
structure EngineReply where
  call : EngineCall
  answer : Answer

namespace Engine

variable {σ : Type}

/-- The engine with a record of its calls, oldest first, beside its state. -/
def recorded (engine : Engine σ) : Engine (σ × List EngineReply) where
  call stage source state :=
    let (answer, after) := engine.call stage source state.1
    (answer, after, state.2 ++ [⟨⟨stage, source⟩, answer⟩])

/-- The number of stages in front of the first whose answer is a refusal. -/
def succeeded (answer : Stage → Answer) : Nat :=
  (Stage.all.takeWhile fun stage => (answer stage).isOk).length

/-- The calls of an uncached run whose answers are given, up to the first that is refused. -/
def replies (source : String) (answer : Stage → Answer) : List EngineReply :=
  (Stage.all.take (succeeded answer + 1)).map fun stage => ⟨⟨stage, source⟩, answer stage⟩

theorem recorded_call (engine : Engine σ) (stage : Stage) (source : String) (state : σ)
    (record : List EngineReply)
    : engine.recorded.call stage source (state, record)
      = ((engine.call stage source state).1, (engine.call stage source state).2,
          record ++ [⟨⟨stage, source⟩, (engine.call stage source state).1⟩]) :=
  rfl

/-- The record of an uncached run grows by its calls, and nothing else is changed by it. -/
theorem execute_recorded (engine : Engine σ) (source : String) (state : σ)
    (record : List EngineReply)
    : (engine.recorded.execute source (state, record)).value
      = ((engine.execute source state).value.1, (engine.execute source state).value.2,
          record ++ replies source (engine.answers source state)) := by
  rw [execute_value, execute_value]
  -- The cases are the places of the first refusal; behind it nothing is called or recorded.
  cases first : engine.call .ast source state with
  | mk answer middle =>
    simp only [recorded_call, replies, succeeded, answers, first]
    cases answer with
    | error refusal => rfl
    | ok ast =>
        simp only [recorded_call]
        cases second : engine.call .types source middle with
        | mk answer after =>
          cases answer with
          | error refusal =>
              simp only [List.append_assoc]
              rfl
          | ok types =>
              simp only [recorded_call, List.append_assoc]
              cases (engine.call .output source after).1 <;> rfl

end Engine

end Scratchpad
