import Scratchpad.Engine
import Scratchpad.Text.Quoted

/-! An engine that follows a script. Every source succeeds at every stage, unless a failure is
written in the script for it; what succeeds is answered with the stage and the quoted source.
-/

namespace Scratchpad

/-- A failure that is to happen for a source at a stage. -/
structure ScriptedFailure where
  stage : Stage
  source : String
  message : String
deriving DecidableEq

/-- Failures in the order in which they were written. -/
structure Script where
  failures : List ScriptedFailure

namespace Script

/-- A script without failures. -/
def empty : Script := ⟨[]⟩

/-- Adds a failure, which takes the place of one for the same source and stage. -/
def fail (script : Script) (stage : Stage) (source message : String) : Script :=
  ⟨script.failures ++ [⟨stage, source, message⟩]⟩

/-- The message of the latest failure for a source at a stage. -/
def failure? (script : Script) (stage : Stage) (source : String) : Option String :=
  (script.failures.reverse.find? fun failure =>
    failure.stage = stage && failure.source == source).map ScriptedFailure.message

/-- The answer to a source that succeeds. -/
def success (stage : Stage) (source : String) : String :=
  stage.name ++ "(" ++ Text.quote source ++ ")"

/-- The answer to a source. -/
def answer (script : Script) (stage : Stage) (source : String) : Answer :=
  match script.failure? stage source with
  | some message => .error (.ofStage stage message)
  | none => .ok (success stage source)

/-- The engine that follows the script, and logs its calls. -/
def engine (script : Script) : Engine (Array EngineCall) :=
  .logging script.answer

end Script

/-- How many of the calls are for a stage. -/
def EngineCall.count (calls : Array EngineCall) (stage : Stage) : Nat :=
  calls.countP (·.stage = stage)

end Scratchpad
