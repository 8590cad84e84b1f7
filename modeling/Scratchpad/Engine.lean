import Scratchpad.Stage

/-! Engines: what reads, types and runs a program. An engine may remember its calls or anything
else in a state of its own; each of its answers is a text or an error.
-/

namespace Scratchpad

/-- Why an engine refuses a program. -/
inductive EngineError where
  | parse (message : String)
  | type (message : String)
  | runtime (message : String)
deriving DecidableEq

namespace EngineError

/-- What the engine said. -/
def message : EngineError → String
  | parse message => message
  | type message => message
  | runtime message => message

/-- What the engine said, behind the kind of the error. -/
def display : EngineError → String
  | parse message => "parse error: " ++ message
  | type message => "type error: " ++ message
  | runtime message => "runtime error: " ++ message

/-- The stage that a kind of error belongs to. -/
def stage : EngineError → Stage
  | parse _ => .ast
  | type _ => .types
  | runtime _ => .output

/-- The kind of error that belongs to a stage. -/
def ofStage : Stage → String → EngineError
  | .ast => parse
  | .types => type
  | .output => runtime

end EngineError

/-- What an engine answers to one call. -/
abbrev Answer := Except EngineError String

/-- An engine with states `σ`: a call for a stage on a source gives an answer and a new state. -/
structure Engine (σ : Type) where
  call : Stage → String → σ → Answer × σ

/-- A call to an engine. -/
structure EngineCall where
  stage : Stage
  source : String
deriving DecidableEq

namespace Engine

/-- The engine whose answers are a function of the stage and the source. -/
def ofFunction (answer : Stage → String → Answer) : Engine Unit where
  call stage source _ := (answer stage source, ())

/-- An engine that logs its calls, oldest first, and answers by a function of the stage and the
source.
-/
def logging (answer : Stage → String → Answer) : Engine (Array EngineCall) where
  call stage source calls := (answer stage source, calls.push ⟨stage, source⟩)

end Engine

end Scratchpad
