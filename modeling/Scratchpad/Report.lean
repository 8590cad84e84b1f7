import Scratchpad.Engine
import Scratchpad.Json.Value

/-! What has become of a program at each stage. A report can hold any three outcomes; those that a
run gives have successes up to a cut point, a failure there, and nothing behind it.
-/

namespace Scratchpad

/-- What has become of a program at one stage. -/
inductive Outcome where
  | success (text : String)
  | failure (message : String)
  | notRun
deriving DecidableEq

namespace Outcome

/-- Whether the stage succeeded. -/
def isSuccess : Outcome → Bool
  | success _ => true
  | _ => false

/-- Whether the stage failed. -/
def isFailure : Outcome → Bool
  | failure _ => true
  | _ => false

/-- Whether the stage was not reached. -/
def isNotRun : Outcome → Bool
  | notRun => true
  | _ => false

/-- What is shown for the stage; nothing if it was not reached. -/
def display : Outcome → String
  | success text => text
  | failure message => message
  | notRun => ""

/-- The outcome that an answer of an engine makes. -/
def ofAnswer : Answer → Outcome
  | .ok text => success text
  | .error error => failure error.message

/-- The outcome as a JSON value. -/
def toJson : Outcome → Json
  | success text => .object [("status", .string "success"), ("text", .string text)]
  | failure message => .object [("status", .string "failure"), ("text", .string message)]
  | notRun => .object [("status", .string "not_run")]

end Outcome

/-- The outcomes of the three stages. -/
structure Report where
  ast : Outcome
  types : Outcome
  output : Outcome
deriving DecidableEq

namespace Report

/-- The outcome of a stage. -/
def get (report : Report) : Stage → Outcome
  | .ast => report.ast
  | .types => report.types
  | .output => report.output

/-- The outcomes in the order of the stages. -/
def outcomes (report : Report) : List Outcome :=
  Stage.all.map report.get

/-- The number of stages that succeeded before the first that did not. -/
def cutPoint (report : Report) : Nat :=
  (report.outcomes.takeWhile Outcome.isSuccess).length

/-- The first stage that failed, with its message. -/
def firstFailure? (report : Report) : Option (Stage × String) :=
  Stage.all.findSome? fun stage =>
    match report.get stage with
    | .failure message => some (stage, message)
    | _ => none

/-- Whether all stages succeeded. -/
def isComplete (report : Report) : Bool :=
  report.cutPoint = Stage.all.length

/-- Whether the stage at the cut point failed, if there is one, and none behind it was reached. -/
def isWellFormed (report : Report) : Bool :=
  match report.outcomes.drop report.cutPoint with
  | [] => true
  | first :: rest => first.isFailure && rest.all Outcome.isNotRun

/-- The report as a JSON value. -/
def toJson (report : Report) : Json :=
  .object (Stage.all.map fun stage => (stage.name, (report.get stage).toJson))

end Report

end Scratchpad
