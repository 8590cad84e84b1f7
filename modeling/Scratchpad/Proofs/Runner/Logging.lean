import Scratchpad.Proofs.Runner.Discipline

/-! What a runner leaves in a log. A run that finds a report leaves one line; an uncached run leaves
one at its end, and before it one for the stage that was refused, if any was.
-/

namespace Scratchpad

/-- How an event stands in a log: how much it matters, what it says, and what it tells besides. -/
structure LogLine where
  level : Level
  message : String
  fields : List (String × FieldValue)

namespace Engine

variable {σ : Type}

end Engine

------------------------------------------------------------------------------------------
-- Runs
------------------------------------------------------------------------------------------

/-- The line at the end of an uncached run. -/
def LogLine.finished (source : String) (report : Report) : LogLine :=
  ⟨.debug, "pipeline finished",
    [("len", .number source.utf8ByteSize), ("cut_point", .number report.cutPoint)]⟩

namespace Runner

variable {σ : Type} {engine : Engine σ} {runner : Runner (σ × List EngineReply)}

end Runner

end Scratchpad
