import Scratchpad.Proofs.Runner.Logging
import Scratchpad.Proofs.Session.Admission
import Scratchpad.Proofs.Session.Coherence
import Scratchpad.Proofs.Session.Refusals

/-! The log of a session, line by line. A start tells of the token in the slot, of the document that
it has chosen, of the first run and of the first publication; every action after it tells of what
was selected, of a run and of a publication, or of nothing but its refusal. Each line belongs to
calls of the engine, to the report or to a write to the slot, and none is left out or comes twice.
-/

namespace Scratchpad

------------------------------------------------------------------------------------------
-- Publications
------------------------------------------------------------------------------------------

namespace Session

variable {σ τ : Type} [Slot τ]

------------------------------------------------------------------------------------------
-- Reactions
------------------------------------------------------------------------------------------

/-- A session over an engine with a record, that publishes by a codec. -/
structure Observed (engine : Engine σ) (codec : Codec)
    (session : Session (σ × List EngineReply) τ)
    : Prop where
  engine : session.runner.engine = engine.recorded
  codec : session.publisher.codec = codec

section

variable {engine : Engine σ} {codec : Codec} {session : Session (σ × List EngineReply) τ}

theorem Observed.follow (observed : Observed engine codec session) (document : Document)
    : Observed engine codec (session.follow document).value where
  engine := (session.runner.engine_run document.text).trans observed.engine
  codec := (congrArg Publisher.codec (session.follow_publisher document)).trans observed.codec

end

------------------------------------------------------------------------------------------
-- Actions
------------------------------------------------------------------------------------------

section

variable {engine : Engine σ} {codec : Codec} {session : Session (σ × List EngineReply) τ}

theorem Observed.apply (observed : Observed engine codec session) (action : Action)
    : Observed engine codec (session.apply action).value.1 := by
  rw [apply_value]
  cases action.document session.catalog with
  | ok document => exact observed.follow document
  | error error => exact observed

end

------------------------------------------------------------------------------------------
-- Starts
------------------------------------------------------------------------------------------

/-- The session with a record of the calls of its engine. -/
def recording (session : Session σ τ) (record : List EngineReply)
    : Session (σ × List EngineReply) τ where
  catalog := session.catalog
  document := session.document
  runner := session.runner.recording record
  publisher := session.publisher
  report := session.report
  restore := session.restore

end Session

end Scratchpad
