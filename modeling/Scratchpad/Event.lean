import Scratchpad.Engine
import Scratchpad.Provenance
import Scratchpad.Share.TokenError

/-! What a session reports about its own doings. -/

namespace Scratchpad

/-- How much an event matters. -/
inductive Level where
  | debug
  | info
  | warn
deriving DecidableEq

/-- The name of a level. -/
def Level.name : Level → String
  | debug => "DEBUG"
  | info => "INFO"
  | warn => "WARN"

/-- Something that has happened. -/
inductive Event where
  /-- The token at start had a text of so many bytes. -/
  | restored (bytes : Nat)
  /-- The token at start had none. -/
  | malformedToken (error : TokenError) (fallback : String)
  /-- A preset was to be selected that there is not. -/
  | unknownPreset (name : String)
  /-- A preset was selected. -/
  | selectedPreset (name : String)
  /-- The kept report was used again. -/
  | memoHit (bytes : Nat)
  /-- The engine refused a stage. -/
  | stageFailed (stage : Stage) (error : EngineError)
  /-- The stages were run on a text of so many bytes. -/
  | pipelineFinished (bytes cutPoint : Nat)
  /-- A token of so many bytes was published. -/
  | publishing (bytes : Nat)
  /-- A text had too many bytes for a token. -/
  | tooLargeToShare (error : TokenError) (bytes : Nat)
  /-- A session was started. -/
  | started (provenance : Provenance)
deriving DecidableEq

/-- The value of a field of an event: a number, a text that stands as it is, or a name, which is
quoted where it stands in a line.
-/
inductive FieldValue where
  | number (value : Nat)
  | text (value : String)
  | name (value : String)

/-- A field of an event in a line. -/
def FieldValue.display : FieldValue → String
  | number value => toString value
  | text value => value
  | name value => Text.quote value

namespace Event

/-- How much an event matters. -/
def level : Event → Level
  | restored _ | selectedPreset _ | started _ => .info
  | malformedToken _ _ | unknownPreset _ | tooLargeToShare _ _ => .warn
  | memoHit _ | stageFailed _ _ | pipelineFinished _ _ | publishing _ => .debug

/-- What an event says. -/
def message : Event → String
  | restored _ => "restored document from share token"
  | malformedToken _ _ => "malformed share token"
  | unknownPreset _ => "unknown preset"
  | selectedPreset _ => "selected preset"
  | memoHit _ => "pipeline memo hit"
  | stageFailed _ _ => "stage failed"
  | pipelineFinished _ _ => "pipeline finished"
  | publishing _ => "publishing share token"
  | tooLargeToShare _ _ => "document too large to share"
  | started _ => "playground started"

/-- What an event tells besides, in order. -/
def fields : Event → List (String × FieldValue)
  | restored bytes => [("len", .number bytes)]
  | malformedToken error fallback => [("error", .text error.message), ("fallback", .name fallback)]
  | unknownPreset name => [("preset", .name name)]
  | selectedPreset name => [("preset", .name name)]
  | memoHit bytes => [("len", .number bytes)]
  | stageFailed stage error => [("stage", .text stage.label), ("error", .text error.display)]
  | pipelineFinished bytes cutPoint => [("len", .number bytes), ("cut_point", .number cutPoint)]
  | publishing bytes => [("len", .number bytes)]
  | tooLargeToShare error bytes => [("error", .text error.message), ("len", .number bytes)]
  | started provenance => [("provenance", .text provenance.display)]

/-- The line that an event makes: its level, what it says, and its fields. -/
def line (event : Event) : String :=
  let fields := event.fields.map fun (name, value) => " " ++ name ++ "=" ++ value.display
  " " ++ event.level.name ++ " " ++ event.message ++ String.join fields

end Event

end Scratchpad
