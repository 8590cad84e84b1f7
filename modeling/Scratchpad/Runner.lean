import Scratchpad.Report
import Scratchpad.Traced

/-! Running a program through the stages of an engine, up to the first that fails. A runner can
keep the report on the latest text, and uses it again when the same text comes next.
-/

namespace Scratchpad

namespace Engine

variable {σ : Type}

/-- Calls the engine for a stage. A refusal is logged. -/
def runStage (engine : Engine σ) (stage : Stage) (source : String) (state : σ)
    : Traced (Answer × σ) :=
  match engine.call stage source state with
  | (.ok text, state) => return (.ok text, state)
  | (.error error, state) => do
    Traced.log (.stageFailed stage error)
    return (.error error, state)

/-- Calls the engine for one stage after another, each on the whole source, as long as none is
refused.
-/
def execute (engine : Engine σ) (source : String) (state : σ) : Traced (Report × σ) := do
  let (ast, state) ← engine.runStage .ast source state
  if !(Outcome.ofAnswer ast).isSuccess then
    return (⟨.ofAnswer ast, .notRun, .notRun⟩, state)
  let (types, state) ← engine.runStage .types source state
  if !(Outcome.ofAnswer types).isSuccess then
    return (⟨.ofAnswer ast, .ofAnswer types, .notRun⟩, state)
  let (output, state) ← engine.runStage .output source state
  return (⟨.ofAnswer ast, .ofAnswer types, .ofAnswer output⟩, state)

end Engine

/-- What a runner keeps: whether it is to keep reports, and the latest source with its report if it
has kept one.
-/
structure Memo where
  enabled : Bool
  latest : Option (String × Report)
deriving DecidableEq

namespace Memo

/-- A memo that keeps no reports and has none. -/
def off : Memo := ⟨false, none⟩

/-- A memo that keeps reports, with the one that it has kept. -/
def on (latest : Option (String × Report)) : Memo := ⟨true, latest⟩

/-- The report that is kept for a source. It is only looked for as long as reports are kept. -/
def find? (memo : Memo) (source : String) : Option Report :=
  match memo.enabled, memo.latest with
  | true, some (kept, report) => if kept = source then some report else none
  | _, _ => none

/-- Keeps a report, if one is to be kept at all. -/
def keep (memo : Memo) (source : String) (report : Report) : Memo :=
  if memo.enabled then { memo with latest := some (source, report) } else memo

/-- Keeps nothing for now. -/
def cleared (memo : Memo) : Memo :=
  { memo with latest := none }

/-- Says whether reports are to be kept from now on; one that is kept stays if they are. -/
def set (memo : Memo) (enabled : Bool) : Memo :=
  ⟨enabled, if enabled then memo.latest else none⟩

theorem find?_eq_some_iff {memo : Memo} {source : String} {report : Report}
    : memo.find? source = some report
      ↔ memo.enabled = true ∧ memo.latest = some (source, report) := by
  rcases memo with ⟨_ | _, _ | ⟨kept, found⟩⟩
  · simp [find?]
  · simp [find?]
  · simp [find?]
  · by_cases same : kept = source <;> simp [find?, same]

@[simp]
theorem enabled_keep (memo : Memo) (source : String) (report : Report)
    : (memo.keep source report).enabled = memo.enabled := by
  rw [keep]
  split <;> rfl

theorem latest_keep (memo : Memo) (source : String) (report : Report)
    : (memo.keep source report).latest
      = if memo.enabled then some (source, report) else memo.latest := by
  rw [keep]
  split <;> rfl

end Memo

/-- An engine in a state, with what is kept of its work. -/
structure Runner (σ : Type) where
  engine : Engine σ
  state : σ
  memo : Memo

namespace Runner

variable {σ : Type}

/-- A runner that keeps reports and has none yet. -/
def new (engine : Engine σ) (state : σ) : Runner σ :=
  ⟨engine, state, .on none⟩

/-- Says whether reports are to be kept. -/
def withMemo (enabled : Bool) (runner : Runner σ) : Runner σ :=
  { runner with memo := runner.memo.set enabled }

/-- Forgets the report that is kept. -/
def clear (runner : Runner σ) : Runner σ :=
  { runner with memo := runner.memo.cleared }

/-- Calls the engine directly, past all that is kept. -/
def call (stage : Stage) (source : String) (runner : Runner σ) : Answer × Runner σ :=
  let (answer, state) := runner.engine.call stage source runner.state
  (answer, { runner with state := state })

/-- The report on a source: the one that is kept for it, or a new one. -/
def run (source : String) (runner : Runner σ) : Traced (Report × Runner σ) :=
  match runner.memo.find? source with
  | some report => do
    Traced.log (.memoHit source.utf8ByteSize)
    return (report, runner)
  | none => do
    let (report, state) ← runner.engine.execute source runner.state
    Traced.log (.pipelineFinished source.utf8ByteSize report.cutPoint)
    return (report, { runner with state := state, memo := runner.memo.keep source report })

end Runner

end Scratchpad
