import Scratchpad.Proofs.Runner.Freshness

/-! Which calls a runner makes. A run makes the calls of an uncached run on its source, unless
reports are kept and the run before was on the same source; then it makes none.
-/

namespace Scratchpad

------------------------------------------------------------------------------------------
-- The calls of one run
------------------------------------------------------------------------------------------

namespace Engine

/-- The calls of an uncached run on a source: one for each stage up to the first that is refused. -/
def callsOn (answer : Stage → String → Answer) (source : String) : List EngineCall :=
  let report := Report.ofAnswers fun stage => answer stage source
  (Stage.all.take (report.cutPoint + 1)).map fun stage => ⟨stage, source⟩

theorem stateless_logging (answer : Stage → String → Answer)
    : (logging answer).Stateless :=
  fun _ _ _ _ => rfl

/-- An uncached run logs its calls behind those that are logged already. -/
theorem execute_logging (answer : Stage → String → Answer) (source : String)
    (calls : Array EngineCall)
    : ((logging answer).execute source calls).value.2.toList
      = calls.toList ++ callsOn answer source := by
  rw [execute_value]
  simp only [logging, callsOn, Report.ofAnswers]
  cases answer .ast source with
  | error refusal =>
      rw [Array.toList_push]
      rfl
  | ok ast =>
      cases answer .types source with
      | error refusal =>
          rw [Array.toList_push, Array.toList_push, List.append_assoc]
          rfl
      | ok types =>
          rw [Array.toList_push, Array.toList_push, Array.toList_push, List.append_assoc,
            List.append_assoc]
          cases answer .output source <;> rfl

end Engine

------------------------------------------------------------------------------------------
-- What is kept from run to run
------------------------------------------------------------------------------------------

/-- What a runner keeps if it is to keep reports and the latest run gave one. -/
def Memo.ofLatest (memoize : Bool) (latest : Option (String × Report)) : Memo :=
  if memoize then .on latest else .off

theorem Memo.keep_ofLatest (memoize : Bool) (latest : Option (String × Report)) (source : String)
    (report : Report)
    : (ofLatest memoize latest).keep source report = ofLatest memoize (some (source, report)) := by
  cases memoize <;> rfl

/-- A report is found exactly if reports are kept and the latest run was on the source. -/
theorem Memo.find?_ofLatest (memoize : Bool) (latest : Option (String × Report)) (source : String)
    (report : Report)
    : (ofLatest memoize latest).find? source = some report
      ↔ memoize = true ∧ latest = some (source, report) := by
  rw [find?_eq_some_iff]
  cases memoize <;> simp [ofLatest, on, off]

namespace Runner

variable {σ : Type} {runner : Runner σ} {memoize : Bool} {latest : Option (String × Report)}

theorem memo_new (engine : Engine σ) (state : σ) (memoize : Bool)
    : ((new engine state).withMemo memoize).memo = .ofLatest memoize none := by
  cases memoize <;> rfl

/-- What a run does: if reports are kept and the run before was on the same source, it gives the
report of that run and leaves the engine alone, and else it is an uncached run, whose report is kept
from then on.
-/
theorem run_value (memo : runner.memo = .ofLatest memoize latest) (source : String)
    : (∃ report,
        memoize = true ∧ latest = some (source, report)
        ∧ (runner.run source).value = (report, runner))
      ∨ ¬ (memoize = true ∧ latest.map Prod.fst = some source)
        ∧ (runner.run source).value
          = let executed := (runner.engine.execute source runner.state).value
            (executed.1,
              { runner with
                state := executed.2
                memo := .ofLatest memoize (some (source, executed.1)) }) := by
  rw [run]
  cases found : runner.memo.find? source with
  | some report =>
      rw [memo, Memo.find?_ofLatest] at found
      exact .inl ⟨report, found.1, found.2, rfl⟩
  | none =>
      refine .inr ⟨?_, ?_⟩
      · rintro ⟨kept, same⟩
        obtain ⟨⟨_, report⟩, rfl, rfl⟩ := Option.map_eq_some_iff.mp same
        rw [memo, (Memo.find?_ofLatest _ _ _ _).mpr ⟨kept, rfl⟩] at found
        cases found
      · simp only [memo, Memo.keep_ofLatest]
        rfl

/-- The report of the latest run is kept, if any is. -/
theorem memo_run (memo : runner.memo = .ofLatest memoize latest) (source : String)
    : (runner.run source).value.2.memo
      = .ofLatest memoize (some (source, (runner.run source).value.1)) := by
  rcases run_value memo source with ⟨report, -, rfl, ran⟩ | ⟨-, ran⟩
  · rw [ran, memo]
  · rw [ran]

end Runner

------------------------------------------------------------------------------------------
-- The calls of many runs
------------------------------------------------------------------------------------------

/-- Texts without those that repeat the one right before them, where `latest` stands before the
first.
-/
def withoutRepeats (latest : Option String) : List String → List String
  | [] => []
  | text :: rest =>
      let later := withoutRepeats (some text) rest
      if latest = some text then later else text :: later

/-- The sources on which a runner calls its engine, of those that it runs one after another. -/
def Runner.executed (memoize : Bool) (latest : Option String) (sources : List String)
    : List String :=
  if memoize then withoutRepeats latest sources else sources

namespace Runner

variable {answer : Stage → String → Answer} {runner : Runner (Array EngineCall)} {memoize : Bool}
  {latest : Option (String × Report)}

/-- What a run logs and what runs on further sources log is what runs on all the sources log. -/
theorem calls_run (engine : runner.engine = .logging answer)
    (memo : runner.memo = .ofLatest memoize latest) (source : String) (rest : List String)
    : (runner.run source).value.2.state.toList
        ++ (executed memoize (some source) rest).flatMap (Engine.callsOn answer)
      = runner.state.toList
        ++ (executed memoize (latest.map Prod.fst) (source :: rest)).flatMap
          (Engine.callsOn answer) := by
  rcases run_value memo source with ⟨report, rfl, rfl, ran⟩ | ⟨again, ran⟩
  · rw [ran, executed, executed, withoutRepeats]
    simp
  · rw [ran, engine, Engine.execute_logging, List.append_assoc, ← List.flatMap_cons]
    cases memoize with
    | false => rfl
    | true =>
        have other : latest.map Prod.fst ≠ some source := fun same => again ⟨rfl, same⟩
        rw [executed, executed, withoutRepeats, if_neg other]
        rfl

end Runner

end Scratchpad
