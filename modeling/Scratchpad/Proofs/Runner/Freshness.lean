import Scratchpad.Runner

/-! What a runner reports. An uncached run reports the answers of the engine up to the first that is
a refusal. If the answers do not depend on the state of the engine, a report that is kept is the one
that a new run would give, so it makes no difference that it was kept.
-/

namespace Scratchpad

/-- The report that answers make: the stages are taken in order, up to the first refusal. -/
def Report.ofAnswers (answer : Stage → Answer) : Report :=
  if (Outcome.ofAnswer (answer .ast)).isSuccess then
    if (Outcome.ofAnswer (answer .types)).isSuccess then
      ⟨.ofAnswer (answer .ast), .ofAnswer (answer .types), .ofAnswer (answer .output)⟩
    else
      ⟨.ofAnswer (answer .ast), .ofAnswer (answer .types), .notRun⟩
  else
    ⟨.ofAnswer (answer .ast), .notRun, .notRun⟩

namespace Engine

variable {σ : Type}

/-- An engine whose answers are functions of the stage and the source. -/
def Stateless (engine : Engine σ) : Prop :=
  ∀ stage source first second,
    (engine.call stage source first).1 = (engine.call stage source second).1

theorem runStage_value (engine : Engine σ) (stage : Stage) (source : String) (state : σ)
    : (engine.runStage stage source state).value = engine.call stage source state := by
  rw [runStage]
  rcases engine.call stage source state with ⟨answer, after⟩
  cases answer <;> rfl

/-- What an uncached run does: the stages are called in order, each with the state that the one
before has left, and none is called behind a refusal.
-/
theorem execute_value (engine : Engine σ) (source : String) (state : σ)
    : (engine.execute source state).value
      = match engine.call .ast source state with
        | (.error refusal, state) => (⟨.failure refusal.message, .notRun, .notRun⟩, state)
        | (.ok ast, state) =>
            match engine.call .types source state with
            | (.error refusal, state) =>
                (⟨.success ast, .failure refusal.message, .notRun⟩, state)
            | (.ok types, state) =>
                match engine.call .output source state with
                | (output, state) => (⟨.success ast, .success types, .ofAnswer output⟩, state) := by
  simp only [execute, Traced.value_bind, runStage_value]
  rcases engine.call .ast source state with ⟨refusal | ast, state⟩
  · rfl
  · simp only [Outcome.ofAnswer, Outcome.isSuccess, Bool.not_true, Bool.false_eq_true, if_false,
      Traced.value_bind, runStage_value]
    rcases engine.call .types source state with ⟨refusal | types, state⟩
    · rfl
    · simp only [Bool.not_true, Bool.false_eq_true, if_false, Traced.value_bind, runStage_value,
        Traced.value_pure]

/-- The answers to the three calls on a source, of which each is made in the state that the one
before has left.
-/
def answers (engine : Engine σ) (source : String) (state : σ) : Stage → Answer :=
  let first := engine.call .ast source state
  let second := engine.call .types source first.2
  let third := engine.call .output source second.2
  fun
    | .ast => first.1
    | .types => second.1
    | .output => third.1

/-- An uncached run reports the answers that it gets. -/
theorem execute_report (engine : Engine σ) (source : String) (state : σ)
    : (engine.execute source state).value.1 = .ofAnswers (engine.answers source state) := by
  rw [execute_value]
  simp only [answers]
  rcases engine.call .ast source state with ⟨refusal | ast, state⟩
  · rfl
  · simp only
    rcases engine.call .types source state with ⟨refusal | types, state⟩ <;> rfl

/-- A stateless engine reports on a source what it would answer in any one state. -/
theorem Stateless.execute_report {engine : Engine σ} (stateless : engine.Stateless)
    (source : String) (state reference : σ)
    : (engine.execute source state).value.1
      = Report.ofAnswers fun stage => (engine.call stage source reference).1 := by
  rw [Engine.execute_report]
  refine congrArg Report.ofAnswers (funext fun stage => ?_)
  cases stage <;> exact stateless _ source _ reference

/-- An uncached run of a stateless engine reports the same in all its states. -/
theorem Stateless.execute_eq {engine : Engine σ} (stateless : engine.Stateless)
    (source : String) (first second : σ)
    : (engine.execute source first).value.1 = (engine.execute source second).value.1 := by
  rw [stateless.execute_report source first second, stateless.execute_report source second second]

/-- A report is what an uncached run on the source gives, in every state of the engine. -/
def Reports (engine : Engine σ) (source : String) (report : Report) : Prop :=
  ∀ state, report = (engine.execute source state).value.1

end Engine

/-- After a report was to be kept, what is kept is that report or was kept before. -/
theorem Memo.eq_or_latest_of_keep {memo : Memo} {source other : String} {report kept : Report}
    (again : (memo.keep source report).latest = some (other, kept))
    : (source = other ∧ report = kept) ∨ memo.latest = some (other, kept) := by
  rw [latest_keep] at again
  split at again
  · exact .inl (Prod.mk.inj (Option.some.inj again))
  · exact .inr again

namespace Runner

variable {σ : Type}

/-- The report that is kept, if any, is the one that an uncached run gives. -/
def Fresh (runner : Runner σ) : Prop :=
  ∀ source report, runner.memo.latest = some (source, report) →
    runner.engine.Reports source report

/-- Nothing is kept at first, whether or not reports are to be kept. -/
theorem fresh_new (engine : Engine σ) (state : σ) (memoize : Bool)
    : ((new engine state).withMemo memoize).Fresh := by
  intro source report kept
  cases memoize <;> cases kept

/-- No run changes the engine. -/
theorem engine_run (runner : Runner σ) (source : String)
    : (runner.run source).value.2.engine = runner.engine := by
  rw [run]
  cases runner.memo.find? source <;> rfl

/-- A run reports what an uncached run would, over the same engine, and what it keeps is fresh:
either the fresh report was kept already, or it is kept now.
-/
theorem run_fresh {runner : Runner σ} (stateless : runner.engine.Stateless)
    (fresh : runner.Fresh) (source : String)
    : runner.engine.Reports source (runner.run source).value.1
      ∧ (runner.run source).value.2.engine = runner.engine
      ∧ (runner.run source).value.2.Fresh := by
  rw [run]
  cases found : runner.memo.find? source with
  | some report => exact ⟨fresh source report (Memo.find?_eq_some_iff.mp found).2, rfl, fresh⟩
  | none =>
      have reports
          : runner.engine.Reports source
              (runner.engine.execute source runner.state).value.1 :=
        stateless.execute_eq source runner.state
      refine ⟨reports, rfl, ?_⟩
      intro other report again
      rcases Memo.eq_or_latest_of_keep again with ⟨rfl, rfl⟩ | kept
      · exact reports
      · exact fresh other report kept

end Runner

end Scratchpad
