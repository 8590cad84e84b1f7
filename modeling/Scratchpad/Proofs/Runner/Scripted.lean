import Scratchpad.Engine.Scripted
import Scratchpad.Proofs.Runner.Calls
import Scratchpad.Proofs.Runner.Discipline
import Scratchpad.Proofs.Text.Quoted

/-! What the answers of a scripted engine say. A source that succeeds is quoted in the answer behind
the name of the stage, so answers tell stages and sources apart, and reports tell sources apart as
soon as a stage has succeeded. Failures depend on the last one that was written for the very stage
and source, and nothing depends on what happened before.
-/

namespace Scratchpad

------------------------------------------------------------------------------------------
-- Answers
------------------------------------------------------------------------------------------

/-- The names of stages are told apart by their first letters. -/
def Stage.initial : Stage → Char
  | ast => 'a'
  | types => 't'
  | output => 'o'

theorem Stage.head?_name (stage : Stage)
    : stage.name.toList.head? = some stage.initial := by
  cases stage <;> rfl

theorem Stage.initial_injective
    : Function.Injective initial := by
  intro first second same
  cases first <;> cases second <;> first | rfl | cases same

namespace Script

theorem head?_success (stage : Stage) (source : String)
    : (success stage source).toList.head? = some stage.initial := by
  rw [success, String.append_assoc, String.append_assoc, String.toList_append, List.head?_append,
    Stage.head?_name]
  rfl

/-- What succeeds is answered alike only for the same stage and the same source. -/
theorem success_inj {first second : Stage} {source other : String}
    (same : success first source = success second other)
    : first = second ∧ source = other := by
  have initials := congrArg (·.toList.head?) same
  simp only [head?_success, Option.some.injEq] at initials
  obtain rfl := Stage.initial_injective initials
  have quoted : Text.quote source = Text.quote other :=
    (String.append_right_inj _).mp ((String.append_left_inj _).mp same)
  exact ⟨rfl, Text.quote_injective quoted⟩

/-- An answer with a text is the one to a source that succeeds. -/
theorem eq_success_of_answer {script : Script} {stage : Stage} {source text : String}
    (answered : script.answer stage source = .ok text)
    : text = success stage source := by
  rw [answer] at answered
  split at answered
  · cases answered
  · exact (Except.ok.inj answered).symm

------------------------------------------------------------------------------------------
-- Chains of failures
------------------------------------------------------------------------------------------

/-- The script in which failures are written one after another. -/
def ofChain (chain : List ScriptedFailure) : Script :=
  chain.foldl (fun script failure => script.fail failure.stage failure.source failure.message) empty

/-- The message of the last failure in a chain that is for a stage and a source. -/
def lastMessage? (chain : List ScriptedFailure) (stage : Stage) (source : String)
    : Option String :=
  let those := chain.filter fun failure => failure.stage = stage && failure.source = source
  those.getLast?.map ScriptedFailure.message

/-- Failures that are written behind a script stand behind those of the script, by induction over
the chain of them.
-/
theorem failures_foldl_fail (script : Script) (chain : List ScriptedFailure)
    : (chain.foldl
        (fun script failure => script.fail failure.stage failure.source failure.message)
        script).failures
      = script.failures ++ chain := by
  induction chain generalizing script with
  | nil => exact (List.append_nil _).symm
  | cons failure rest hyp =>
      rw [List.foldl_cons, hyp, fail, List.append_assoc]
      rfl

theorem failure?_ofChain (chain : List ScriptedFailure) (stage : Stage) (source : String)
    : (ofChain chain).failure? stage source = lastMessage? chain stage source := by
  rw [failure?, ofChain, failures_foldl_fail, lastMessage?, ← List.head?_filter,
    List.filter_reverse, List.head?_reverse]
  rfl

/-- The last failure for the stage and the source is the answer, and a success if there is none. -/
theorem answer_ofChain (chain : List ScriptedFailure) (stage : Stage) (source : String)
    : (ofChain chain).answer stage source
      = match lastMessage? chain stage source with
        | some message => .error (.ofStage stage message)
        | none => .ok (success stage source) := by
  cases last : lastMessage? chain stage source with
  | some message => simp only [answer, failure?_ofChain, last]
  | none => simp only [answer, failure?_ofChain, last]

end Script

------------------------------------------------------------------------------------------
-- Reports
------------------------------------------------------------------------------------------

/-- A report with a success tells the answer for the first stage. -/
theorem Report.exists_ast_of_ofAnswers {answer : Stage → Answer}
    (succeeded : 1 ≤ (ofAnswers answer).cutPoint)
    : ∃ text, answer .ast = .ok text ∧ (ofAnswers answer).ast = .success text := by
  rw [cutPoint_ofAnswers] at succeeded
  have before : Stage.ast.index < Engine.succeeded answer := succeeded
  obtain ⟨text, answered⟩ := Engine.answered_of_lt before
  have first := get_ofAnswers answer .ast
  rw [if_pos (Nat.le_of_lt before), answered] at first
  exact ⟨text, answered, first⟩

/-- Reports that the answers of a script make are told apart by their sources, once the first stage
has succeeded.
-/
theorem Script.source_of_ofAnswers {script : Script} {source other : String}
    (succeeded : 1 ≤ (Report.ofAnswers fun stage => script.answer stage source).cutPoint)
    (same : (Report.ofAnswers fun stage => script.answer stage source)
      = Report.ofAnswers fun stage => script.answer stage other)
    : source = other := by
  obtain ⟨text, answered, ast⟩ := Report.exists_ast_of_ofAnswers succeeded
  rw [same] at succeeded ast
  obtain ⟨otherText, otherAnswered, otherAst⟩ := Report.exists_ast_of_ofAnswers succeeded
  have texts : text = otherText := Outcome.success.inj (ast.symm.trans otherAst)
  rw [eq_success_of_answer answered, eq_success_of_answer otherAnswered] at texts
  exact (success_inj texts).2

/-- No operation makes what is kept stale, if the engine is stateless. -/
theorem Runner.fresh_perform {σ : Type} {runner : Runner σ} (stateless : runner.engine.Stateless)
    (fresh : runner.Fresh) (operation : Operation)
    : (runner.perform operation).Fresh := by
  cases operation with
  | run source => exact (run_fresh stateless fresh source).2.2
  | memoize enabled =>
      intro source report kept
      exact fresh source report (Memo.latest_of_set kept)
  | clear =>
      intro source report kept
      cases kept
  | call stage source => exact fresh

------------------------------------------------------------------------------------------
-- Histories
------------------------------------------------------------------------------------------

/-- What can happen around an engine that logs its calls: something is asked of the runner, or of
the engine through it, or the log is emptied.
-/
inductive Happening where
  | asked (operation : Runner.Operation)
  | logEmptied

/-- The runner after something has happened. -/
def Runner.experience (runner : Runner (Array EngineCall)) : Happening → Runner (Array EngineCall)
  | .asked operation => runner.perform operation
  | .logEmptied => { runner with state := #[] }

namespace Script

/-- A runner over the engine that follows a script, after all that has happened to it. -/
def runnerAfter (script : Script) (history : List Happening) : Runner (Array EngineCall) :=
  history.foldl Runner.experience (.new script.engine #[])

theorem stateless (script : Script)
    : script.engine.Stateless :=
  Engine.stateless_logging script.answer

/-- A runner that follows a script: its engine does, and what is kept is fresh. -/
structure FollowedBy (script : Script) (runner : Runner (Array EngineCall)) : Prop where
  engine : runner.engine = script.engine
  fresh : runner.Fresh

variable {script : Script} {runner : Runner (Array EngineCall)}

theorem FollowedBy.stateless (followed : script.FollowedBy runner)
    : runner.engine.Stateless :=
  followed.engine ▸ script.stateless

/-- Nothing that happens keeps a runner from following its script. -/
theorem FollowedBy.experience (followed : script.FollowedBy runner) (happening : Happening)
    : script.FollowedBy (runner.experience happening) := by
  cases happening with
  | asked operation =>
      have same := runner.engine_perform operation
      exact ⟨same.trans followed.engine,
        Runner.fresh_perform followed.stateless followed.fresh operation⟩
  | logEmptied => exact ⟨followed.engine, followed.fresh⟩

/-- A runner follows its script through a whole history, by induction over it. -/
theorem FollowedBy.history (followed : script.FollowedBy runner) (history : List Happening)
    : script.FollowedBy (history.foldl Runner.experience runner) := by
  induction history generalizing runner with
  | nil => exact followed
  | cons happening rest hyp => exact hyp (followed.experience happening)

theorem followedBy_runnerAfter (script : Script) (history : List Happening)
    : script.FollowedBy (script.runnerAfter history) :=
  FollowedBy.history ⟨rfl, Runner.fresh_new script.engine #[] true⟩ history

/-- Calls are answered by the script, whatever has happened. -/
theorem call_runnerAfter (script : Script) (history : List Happening) (stage : Stage)
    (source : String)
    : ((script.runnerAfter history).call stage source).1 = script.answer stage source := by
  rw [Runner.call, (script.followedBy_runnerAfter history).engine]
  rfl

/-- An uncached run reports the answers of the script, whatever has been logged. -/
theorem execute_report (script : Script) (source : String) (calls : Array EngineCall)
    : (script.engine.execute source calls).value.1
      = Report.ofAnswers fun stage => script.answer stage source :=
  script.stateless.execute_report source calls #[]

/-- A run reports the answers of the script, whatever has happened and whatever is kept. -/
theorem run_report (script : Script) (history : List Happening) (source : String)
    : ((script.runnerAfter history).run source).value.1
      = Report.ofAnswers fun stage => script.answer stage source := by
  have followed := script.followedBy_runnerAfter history
  have reports := (Runner.run_fresh followed.stateless followed.fresh source).1 #[]
  rw [followed.engine, execute_report] at reports
  exact reports

/-- The answers of an engine that follows a script tell stages and sources apart, at any two points
of any two histories, and so do reports in which a stage has succeeded; a report that was given for
one source is never the one that a new run would give for another source which is read. What is
answered is fixed by the last failure in the script for the very stage and source.
-/
theorem answers_identify (chain : List ScriptedFailure)
    : let script := ofChain chain
      (∀ history later stage otherStage source other text,
        ((script.runnerAfter history).call stage source).1 = .ok text
        → ((script.runnerAfter later).call otherStage other).1 = .ok text
        → stage = otherStage ∧ source = other)
      ∧ (∀ history later source other,
        let report := ((script.runnerAfter history).run source).value.1
        1 ≤ report.cutPoint
        → report = ((script.runnerAfter later).run other).value.1
        → source = other)
      ∧ (∀ history later source other,
        let stale := ((script.runnerAfter history).run source).value.1
        let calls := (script.runnerAfter later).state
        let fresh := (script.engine.execute other calls).value.1
        source ≠ other → 1 ≤ fresh.cutPoint → stale ≠ fresh)
      ∧ (∀ history stage source,
        ((script.runnerAfter history).call stage source).1
          = match lastMessage? chain stage source with
            | some message => .error (.ofStage stage message)
            | none => .ok (success stage source))
      ∧ (∀ changed history later stage source,
        lastMessage? changed stage source = lastMessage? chain stage source
        → (((ofChain changed).runnerAfter later).call stage source).1
          = ((script.runnerAfter history).call stage source).1) := by
  intro script
  refine ⟨?_, ?_, ?_, ?_, ?_⟩
  · intro history later stage otherStage source other text answered otherAnswered
    rw [call_runnerAfter] at answered otherAnswered
    apply success_inj
    rw [← eq_success_of_answer answered, ← eq_success_of_answer otherAnswered]
  · intro history later source other report succeeded same
    simp only [report, run_report] at succeeded same
    exact source_of_ofAnswers succeeded same
  · intro history later source other stale calls fresh different succeeded same
    simp only [stale, fresh, run_report, execute_report] at succeeded same
    exact different (source_of_ofAnswers succeeded same.symm).symm
  · intro history stage source
    rw [call_runnerAfter, answer_ofChain]
  · intro changed history later stage source same
    rw [call_runnerAfter, call_runnerAfter, answer_ofChain, answer_ofChain, same]

end Script

end Scratchpad
