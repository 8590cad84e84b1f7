import Scratchpad.Proofs.Runner.Recording

/-! That reports tell what an engine replies. A run that finds no report calls the stages in order,
up to the first that is refused, and its report has a success for each call before that one, a
failure for it, and nothing behind it. A report that is kept is one that such a run has given.
-/

namespace Scratchpad

------------------------------------------------------------------------------------------
-- The calls up to the first refusal
------------------------------------------------------------------------------------------

theorem Stage.mem_take_all {stage : Stage} {count : Nat}
    : stage ∈ Stage.all.take count ↔ stage.index < count := by
  rcases count with _ | _ | _ | more <;> cases stage <;> simp [all, index]

namespace Engine

variable {source : String} {answer : Stage → Answer}

theorem succeeded_eq (answer : Stage → Answer)
    : succeeded answer
      = if (answer .ast).isOk then
          if (answer .types).isOk then if (answer .output).isOk then 3 else 2 else 1
        else 0 := by
  simp only [succeeded, Stage.all, List.takeWhile_cons, List.takeWhile_nil]
  cases (answer .ast).isOk <;> cases (answer .types).isOk <;> cases (answer .output).isOk <;> rfl

/-- A stage in front of the first refusal is answered with a text. -/
theorem answered_of_lt {stage : Stage} (before : stage.index < succeeded answer)
    : ∃ text, answer stage = .ok text := by
  cases answered : answer stage with
  | ok text => exact ⟨text, rfl⟩
  | error refusal =>
      have refused : (answer stage).isOk = false := by rw [answered]; rfl
      rw [succeeded_eq] at before
      cases stage <;> simp only [Stage.index] at before <;> grind

/-- The stage at which the successes end is refused. -/
theorem refused_of_eq {stage : Stage} (first : stage.index = succeeded answer)
    : ∃ refusal, answer stage = .error refusal := by
  cases answered : answer stage with
  | error refusal => exact ⟨refusal, rfl⟩
  | ok text =>
      have ok : (answer stage).isOk = true := by rw [answered]; rfl
      rw [succeeded_eq] at first
      cases stage <;> simp only [Stage.index] at first <;> grind

/-- The stages up to the first refusal are called. -/
theorem mem_replies (source : String) {stage : Stage} (called : stage.index ≤ succeeded answer)
    : ⟨⟨stage, source⟩, answer stage⟩ ∈ replies source answer := by
  refine List.mem_map.mpr ⟨stage, ?_, rfl⟩
  exact Stage.mem_take_all.mpr (Nat.lt_succ_of_le called)

/-- The number of calls that succeeded before the first that was refused. -/
def reached (replies : List EngineReply) : Nat :=
  (replies.takeWhile fun reply => reply.answer.isOk).length

theorem reached_replies (source : String) (answer : Stage → Answer)
    : reached (replies source answer) = succeeded answer := by
  rw [reached, replies, List.takeWhile_map, List.length_map, succeeded_eq]
  simp only [Stage.all, Function.comp_def]
  cases ast : (answer .ast).isOk <;> cases types : (answer .types).isOk
    <;> cases output : (answer .output).isOk
    <;> simp [ast, types, output]

theorem calls_replies (source : String) (answer : Stage → Answer)
    : (replies source answer).map EngineReply.call
      = (Stage.all.take (min (succeeded answer + 1) Stage.all.length)).map fun stage =>
          ⟨stage, source⟩ := by
  rw [replies, List.map_map, ← List.take_eq_take_min]
  rfl

end Engine

------------------------------------------------------------------------------------------
-- What a report tells
------------------------------------------------------------------------------------------

namespace Report

variable {answer : Stage → Answer}

theorem get_ofAnswers (answer : Stage → Answer) (stage : Stage)
    : (ofAnswers answer).get stage
      = if stage.index ≤ Engine.succeeded answer then .ofAnswer (answer stage) else .notRun := by
  rw [ofAnswers, Engine.succeeded_eq]
  cases stage <;> cases answer .ast <;> cases answer .types <;> cases answer .output <;> rfl

theorem cutPoint_ofAnswers (answer : Stage → Answer)
    : (ofAnswers answer).cutPoint = Engine.succeeded answer := by
  rw [ofAnswers, Engine.succeeded_eq]
  cases answer .ast <;> cases answer .types <;> cases answer .output <;> rfl

theorem isWellFormed_ofAnswers (answer : Stage → Answer)
    : (ofAnswers answer).isWellFormed = true := by
  rw [ofAnswers]
  cases answer .ast <;> cases answer .types <;> cases answer .output <;> rfl

/-- The first failure that is reported is that of the first stage that is refused. -/
theorem firstFailure?_of_refused {stage : Stage} {refusal : EngineError}
    (first : stage.index = Engine.succeeded answer) (refused : answer stage = .error refusal)
    : (ofAnswers answer).firstFailure? = some (stage, refusal.message) := by
  have answered (earlier : Stage) (before : earlier.index < stage.index)
      : ∃ text, answer earlier = .ok text :=
    Engine.answered_of_lt (Nat.lt_of_lt_of_eq before first)
  cases stage with
  | ast =>
      rw [ofAnswers, refused]
      rfl
  | types =>
      obtain ⟨ast, answered⟩ := answered .ast Nat.zero_lt_one
      rw [ofAnswers, answered, refused]
      rfl
  | output =>
      obtain ⟨ast, answeredAst⟩ := answered .ast Nat.zero_lt_two
      obtain ⟨types, answeredTypes⟩ := answered .types Nat.one_lt_two
      rw [ofAnswers, answeredAst, answeredTypes, refused]
      rfl

theorem firstFailure?_of_all (all : Engine.succeeded answer = Stage.all.length)
    : (ofAnswers answer).firstFailure? = none := by
  have answered (stage : Stage) : ∃ text, answer stage = .ok text := by
    refine Engine.answered_of_lt ?_
    rw [all]
    cases stage <;> decide
  obtain ⟨ast, answeredAst⟩ := answered .ast
  obtain ⟨types, answeredTypes⟩ := answered .types
  obtain ⟨output, answeredOutput⟩ := answered .output
  rw [ofAnswers, answeredAst, answeredTypes, answeredOutput]
  rfl

/-- A report tells what was replied to the calls on a source. The stages are called in order, up to
the first that is refused; that one is the cut point, and each stage before it, at it and behind it
has the outcome that belongs there.
-/
structure Tells (report : Report) (source : String) (replies : List EngineReply) : Prop where
  calls : replies.map EngineReply.call
    = (Stage.all.take (min (Engine.reached replies + 1) Stage.all.length)).map fun stage =>
        ⟨stage, source⟩
  succeeded : ∀ stage, stage.index < Engine.reached replies →
    ∃ text, ⟨⟨stage, source⟩, .ok text⟩ ∈ replies ∧ report.get stage = .success text
  failed : ∀ stage, stage.index = Engine.reached replies →
    ∃ refusal, ⟨⟨stage, source⟩, .error refusal⟩ ∈ replies
      ∧ report.get stage = .failure refusal.message
      ∧ report.firstFailure? = some (stage, refusal.message)
  unreached : ∀ stage, Engine.reached replies < stage.index →
    report.get stage = .notRun ∧ (report.get stage).display = ""
  wellFormed : report.isWellFormed = true
  cutPoint : report.cutPoint = Engine.reached replies
  unfailed : Engine.reached replies = Stage.all.length → report.firstFailure? = none
  complete : report.isComplete = true ↔ Engine.reached replies = Stage.all.length

/-- A report tells of one call at least, that for the first stage. -/
theorem Tells.ne_nil {report : Report} {source : String} {replies : List EngineReply}
    (tells : report.Tells source replies)
    : replies ≠ [] := by
  rintro rfl
  cases tells.calls

/-- The report that answers make tells the calls with those answers. -/
theorem ofAnswers_tells (source : String) (answer : Stage → Answer)
    : (ofAnswers answer).Tells source (Engine.replies source answer) := by
  have reached : Engine.reached (Engine.replies source answer) = Engine.succeeded answer :=
    Engine.reached_replies source answer
  constructor
  case calls =>
    rw [reached]
    exact Engine.calls_replies source answer
  case succeeded =>
    intro stage before
    rw [reached] at before
    obtain ⟨text, answered⟩ := Engine.answered_of_lt before
    refine ⟨text, answered ▸ Engine.mem_replies source (Nat.le_of_lt before), ?_⟩
    rw [get_ofAnswers, if_pos (Nat.le_of_lt before), answered]
    rfl
  case failed =>
    intro stage first
    rw [reached] at first
    obtain ⟨refusal, refused⟩ := Engine.refused_of_eq first
    refine ⟨refusal, refused ▸ Engine.mem_replies source (Nat.le_of_eq first), ?_,
      firstFailure?_of_refused first refused⟩
    rw [get_ofAnswers, if_pos (Nat.le_of_eq first), refused]
    rfl
  case unreached =>
    intro stage behind
    rw [reached] at behind
    rw [get_ofAnswers, if_neg (Nat.not_le_of_lt behind)]
    exact ⟨rfl, rfl⟩
  case wellFormed => exact isWellFormed_ofAnswers answer
  case cutPoint => rw [reached, cutPoint_ofAnswers]
  case unfailed =>
    rw [reached]
    exact firstFailure?_of_all
  case complete => rw [reached, isComplete, cutPoint_ofAnswers, decide_eq_true_iff]

end Report

------------------------------------------------------------------------------------------
-- Runners
------------------------------------------------------------------------------------------

/-- What is kept when it has been said whether reports are to be kept was kept before. -/
theorem Memo.latest_of_set {memo : Memo} {enabled : Bool} {kept : String × Report}
    (again : (memo.set enabled).latest = some kept)
    : memo.latest = some kept := by
  cases enabled with
  | false => cases again
  | true => exact again

namespace Runner

variable {σ : Type}

/-- What can be asked of a runner. -/
inductive Operation where
  | run (source : String)
  | memoize (enabled : Bool)
  | clear
  | call (stage : Stage) (source : String)

/-- The runner after an operation. -/
def perform (runner : Runner σ) : Operation → Runner σ
  | .run source => (runner.run source).value.2
  | .memoize enabled => runner.withMemo enabled
  | .clear => runner.clear
  | .call stage source => (runner.call stage source).2

/-- No operation changes the engine. -/
theorem engine_perform (runner : Runner σ) (operation : Operation)
    : (runner.perform operation).engine = runner.engine := by
  cases operation with
  | run source => exact runner.engine_run source
  | memoize enabled => rfl
  | clear => rfl
  | call stage source => rfl

/-- The runner after operations, one after another. -/
def after (runner : Runner σ) (operations : List Operation) : Runner σ :=
  operations.foldl perform runner

/-- The runner with a record of its calls. -/
def recording (runner : Runner σ) (record : List EngineReply) : Runner (σ × List EngineReply) :=
  ⟨runner.engine.recorded, (runner.state, record), runner.memo⟩

/-- Every report that is kept tells replies that stand together on the record. -/
def Recorded (runner : Runner σ) (record : List EngineReply) : Prop :=
  ∀ source report, runner.memo.latest = some (source, report) →
    ∃ replies, replies <:+: record ∧ report.Tells source replies

/-- What stands on a record stands on all that it grows to. -/
theorem Recorded.append {runner : Runner σ} {record : List EngineReply}
    (recorded : runner.Recorded record) (made : List EngineReply)
    : runner.Recorded (record ++ made) := by
  intro source report kept
  obtain ⟨replies, stand, tells⟩ := recorded source report kept
  exact ⟨replies, stand.trans (List.prefix_append _ _).isInfix, tells⟩

/-- A run with a record reports the same and leaves the same runner, and its report tells replies.
Either they are new on the record, or no call is made and they stand there already.
-/
theorem run_recording {runner : Runner σ} {record : List EngineReply}
    (recorded : runner.Recorded record) (source : String)
    : ∃ replies made,
        ((runner.recording record).run source).value
          = ((runner.run source).value.1, (runner.run source).value.2.recording (record ++ made))
        ∧ (runner.run source).value.1.Tells source replies
        ∧ (runner.memo.find? source = none ∧ made = replies
          ∨ runner.memo.find? source = some (runner.run source).value.1
            ∧ made = [] ∧ replies <:+: record)
        ∧ (runner.run source).value.2.Recorded (record ++ made) := by
  rw [run, run]
  cases kept : runner.memo.find? source with
  | some report =>
      obtain ⟨replies, stand, tells⟩ :=
        recorded source report (Memo.find?_eq_some_iff.mp kept).2
      refine ⟨replies, [], ?_, tells, .inr ⟨rfl, rfl, stand⟩, ?_⟩
      · rw [List.append_nil]
        simp only [recording, kept]
        rfl
      · rw [List.append_nil]
        exact recorded
  | none =>
      have tells := Report.ofAnswers_tells source (runner.engine.answers source runner.state)
      rw [← Engine.execute_report] at tells
      refine ⟨_, _, ?_, tells, .inl ⟨rfl, rfl⟩, ?_⟩
      · simp only [recording, kept, Traced.value_bind, Traced.value_pure, Engine.execute_recorded]
      · intro other report again
        rcases Memo.eq_or_latest_of_keep again with ⟨rfl, rfl⟩ | kept
        · exact ⟨_, (List.suffix_append _ _).isInfix, tells⟩
        · exact recorded.append _ other report kept

/-- An operation does the same with a record, which grows, and keeps what is kept recorded. -/
theorem perform_recording {runner : Runner σ} {record : List EngineReply}
    (recorded : runner.Recorded record) (operation : Operation)
    : ∃ made, (runner.recording record).perform operation
        = (runner.perform operation).recording (record ++ made)
      ∧ (runner.perform operation).Recorded (record ++ made) := by
  cases operation with
  | run source =>
      obtain ⟨_, made, ran, -, -, again⟩ := run_recording recorded source
      exact ⟨made, congrArg Prod.snd ran, again⟩
  | memoize enabled =>
      refine ⟨[], by rw [List.append_nil]; rfl, ?_⟩
      intro source report kept
      exact recorded.append [] source report (Memo.latest_of_set kept)
  | clear =>
      refine ⟨[], by rw [List.append_nil]; rfl, ?_⟩
      intro source report kept
      cases kept
  | call stage source =>
      refine ⟨_, rfl, recorded.append _⟩

/-- Operations do the same with a record, and keep what is kept recorded. The induction is on the
operations; the record of the later ones goes behind that of the first.
-/
theorem after_recording {runner : Runner σ} {record : List EngineReply}
    (recorded : runner.Recorded record) (operations : List Operation)
    : ∃ made, (runner.recording record).after operations
        = (runner.after operations).recording (record ++ made)
      ∧ (runner.after operations).Recorded (record ++ made) := by
  induction operations generalizing runner record with
  | nil =>
      rw [← List.append_nil record] at recorded
      exact ⟨[], by rw [List.append_nil]; rfl, recorded⟩
  | cons operation rest hyp =>
      obtain ⟨made, performed, kept⟩ := perform_recording recorded operation
      obtain ⟨more, same, again⟩ := hyp kept
      rw [List.append_assoc] at same again
      refine ⟨made ++ more, ?_, again⟩
      rw [after, List.foldl_cons, performed]
      exact same

end Runner

end Scratchpad
