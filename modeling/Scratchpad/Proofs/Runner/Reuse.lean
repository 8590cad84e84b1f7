import Mathlib.Data.List.Induction
import Scratchpad.Proofs.Runner.Discipline

/-! When a kept report is used again. What a runner keeps is read off the operations that were asked
of it, whatever its engine answers: a report is there for a source exactly if a run on the source
gave it while reports were kept, and nothing since then has made it go.
-/

namespace Scratchpad

------------------------------------------------------------------------------------------
-- What is kept, apart from the reports themselves
------------------------------------------------------------------------------------------

namespace Memo

/-- Whether reports are kept, and the source of the one that is there. -/
def outline (memo : Memo) : Bool × Option String :=
  (memo.enabled, memo.latest.map Prod.fst)

/-- Nothing is there as long as reports are not to be kept. -/
def Tidy (memo : Memo) : Prop :=
  memo.enabled = false → memo.latest = none

theorem isSome_find?_iff {memo : Memo} {source : String}
    : (memo.find? source).isSome = true ↔ memo.outline = (true, some source) := by
  rw [Option.isSome_iff_exists, outline, Prod.mk.injEq, Option.map_eq_some_iff]
  constructor
  · rintro ⟨report, found⟩
    obtain ⟨enabled, kept⟩ := find?_eq_some_iff.mp found
    exact ⟨enabled, _, kept, rfl⟩
  · rintro ⟨enabled, ⟨_, report⟩, kept, rfl⟩
    exact ⟨report, find?_eq_some_iff.mpr ⟨enabled, kept⟩⟩

theorem find?_keep_self {memo : Memo} (enabled : memo.enabled = true) (source : String)
    (report : Report)
    : (memo.keep source report).find? source = some report := by
  rw [find?_eq_some_iff, enabled_keep, latest_keep, if_pos enabled]
  exact ⟨enabled, rfl⟩

/-- To say that reports are to be kept changes nothing, because nothing is there that was not to be
kept.
-/
theorem Tidy.find?_set_true {memo : Memo} (tidy : memo.Tidy) (source : String)
    : (memo.set true).find? source = memo.find? source := by
  cases enabled : memo.enabled with
  | true => simp only [find?, set, enabled, if_true]
  | false => simp only [find?, set, enabled, tidy enabled, if_true]

theorem Tidy.keep {memo : Memo} (tidy : memo.Tidy) (source : String) (report : Report)
    : (memo.keep source report).Tidy := by
  intro disabled
  rw [enabled_keep] at disabled
  rw [latest_keep, disabled]
  exact tidy disabled

end Memo

namespace Runner

variable {σ : Type}

namespace Operation

/-- Whether reports are kept after an operation, and the source of the one that is there then. -/
def redraw : Bool × Option String → Operation → Bool × Option String
  | (enabled, key), run source => (enabled, if enabled then some source else key)
  | (_, key), memoize enabled => (enabled, if enabled then key else none)
  | (enabled, _), clear => (enabled, none)
  | outline, call _ _ => outline

/-- Whether reports are kept after an operation. -/
def keeps (before : Bool) : Operation → Bool
  | memoize enabled => enabled
  | _ => before

/-- Whether an operation lets the report on a source stay, if it is kept. -/
def retains (source : String) : Operation → Bool
  | run other => other = source
  | memoize enabled => enabled
  | clear => false
  | call _ _ => true

/-- Whether an operation goes to the engine directly. -/
def isCall : Operation → Bool
  | call _ _ => true
  | _ => false

end Operation

/-- Whether reports are kept after operations: as was said last, and at first they are. -/
def keepsAfter (operations : List Operation) : Bool :=
  operations.foldl Operation.keeps true

/-- If a run keeps its report, the source of the report that is kept is that of the run. -/
theorem outline_run (runner : Runner σ) (source : String)
    : (runner.run source).value.2.memo.outline
      = Operation.redraw runner.memo.outline (.run source) := by
  rw [run]
  cases found : runner.memo.find? source with
  | some report =>
      have kept := Memo.isSome_find?_iff.mp (Option.isSome_iff_exists.mpr ⟨report, found⟩)
      simp only [Traced.value_bind, Traced.value_pure, kept, Operation.redraw, if_true]
  | none =>
      simp only [Traced.value_bind, Traced.value_pure, Memo.outline, Memo.enabled_keep,
        Memo.latest_keep, Operation.redraw]
      exact congrArg (Prod.mk _) (apply_ite (Option.map Prod.fst) _ _ _)

theorem outline_perform (runner : Runner σ) (operation : Operation)
    : (runner.perform operation).memo.outline = operation.redraw runner.memo.outline := by
  cases operation with
  | run source => exact runner.outline_run source
  | memoize enabled => cases enabled <;> rfl
  | clear => rfl
  | call stage source => rfl

/-- Whether and for which source a report is kept does not depend on the engine, by induction over
the operations.
-/
theorem outline_after (runner : Runner σ) (operations : List Operation)
    : (runner.after operations).memo.outline
      = operations.foldl Operation.redraw runner.memo.outline := by
  induction operations generalizing runner with
  | nil => rfl
  | cons operation rest hyp =>
      have later := hyp (runner.perform operation)
      rw [outline_perform] at later
      exact later

theorem foldl_redraw_fst (operations : List Operation) (outline : Bool × Option String)
    : (operations.foldl Operation.redraw outline).1
      = operations.foldl Operation.keeps outline.1 := by
  induction operations generalizing outline with
  | nil => rfl
  | cons operation rest hyp =>
      have step : (operation.redraw outline).1 = operation.keeps outline.1 := by
        cases operation <;> rfl
      rw [List.foldl_cons, List.foldl_cons, hyp, step]

/-- A new runner keeps reports after operations if the last of them that says so says so. -/
theorem enabled_after_new (engine : Engine σ) (state : σ) (operations : List Operation)
    : ((new engine state).after operations).memo.enabled = keepsAfter operations := by
  have outline := congrArg Prod.fst ((new engine state).outline_after operations)
  rw [foldl_redraw_fst] at outline
  exact outline

/-- Calls that go to the engine directly do not matter for what is kept. -/
theorem foldl_redraw_filter (operations : List Operation) (outline : Bool × Option String)
    : (operations.filter (!·.isCall)).foldl Operation.redraw outline
      = operations.foldl Operation.redraw outline := by
  induction operations generalizing outline with
  | nil => rfl
  | cons operation rest hyp =>
      cases operation with
      | call stage source => exact hyp outline
      | run source => exact hyp _
      | memoize enabled => exact hyp _
      | clear => exact hyp _

/-- No operation keeps a report that is not to be kept. -/
theorem tidy_perform {runner : Runner σ} (tidy : runner.memo.Tidy) (operation : Operation)
    : (runner.perform operation).memo.Tidy := by
  cases operation with
  | run source =>
      rw [perform, run]
      cases runner.memo.find? source with
      | some report => exact tidy
      | none => exact tidy.keep source _
  | memoize enabled =>
      intro disabled
      obtain rfl : enabled = false := disabled
      rfl
  | clear => exact fun _ => rfl
  | call stage source => exact tidy

/-- Nothing is kept that is not to be kept, after any operations; by induction over them. -/
theorem tidy_after {runner : Runner σ} (tidy : runner.memo.Tidy) (operations : List Operation)
    : (runner.after operations).memo.Tidy := by
  induction operations generalizing runner with
  | nil => exact tidy
  | cons operation rest hyp => exact hyp (tidy_perform tidy operation)

theorem tidy_after_new (engine : Engine σ) (state : σ) (operations : List Operation)
    : ((new engine state).after operations).memo.Tidy :=
  tidy_after Bool.noConfusion operations

------------------------------------------------------------------------------------------
-- Where the kept report comes from
------------------------------------------------------------------------------------------

theorem after_concat (runner : Runner σ) (operations : List Operation) (operation : Operation)
    : runner.after (operations ++ [operation]) = (runner.after operations).perform operation := by
  rw [after, List.foldl_append]
  rfl

/-- A run on a source whose report stays to the end of all operations: reports were kept when it was
made, and since then there was no run on another source, nothing was cleared, and it was never said
that no reports are to be kept.
-/
structure Remembered (operations before since : List Operation) (source : String) : Prop where
  split : operations = before ++ .run source :: since
  kept : keepsAfter before = true
  retained : ∀ operation ∈ since, operation.retains source = true

/-- A run is remembered after one more operation if it is that operation, or if it was remembered
and its report stays.
-/
theorem remembered_concat {operations before since : List Operation} {operation : Operation}
    {source : String}
    : Remembered (operations ++ [operation]) before since source
      ↔ operation = .run source ∧ keepsAfter operations = true ∧ before = operations ∧ since = []
        ∨ operation.retains source = true
          ∧ ∃ earlier, since = earlier ++ [operation]
            ∧ Remembered operations before earlier source := by
  constructor
  · rintro ⟨split, kept, retained⟩
    rcases List.eq_nil_or_concat since with rfl | ⟨earlier, last, rfl⟩
    · obtain ⟨rfl, same⟩ := List.append_inj' split rfl
      exact .inl ⟨List.singleton_inj.mp same, kept, rfl, rfl⟩
    · rw [List.concat_eq_append] at *
      rw [← List.cons_append, ← List.append_assoc] at split
      obtain ⟨front, same⟩ := List.append_inj' split rfl
      obtain rfl := List.singleton_inj.mp same
      refine .inr ⟨retained _ (List.mem_append_right _ (List.mem_singleton_self _)), earlier, rfl,
        front, kept, fun operation since => retained operation (List.mem_append_left _ since)⟩
  · rintro (⟨rfl, kept, rfl, rfl⟩ | ⟨retains, earlier, rfl, split, kept, retained⟩)
    · exact ⟨rfl, kept, fun _ none => absurd none List.not_mem_nil⟩
    · refine ⟨?_, kept, fun operation since => ?_⟩
      · rw [split, List.append_assoc]
        rfl
      · rcases List.mem_append.mp since with since | last
        · exact retained operation since
        · rw [List.mem_singleton.mp last]
          exact retains

/-- A report that is kept for the source of a run is found again by it. -/
theorem run_of_find? {runner : Runner σ} {source : String} {report : Report}
    (found : runner.memo.find? source = some report)
    : (runner.run source).value = (report, runner) := by
  rw [run, found]
  rfl

/-- A run for which no report is kept is an uncached run, whose report is kept if reports are. -/
theorem run_of_not_find? {runner : Runner σ} {source : String}
    (missing : runner.memo.find? source = none)
    : (runner.run source).value
      = let executed := (runner.engine.execute source runner.state).value
        (executed.1,
          { runner with state := executed.2, memo := runner.memo.keep source executed.1 }) := by
  rw [run, missing]
  rfl

/-- As long as reports are kept, a run keeps the report that it gives. -/
theorem find?_run {runner : Runner σ} (enabled : runner.memo.enabled = true) (source : String)
    : (runner.run source).value.2.memo.find? source = some (runner.run source).value.1 := by
  cases found : runner.memo.find? source with
  | some report =>
      rw [run_of_find? found]
      exact found
  | none =>
      rw [run_of_not_find? found]
      exact Memo.find?_keep_self enabled source _

/-- An operation that lets the report on a source stay leaves it as it is. -/
theorem find?_perform_of_retains {runner : Runner σ} {operation : Operation} {source : String}
    {report : Report} (tidy : runner.memo.Tidy) (retains : operation.retains source = true)
    (found : runner.memo.find? source = some report)
    : (runner.perform operation).memo.find? source = some report := by
  cases operation with
  | run other =>
      obtain rfl := of_decide_eq_true retains
      rw [perform, run_of_find? found]
      exact found
  | memoize enabled =>
      obtain rfl : enabled = true := retains
      exact (tidy.find?_set_true source).trans found
  | clear => cases retains
  | call stage other => exact found

/-- A report that is there after an operation was there before and stayed, or it is the report of a
run that was asked for.
-/
theorem find?_perform {runner : Runner σ} {operation : Operation} {source : String}
    {report : Report} (tidy : runner.memo.Tidy)
    (found : (runner.perform operation).memo.find? source = some report)
    : operation = .run source ∧ runner.memo.enabled = true
        ∧ report = (runner.run source).value.1
      ∨ operation.retains source = true ∧ runner.memo.find? source = some report := by
  have outline := Memo.isSome_find?_iff.mp (Option.isSome_iff_exists.mpr ⟨report, found⟩)
  rw [outline_perform] at outline
  cases operation with
  | run other =>
      obtain ⟨enabled, key⟩ := Prod.mk.inj outline
      rw [enabled] at key
      obtain rfl : other = source := Option.some.inj key
      rw [perform, find?_run enabled] at found
      exact .inl ⟨rfl, enabled, (Option.some.inj found).symm⟩
  | memoize enabled =>
      cases enabled with
      | false => cases (Prod.mk.inj outline).1
      | true => exact .inr ⟨rfl, (tidy.find?_set_true source).symm.trans found⟩
  | clear => cases (Prod.mk.inj outline).2
  | call stage other => exact .inr ⟨rfl, found⟩

/-- A report is kept for a source exactly if a run on it is remembered, and then it is the report
that this run gave. The induction is on the operations from the last one back.
-/
theorem find?_after_iff (engine : Engine σ) (state : σ) (operations : List Operation)
    (source : String) (report : Report)
    : ((new engine state).after operations).memo.find? source = some report
      ↔ ∃ before since, Remembered operations before since source
        ∧ report = (((new engine state).after before).run source).value.1 := by
  induction operations using List.reverseRecOn with
  | nil =>
      constructor
      · intro found
        cases found
      · rintro ⟨before, since, remembered, -⟩
        cases before <;> cases remembered.split
  | append_singleton operations operation hyp =>
      have tidy := tidy_after_new engine state operations
      rw [after_concat]
      constructor
      · intro found
        rcases find?_perform tidy found with ⟨rfl, keeps, rfl⟩ | ⟨retains, found⟩
        · rw [enabled_after_new] at keeps
          exact ⟨operations, [], remembered_concat.mpr (.inl ⟨rfl, keeps, rfl, rfl⟩), rfl⟩
        · obtain ⟨before, since, remembered, rfl⟩ := hyp.mp found
          exact ⟨before, since ++ [operation],
            remembered_concat.mpr (.inr ⟨retains, since, rfl, remembered⟩), rfl⟩
      · rintro ⟨before, since, remembered, rfl⟩
        rcases remembered_concat.mp remembered
          with ⟨rfl, keeps, rfl, rfl⟩ | ⟨retains, earlier, rfl, standing⟩
        · rw [← enabled_after_new engine state] at keeps
          exact find?_run keeps source
        · exact find?_perform_of_retains tidy retains (hyp.mpr ⟨_, earlier, standing, rfl⟩)

------------------------------------------------------------------------------------------
-- Runs without calls
------------------------------------------------------------------------------------------

/-- A run on a source after operations makes no call: a record of the calls stays as it is. -/
def Spared (engine : Engine σ) (state : σ) (operations : List Operation) (source : String)
    : Prop :=
  let recorded := (new engine.recorded (state, [])).after operations
  (recorded.run source).value.2.state.2 = recorded.state.2

/-- A run makes no call exactly if a report is kept for its source. -/
theorem spared_iff_isSome (engine : Engine σ) (state : σ) (operations : List Operation)
    (source : String)
    : Spared engine state operations source
      ↔ (((new engine state).after operations).memo.find? source).isSome = true := by
  let runner := (new engine state).after operations
  have nothing : (new engine state).Recorded [] := by
    intro source report found
    cases found
  obtain ⟨record, same, holds⟩ := after_recording nothing operations
  rw [List.nil_append] at same holds
  obtain ⟨replies, made, ran, tells, calls, -⟩ := run_recording holds source
  have same : (new engine.recorded (state, [])).after operations = runner.recording record := same
  rw [Spared, same, ran]
  change record ++ made = record ↔ (runner.memo.find? source).isSome = true
  rw [List.append_right_eq_self]
  rcases calls with ⟨missing, rfl⟩ | ⟨kept, rfl, -⟩
  · have missing : runner.memo.find? source = none := missing
    rw [missing]
    exact ⟨fun none => absurd none tells.ne_nil, fun found => by cases found⟩
  · have kept : runner.memo.find? source = some _ := kept
    rw [kept]
    exact ⟨fun _ => rfl, fun _ => rfl⟩

/-- Calls that go to the engine directly do not matter for which runs make none. -/
theorem spared_filter_iff (engine : Engine σ) (state : σ) (operations : List Operation)
    (source : String)
    : Spared engine state (operations.filter (!·.isCall)) source
      ↔ Spared engine state operations source := by
  rw [spared_iff_isSome, spared_iff_isSome, Memo.isSome_find?_iff, Memo.isSome_find?_iff,
    outline_after, outline_after, foldl_redraw_filter]

theorem engine_after (runner : Runner σ) (operations : List Operation)
    : (runner.after operations).engine = runner.engine := by
  induction operations generalizing runner with
  | nil => rfl
  | cons operation rest hyp =>
      exact (hyp (runner.perform operation)).trans (runner.engine_perform operation)

/-- A run makes no call exactly if reports are kept at that moment and a run on the very source is
remembered; then it gives the report that this run gave, and changes nothing. Every other run is an
uncached run. To say that reports are to be kept takes no report away and brings none, direct calls
do not matter for which runs make none, and nothing is kept while reports are not to be kept. All of
this holds after any operations, for every engine, whatever its answers depend on.
-/
theorem spared_iff_remembered (engine : Engine σ) (state : σ) (operations : List Operation)
    (source : String)
    : let start := new engine state
      let runner := start.after operations
      let ran := (runner.run source).value
      let executed := (engine.execute source runner.state).value
      (Spared engine state operations source
        ↔ keepsAfter operations = true
          ∧ ∃ before since, Remembered operations before since source)
      ∧ (∀ before since, Remembered operations before since source
        → ran = (((start.after before).run source).value.1, runner))
      ∧ (¬ Spared engine state operations source
        → ran.1 = executed.1 ∧ ran.2.state = executed.2)
      ∧ (∀ other, (runner.withMemo true).memo.find? other = runner.memo.find? other)
      ∧ (Spared engine state (operations.filter (!·.isCall)) source
        ↔ Spared engine state operations source)
      ∧ runner.memo.enabled = keepsAfter operations
      ∧ (keepsAfter operations = false → runner.memo = .off) := by
  intro start runner ran executed
  have remembered_iff (report : Report)
      : runner.memo.find? source = some report ↔ _ :=
    find?_after_iff engine state operations source report
  have tidy := tidy_after_new engine state operations
  refine ⟨?_, ?_, ?_, tidy.find?_set_true, spared_filter_iff engine state operations source,
    enabled_after_new engine state operations, ?_⟩
  · rw [spared_iff_isSome, Option.isSome_iff_exists]
    constructor
    · rintro ⟨report, found⟩
      obtain ⟨enabled, -⟩ := Memo.find?_eq_some_iff.mp found
      obtain ⟨before, since, remembered, -⟩ := (remembered_iff report).mp found
      rw [enabled_after_new] at enabled
      exact ⟨enabled, before, since, remembered⟩
    · rintro ⟨-, before, since, remembered⟩
      exact ⟨_, (remembered_iff _).mpr ⟨before, since, remembered, rfl⟩⟩
  · intro before since remembered
    exact run_of_find? ((remembered_iff _).mpr ⟨before, since, remembered, rfl⟩)
  · intro called
    rw [spared_iff_isSome, Option.isSome_iff_ne_none, not_not] at called
    have same : runner.engine = engine := engine_after start operations
    have uncached := run_of_not_find? called
    rw [same] at uncached
    exact ⟨congrArg Prod.fst uncached, congrArg (·.2.state) uncached⟩
  · intro unkept
    have disabled : runner.memo.enabled = false :=
      (enabled_after_new engine state operations).trans unkept
    rw [Memo.off, ← disabled, ← tidy disabled]

end Runner

end Scratchpad
