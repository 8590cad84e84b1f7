import Mathlib.Data.List.Forall2
import Scratchpad.Proofs.Runner.Calls
import Scratchpad.Proofs.Session.Coherence

/-! What a session shows does not depend on whether reports are kept, nor on how well tokens are
compressed. Two sessions that differ in these go through the same documents and reports; only the
letters of their tokens differ, and the one that keeps reports spares its engine the calls for a
text that comes twice in a row.
-/

namespace Scratchpad

------------------------------------------------------------------------------------------
-- Tokens
------------------------------------------------------------------------------------------

namespace Codec

/-- The level of a codec plays no part in what it decodes. -/
theorem decode_eq_of_limit {first second : Codec} (same : first.limit = second.limit)
    (token : String)
    : first.decode token = second.decode token := by
  rw [decode, decode, same]

theorem isSome_token?_of_limit {first second : Codec} (same : first.limit = second.limit)
    (text : String)
    : (first.token? text).isSome = (second.token? text).isSome := by
  rw [token?, token?, same]
  split <;> rfl

/-- What two codecs wrote for one text: to every reader it is the same. It is nothing in both cases,
or both read the one text in it; and codecs of one level wrote the same.
-/
structure SameEntry (first second : Codec) (written written' : String) : Prop where
  read : ∀ reader : Codec, reader.decode written = reader.decode written'
  text
    : written = "" ∧ written' = ""
      ∨ ∃ text, first.decode written = .ok text ∧ second.decode written' = .ok text
  verbatim : first.level = second.level → written = written'

/-- Codecs of one limit write the same for every text, or nothing. -/
theorem sameEntry_entry {first second : Codec} (same : first.limit = second.limit) (text : String)
    : SameEntry first second (first.entry text) (second.entry text) := by
  by_cases fits : text.utf8ByteSize ≤ first.limit
  · have fits' : text.utf8ByteSize ≤ second.limit := same ▸ fits
    rw [entry_of_fits fits, entry_of_fits fits']
    refine ⟨fun reader => ?_, .inr ⟨text, ?_, ?_⟩, fun level => ?_⟩
    · rw [decode_encode, decode_encode]
    · rw [decode_encode, if_pos fits]
    · rw [decode_encode, if_pos fits']
    · rw [encode, encode, level]
  · have large : ¬ text.utf8ByteSize ≤ second.limit := same ▸ fits
    rw [entry_of_large fits, entry_of_large large]
    exact ⟨fun _ => rfl, .inl ⟨rfl, rfl⟩, fun _ => rfl⟩

end Codec

theorem Document.startup_eq_of_limit {first second : Codec} (same : first.limit = second.limit)
    (catalog : Catalog) (name : String) (token : Option String)
    : startup catalog first name token = startup catalog second name token := by
  simp only [startup, restore, Codec.decode_eq_of_limit same]

namespace Session

------------------------------------------------------------------------------------------
-- Two sessions side by side
------------------------------------------------------------------------------------------

section

variable {σ : Type}

/-- Two sessions over one engine that are alike in all but what they keep and what they write. -/
structure Alike (engine : Engine σ) (first second : Session σ RecordedSlot) : Prop where
  catalog : first.catalog = second.catalog
  document : first.document = second.document
  restore : first.restore = second.restore
  reported : Reported engine first
  reported' : Reported engine second

variable {engine : Engine σ} {first second : Session σ RecordedSlot}

/-- Alike sessions have the same report, as both have that of an uncached run on the one text. -/
theorem Alike.report (alike : Alike engine first second)
    : first.report = second.report := by
  rw [alike.reported.report first.runner.state, alike.document]
  exact (alike.reported'.report first.runner.state).symm

/-- Sessions that were alike are alike again when they have followed the same document. -/
theorem Alike.follow (stateless : engine.Stateless) (alike : Alike engine first second)
    (document : Document)
    : Alike engine (first.follow document).value (second.follow document).value where
  catalog := alike.catalog
  document := rfl
  restore := alike.restore
  reported := reported_follow stateless alike.reported.engine alike.reported.fresh document
  reported' := reported_follow stateless alike.reported'.engine alike.reported'.fresh document

/-- Alike sessions answer all actions alike, bring the same texts and are alike afterwards, by
induction over the actions: of each action either both are refused or both follow one document.
-/
theorem Alike.run (stateless : engine.Stateless) (alike : Alike engine first second)
    (actions : List Action)
    : Alike engine (first.after actions) (second.after actions)
      ∧ (first.steps actions).map Step.answer = (second.steps actions).map Step.answer
      ∧ first.texts actions = second.texts actions := by
  induction actions generalizing first second with
  | nil => exact ⟨alike, rfl, rfl⟩
  | cons action rest ih =>
      cases asked : action.document second.catalog with
      | error error =>
          have left := apply_of_error (alike.catalog ▸ asked : action.document first.catalog = _)
          have right := apply_of_error asked
          obtain ⟨later, answers, sameTexts⟩ := ih alike
          simp only [after, steps, texts, left, right, List.map_cons]
          exact ⟨later, by rw [answers], sameTexts⟩
      | ok document =>
          have left := apply_of_document (alike.catalog ▸ asked : action.document first.catalog = _)
          have right := apply_of_document asked
          have next := alike.follow stateless document
          obtain ⟨later, answers, sameTexts⟩ := ih next
          simp only [after, steps, texts, left, right, List.map_cons]
          exact ⟨later, by rw [answers, next.report], by rw [sameTexts, next.document]⟩

/-- Settings that pass the checks and differ only in whether reports are kept and in the level are
refused alike or start alike sessions.
-/
theorem alike_start (stateless : engine.Stateless) (state : σ) (slot : RecordedSlot)
    (catalog : Catalog) {settings other : Settings} (valid : settings.validate = .ok ())
    (valid' : other.validate = .ok ()) (preset : other.defaultPreset = settings.defaultPreset)
    (limit : other.maxDecodedBytes = settings.maxDecodedBytes)
    : (∃ error,
        (start engine state slot catalog settings).value = .error error
        ∧ (start engine state slot catalog other).value = .error error)
      ∨ ∃ first second,
        (start engine state slot catalog settings).value = .ok first
        ∧ (start engine state slot catalog other).value = .ok second
        ∧ Alike engine first second := by
  have sameName : other.startName catalog = settings.startName catalog := by
    rw [Settings.startName, Settings.startName, preset]
  cases named : settings.startName catalog with
  | error error =>
      rw [named] at sameName
      refine .inl ⟨error, ?_, ?_⟩
      · rw [start_of_unnamed valid named]
      · rw [start_of_unnamed valid' sameName]
  | ok name =>
      rw [named] at sameName
      have sameLimit : other.codec.limit = settings.codec.limit := congrArg UInt64.toNat limit
      obtain ⟨document, loaded⟩ := Settings.preset_of_startName named
      obtain ⟨⟨opened, restore⟩, startup⟩ := Document.exists_startup loaded settings.codec
        (Publisher.new settings.codec slot).readToken
      have startup'
          : (Document.startup catalog other.codec name
              (Publisher.new other.codec slot).readToken).value = .ok (opened, restore) := by
        rw [Document.startup_eq_of_limit sameLimit]
        exact startup
      rw [start_value valid named, startup, start_value valid' sameName, startup']
      refine .inr ⟨_, _, rfl, rfl, rfl, rfl, rfl, ?_, ?_⟩
      · exact reported_follow stateless rfl (Runner.fresh_new engine state settings.memoize) opened
      · exact reported_follow stateless rfl (Runner.fresh_new engine state other.memoize) opened

/-- All that is written after a start over a slot to which nothing was written: the entries for the
text at start and for those that the actions bring.
-/
theorem writes_of_start {state : σ} {content : String} {catalog : Catalog} {settings : Settings}
    {session : Session σ RecordedSlot}
    (started
      : (start engine state (RecordedSlot.holding content) catalog settings).value = .ok session)
    (actions : List Action)
    : (session.after actions).publisher.slot.writes.toList
      = (session.document.text :: session.texts actions).map settings.codec.entry := by
  have initial : Published settings.codec session := published_after started []
  rw [writes_after initial.codec, writes_start started]
  rfl

end

------------------------------------------------------------------------------------------
-- The calls of a session
------------------------------------------------------------------------------------------

section

variable {τ : Type} [Slot τ] {answer : Stage → String → Answer}

/-- The engine of a session that keeps the report on its text logs the calls for the texts that
actions bring, but for those that repeat the text before; by induction over the actions.
-/
theorem calls_after {memoize : Bool} {session : Session (Array EngineCall) τ}
    (engine : session.runner.engine = .logging answer)
    (memo
      : session.runner.memo = .ofLatest memoize (some (session.document.text, session.report)))
    (actions : List Action)
    : (session.after actions).runner.state.toList
      = session.runner.state.toList
        ++ (Runner.executed memoize (some session.document.text)
            (session.texts actions)).flatMap (Engine.callsOn answer) := by
  induction actions generalizing session with
  | nil => cases memoize <;> simp [after, texts, Runner.executed, withoutRepeats]
  | cons action rest ih =>
      cases asked : action.document session.catalog with
      | error error =>
          simp only [after, texts, apply_of_error asked]
          exact ih engine memo
      | ok document =>
          let next := (session.follow document).value
          have later := @ih next ((session.runner.engine_run document.text).trans engine)
            (Runner.memo_run memo document.text)
          simp only [after, texts, apply_of_document asked]
          rw [later]
          exact Runner.calls_run engine memo document.text (next.texts rest)

/-- The same after a start, at which the engine is called for the first text in any case. -/
theorem calls_of_start {calls : Array EngineCall} {slot : τ} {catalog : Catalog}
    {settings : Settings} {session : Session (Array EngineCall) τ}
    (started : (start (.logging answer) calls slot catalog settings).value = .ok session)
    (actions : List Action)
    : (session.after actions).runner.state.toList
      = calls.toList
        ++ (Runner.executed settings.memoize none
            (session.document.text :: session.texts actions)).flatMap (Engine.callsOn answer) := by
  obtain ⟨name, document, restore, -, -, -, rfl⟩ := follow_of_start started
  let before := unopened (.logging answer) calls slot catalog settings document restore
  have memo : before.runner.memo = .ofLatest settings.memoize none :=
    Runner.memo_new (.logging answer) calls settings.memoize
  rw [calls_after (before.runner.engine_run document.text) (Runner.memo_run memo document.text)]
  exact Runner.calls_run rfl memo document.text _

end

------------------------------------------------------------------------------------------
-- All that can be seen
------------------------------------------------------------------------------------------

/-- Whether reports are kept and at what level tokens are compressed cannot be seen, over an engine
whose answers are functions of the stage and the source. Two sessions that differ in these are
refused alike or are started alike, and then they give the same answers to all actions and have the
same documents, reports, outcomes of the start and catalogs. Their entries in the slot stand for the
same texts. The engine logs the calls for all texts if no reports are kept, and if they are, then
those for the texts that do not repeat the one right before them.
-/
theorem indifferent_to_memo_and_level (answer : Stage → String → Answer) (content : String)
    (catalog : Catalog) (settings : Settings) (memoize : Bool) (level : UInt8)
    (valid : settings.validate = .ok ())
    (valid' : { settings with memoize, compressionLevel := level }.validate = .ok ())
    : let engine := Engine.logging answer
      let slot := RecordedSlot.holding content
      let other : Settings := { settings with memoize, compressionLevel := level }
      (∃ error,
        (start engine #[] slot catalog settings).value = .error error
        ∧ (start engine #[] slot catalog other).value = .error error)
      ∨ ∃ first second,
        (start engine #[] slot catalog settings).value = .ok first
        ∧ (start engine #[] slot catalog other).value = .ok second
        ∧ ∀ actions,
          let left := first.after actions
          let right := second.after actions
          let texts := first.document.text :: first.texts actions
          (first.steps actions).map Step.answer = (second.steps actions).map Step.answer
          ∧ left.document = right.document
          ∧ left.restore = right.restore
          ∧ left.report = right.report
          ∧ left.catalog = right.catalog
          ∧ left.publisher.token.isSome = right.publisher.token.isSome
          ∧ List.Forall₂ (Codec.SameEntry settings.codec other.codec)
              left.publisher.slot.writes.toList right.publisher.slot.writes.toList
          ∧ left.runner.state.toList
            = (if settings.memoize then withoutRepeats none texts else texts).flatMap
                (Engine.callsOn answer)
          ∧ right.runner.state.toList
            = (if memoize then withoutRepeats none texts else texts).flatMap
                (Engine.callsOn answer) := by
  intro engine slot other
  have stateless : engine.Stateless := Engine.stateless_logging answer
  have limit : settings.codec.limit = other.codec.limit := rfl
  rcases alike_start stateless #[] slot catalog valid valid' rfl rfl
    with refused | ⟨first, second, started, started', alike⟩
  · exact .inl refused
  · refine .inr ⟨first, second, started, started', fun actions => ?_⟩
    obtain ⟨later, answers, sameTexts⟩ := alike.run stateless actions
    refine ⟨answers, later.document, later.restore, later.report, later.catalog, ?_, ?_,
      calls_of_start started actions, ?_⟩
    · rw [(published_after started actions).token, (published_after started' actions).token,
        later.document]
      exact Codec.isSome_token?_of_limit limit _
    · rw [writes_of_start started, writes_of_start started', alike.document, sameTexts,
        List.forall₂_map_left_iff, List.forall₂_map_right_iff]
      exact List.forall₂_same.mpr fun text _ => Codec.sameEntry_entry limit text
    · rw [alike.document, sameTexts]
      exact calls_of_start started' actions

/-- An edit to the text that is there already costs a session its three calls, unless it keeps the
report.
-/
theorem indifferent_to_repeated_edit
    : let answer : Stage → String → Answer := fun _ source => .ok source
      let other : Settings := { Settings.standard with memoize := false, compressionLevel := 3 }
      let greeting := Catalog.helloWorld.text
      let actions : List Action := [.edit "1", .select "missing", .edit "1"]
      Settings.standard.validate = .ok ()
      ∧ other.validate = .ok ()
      ∧ ∃ first second,
          (start (.logging answer) #[] (RecordedSlot.holding "") .builtin .standard).value
            = .ok first
          ∧ (start (.logging answer) #[] (RecordedSlot.holding "") .builtin other).value
            = .ok second
          ∧ (first.after actions).report = (second.after actions).report
          ∧ (first.after actions).runner.state.toList
            = [greeting, "1"].flatMap (Engine.callsOn answer)
          ∧ (second.after actions).runner.state.toList
            = [greeting, "1", "1"].flatMap (Engine.callsOn answer) := by
  intro answer other greeting actions
  have valid : Settings.standard.validate = .ok () := rfl
  have valid' : other.validate = .ok () := rfl
  have starts
      : (start (.logging answer) #[] (RecordedSlot.holding "") .builtin .standard).value = .ok _ :=
    rfl
  rcases indifferent_to_memo_and_level answer "" .builtin .standard false 3 valid valid'
    with ⟨error, failed, -⟩ | ⟨first, second, started, started', same⟩
  · cases failed.symm.trans starts
  · obtain ⟨-, -, -, report, -, -, -, calls, calls'⟩ := same actions
    obtain rfl := Except.ok.inj (starts.symm.trans started)
    exact ⟨valid, valid', _, second, started, started', report, calls, calls'⟩

end Session

end Scratchpad
