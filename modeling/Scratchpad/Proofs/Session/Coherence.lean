import Scratchpad.Proofs.Runner.Freshness
import Scratchpad.Proofs.Session.Runs
import Scratchpad.Proofs.Share.Publishing

/-! Everything that a session derives from its document agrees with it, after every run. What is
published does not depend on the engine; the report does, and needs answers that do not change.
-/

namespace Scratchpad.Session

variable {σ : Type}

------------------------------------------------------------------------------------------
-- What is published
------------------------------------------------------------------------------------------

/-- The token and the slot are those of the text, by a codec that stays the same. -/
structure Published (codec : Codec) (session : Session σ RecordedSlot) : Prop where
  token : session.publisher.token = codec.token? session.document.text
  slot : session.publisher.slot.value = codec.entry session.document.text
  codec : session.publisher.codec = codec

theorem follow_publisher {τ : Type} [Slot τ] (session : Session σ τ) (document : Document)
    : (session.follow document).value.publisher
      = { session.publisher with
          slot := Slot.write (session.publisher.codec.entry document.text) session.publisher.slot
          token := session.publisher.codec.token? document.text } :=
  Publisher.publish_value document.text session.publisher

/-- A document that is followed is published, whatever was published before. -/
theorem published_follow {codec : Codec} {session : Session σ RecordedSlot}
    (same : session.publisher.codec = codec) (document : Document)
    : Published codec (session.follow document).value := by
  subst same
  constructor <;> rw [follow_publisher] <;> rfl

/-- After a start and any actions, whatever the engine, the text is published. -/
theorem published_after {engine : Engine σ} {state : σ} {slot : RecordedSlot} {catalog : Catalog}
    {settings : Settings} {session : Session σ RecordedSlot}
    (started : (start engine state slot catalog settings).value = .ok session)
    (actions : List Action)
    : Published settings.codec (session.after actions) := by
  refine after_of_start started (fun document restore => ?_) (fun before document published => ?_)
    actions
  · have codec
        : (unopened engine state slot catalog settings document restore).publisher.codec
          = settings.codec := rfl
    exact published_follow codec document
  · exact published_follow published.codec document

/-- Following a document writes the entry for its text to the slot, once. -/
theorem writes_follow (session : Session σ RecordedSlot) (document : Document)
    : (session.follow document).value.publisher.slot.writes.toList
      = session.publisher.slot.writes.toList
        ++ [session.publisher.codec.entry document.text] := by
  rw [follow_publisher]
  exact Array.toList_push

/-- One entry is written for each text that an action brings, and nothing else; by induction over
the actions.
-/
theorem writes_after {codec : Codec} {session : Session σ RecordedSlot}
    (same : session.publisher.codec = codec) (actions : List Action)
    : (session.after actions).publisher.slot.writes.toList
      = session.publisher.slot.writes.toList ++ (session.texts actions).map codec.entry := by
  induction actions generalizing session with
  | nil => simp [after, texts]
  | cons action rest ih =>
      rw [after, texts, apply_value]
      cases action.document session.catalog with
      | error error => exact ih same
      | ok document =>
          have next := published_follow same document
          have text : (session.follow document).value.document.text = document.text := rfl
          simp only [ih next.codec, writes_follow, same, text, List.map_cons, List.append_assoc,
            List.singleton_append]

------------------------------------------------------------------------------------------
-- What is reported
------------------------------------------------------------------------------------------

/-- The report is that of an uncached run on the text, and so is what the runner keeps. -/
structure Reported (engine : Engine σ) (session : Session σ RecordedSlot) : Prop where
  report : engine.Reports session.document.text session.report
  fresh : session.runner.Fresh
  engine : session.runner.engine = engine

/-- A document that is followed is reported on, as long as what is kept is fresh. -/
theorem reported_follow {engine : Engine σ} {session : Session σ RecordedSlot}
    (stateless : engine.Stateless) (same : session.runner.engine = engine)
    (fresh : session.runner.Fresh) (document : Document)
    : Reported engine (session.follow document).value := by
  subst same
  obtain ⟨reports, engine, fresh⟩ := Runner.run_fresh stateless fresh document.text
  exact ⟨reports, fresh, engine⟩

/-- After a start and any actions over a stateless engine, the text is reported on. -/
theorem reported_after {engine : Engine σ} {state : σ} {slot : RecordedSlot} {catalog : Catalog}
    {settings : Settings} {session : Session σ RecordedSlot} (stateless : engine.Stateless)
    (started : (start engine state slot catalog settings).value = .ok session)
    (actions : List Action)
    : Reported engine (session.after actions) := by
  refine after_of_start started (fun document restore => ?_) (fun before document reported => ?_)
    actions
  · have same
        : (unopened engine state slot catalog settings document restore).runner.engine = engine :=
      rfl
    have fresh := Runner.fresh_new engine state settings.memoize
    exact reported_follow stateless same fresh document
  · exact reported_follow stateless reported.engine reported.fresh document

------------------------------------------------------------------------------------------
-- All of a session
------------------------------------------------------------------------------------------

/-- The catalog of a session is the one it was started with. -/
theorem catalog_after {engine : Engine σ} {state : σ} {slot : RecordedSlot} {catalog : Catalog}
    {settings : Settings} {session : Session σ RecordedSlot}
    (started : (start engine state slot catalog settings).value = .ok session)
    (actions : List Action)
    : (session.after actions).catalog = catalog := by
  obtain ⟨name, document, restore, -, -, -, rfl⟩ := follow_of_start started
  exact after_catalog _ actions

/-- At start one entry is written to the slot, for the text that the session is started with. -/
theorem writes_start {engine : Engine σ} {state : σ} {slot : RecordedSlot} {catalog : Catalog}
    {settings : Settings} {session : Session σ RecordedSlot}
    (started : (start engine state slot catalog settings).value = .ok session)
    : session.publisher.slot.writes.toList
      = slot.writes.toList ++ [settings.codec.entry session.document.text] := by
  obtain ⟨name, document, restore, -, -, -, rfl⟩ := follow_of_start started
  rw [writes_follow]
  rfl

/-- After every run of actions, refused ones included, all that a session shows is that of its text
alone: the report is that of an uncached run, the token is there if the text is within the limit,
and the slot holds it. The slot was written once at start and once for each text since.
-/
theorem coherent_after {engine : Engine σ} {state : σ} {content : String} {catalog : Catalog}
    {settings : Settings} {session : Session σ RecordedSlot} (stateless : engine.Stateless)
    (started
      : (start engine state (RecordedSlot.holding content) catalog settings).value = .ok session)
    (actions : List Action)
    : let current := session.after actions
      let text := current.document.text
      (∀ state, current.report = (engine.execute text state).value.1)
      ∧ current.publisher.token
        = (if text.utf8ByteSize ≤ settings.maxDecodedBytes.toNat then
            some (settings.codec.encode text)
          else
            none)
      ∧ current.publisher.slot.value = current.publisher.token.getD ""
      ∧ current.snapshot
        = ⟨current.document, current.report, current.publisher.token, catalog.names⟩
      ∧ current.publisher.slot.writes.toList
        = (session.document.text :: session.texts actions).map settings.codec.entry := by
  have published := published_after started actions
  have initial : Published settings.codec session := published_after started []
  have writes := writes_after initial.codec actions
  rw [writes_start started] at writes
  refine ⟨(reported_after stateless started actions).report, published.token, ?_, ?_, writes⟩
  · rw [published.slot, published.token]
    rfl
  · rw [snapshot, catalog_after started actions]

/-- An edit and a refused selection leave two entries, and a report on the edited text. -/
theorem coherent_after_refusal
    : let engine : Engine Unit := .ofFunction fun _ source => .ok source
      let actions : List Action := [.edit "1", .select "missing"]
      engine.Stateless
      ∧ ∃ session,
          (start engine () (RecordedSlot.holding "") .builtin .standard).value = .ok session
          ∧ (session.after actions).report = ⟨.success "1", .success "1", .success "1"⟩
          ∧ (session.after actions).publisher.slot.writes.toList
            = [Settings.standard.codec.entry Catalog.helloWorld.text,
                Settings.standard.codec.entry "1"] := by
  intro engine actions
  have stateless : engine.Stateless := fun _ _ _ _ => rfl
  have started
      : (start engine () (RecordedSlot.holding "") .builtin .standard).value = .ok _ := rfl
  obtain ⟨report, -, -, -, writes⟩ := coherent_after stateless started actions
  exact ⟨stateless, _, started, report (), writes⟩

end Scratchpad.Session
