import Scratchpad.Catalog.Builtin
import Scratchpad.Document
import Scratchpad.Runner
import Scratchpad.Settings
import Scratchpad.Share.Publisher

/-! Sessions. A session holds a document and all that depends on it: the report of the engine, and
the token in the slot. Whenever the document changes, both follow before anything else happens.
-/

namespace Scratchpad

/-- A document with the report on it, its publisher, and the catalog to select presets from. -/
structure Session (σ τ : Type) where
  catalog : Catalog
  document : Document
  runner : Runner σ
  publisher : Publisher τ
  report : Report
  restore : RestoreOutcome

/-- What a user does. -/
inductive Action where
  | edit (text : String)
  | select (name : String)
deriving DecidableEq

/-- What is shown of a session. -/
structure Snapshot where
  document : Document
  report : Report
  token : Option String
  examples : List String
deriving DecidableEq

/-- A snapshot as a JSON value. -/
def Snapshot.toJson (snapshot : Snapshot) : Json :=
  .object
    [ ("document", snapshot.document.toJson),
      ("result", snapshot.report.toJson),
      ("token", .ofOption snapshot.token),
      ("examples", .array (snapshot.examples.map .string)) ]

namespace Session

variable {σ τ : Type} [Slot τ]

/-- Opens a session with what was read as the token: it is restored, or else a preset is loaded. The
report and the token follow before the session is given.
-/
def opening (engine : Engine σ) (state : σ) (publisher : Publisher τ) (catalog : Catalog)
    (settings : Settings) (name : String) (token : Option String)
    : Traced (Except Error (Session σ τ)) := do
  match ← Document.startup catalog settings.codec name token with
  | .error error => return .error error
  | .ok (document, restore) =>
    Traced.log (.started document.provenance)
    let runner := (Runner.new engine state).withMemo settings.memoize
    let (report, runner) ← runner.run document.text
    let publisher ← publisher.publish document.text
    return .ok ⟨catalog, document, runner, publisher, report, restore⟩

/-- Starts a session, with an action that reads the token in the slot. Settings and preset are
judged before that, and a start that is refused there has not used the slot or the engine, so
nothing but the error is given back.
-/
def startReading {m : Type → Type} [Monad m] (readToken : Publisher τ → m (Option String))
    (engine : Engine σ) (state : σ) (slot : τ) (catalog : Catalog) (settings : Settings)
    : m (Traced (Except Error (Session σ τ))) :=
  match settings.validate, settings.startName catalog with
  | .error error, _ => pure (pure (.error error))
  | .ok (), .error error => pure (pure (.error error))
  | .ok (), .ok name => do
    let publisher := Publisher.new settings.codec slot
    let token ← readToken publisher
    return opening engine state publisher catalog settings name token

/-- Starts a session. The slot is read once, if the settings can be used. -/
def start (engine : Engine σ) (state : σ) (slot : τ) (catalog : Catalog) (settings : Settings)
    : Traced (Except Error (Session σ τ)) :=
  Id.run (startReading (fun publisher => pure publisher.readToken) engine state slot catalog
    settings)

/-- Starts a session with the presets and settings that hold unless others are given. -/
def startStandard (engine : Engine σ) (state : σ) (slot : τ)
    : Traced (Except Error (Session σ τ)) :=
  start engine state slot .builtin .standard

/-- The session after its document has become another: the report and the token follow. -/
def follow (document : Document) (session : Session σ τ) : Traced (Session σ τ) := do
  let (report, runner) ← session.runner.run document.text
  let publisher ← session.publisher.publish document.text
  return { session with document, runner, publisher, report }

/-- The session after an edit to a text. -/
def edit (text : String) (session : Session σ τ) : Traced (Session σ τ) :=
  session.follow (.edited text)

/-- The session after the preset of a name was selected. The name is looked up before anything of
the session is touched, so that there is nothing to give back with the error if there is no such
preset.
-/
def select (name : String) (session : Session σ τ) : Traced (Except Error (Session σ τ)) := do
  match ← Document.select session.catalog name with
  | .error error => return .error error
  | .ok document => return .ok (← session.follow document)

/-- The session after an action, and the error if it was refused, which changes nothing. -/
def apply (action : Action) (session : Session σ τ)
    : Traced (Session σ τ × Except Error Report) := do
  match action with
  | .edit text =>
    let session ← session.edit text
    return (session, .ok session.report)
  | .select name =>
    match ← session.select name with
    | .error error => return (session, .error error)
    | .ok session => return (session, .ok session.report)

omit [Slot τ] in
/-- What is shown of a session. -/
def snapshot (session : Session σ τ) : Snapshot :=
  ⟨session.document, session.report, session.publisher.token, session.catalog.names⟩

omit [Slot τ] in
/-- An address that restores the text of the session, if it is not too large. -/
def shareUrl (base : String) (session : Session σ τ) : Option String :=
  session.publisher.shareUrl base

end Session

end Scratchpad
