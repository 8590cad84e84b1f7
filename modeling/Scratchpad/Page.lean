import Scratchpad.Console
import Scratchpad.Session
import Scratchpad.Settings.Reader

/-! A session in a page. The fragment of the page's address is the slot, three functions of the page
are the engine, and events that matter appear as lines on its console.
-/

namespace Scratchpad

------------------------------------------------------------------------------------------
-- The address
------------------------------------------------------------------------------------------

/-- The fragment of an address, which is empty or starts with `#`, and how often it was written. -/
structure Address where
  hash : String
  writes : Nat
deriving DecidableEq

namespace Address

/-- The fragment that a text makes: the text behind `#`, but nothing if it is empty. -/
def fragment (text : String) : String :=
  if text.isEmpty then "" else "#" ++ text

/-- An address with a fragment, given with or without `#`, to which nothing was written. -/
def opened (hash : String) : Address :=
  ⟨fragment (withoutHash hash), 0⟩

instance : Slot Address where
  read address := address.hash
  write text address := ⟨fragment text, address.writes + 1⟩

end Address

------------------------------------------------------------------------------------------
-- The functions
------------------------------------------------------------------------------------------

/-- What a function of the page can throw: a text, or a value of another kind, of which no more is
known than how the page shows it (`null`, `undefined`, `true`, `1e-7`, `Symbol(x)`).
-/
inductive Thrown where
  | text (message : String)
  | other (shown : String)
deriving DecidableEq

/-- The message that a thrown value makes: a text as it is, and another value with a mark. -/
def Thrown.message : Thrown → String
  | text message => message
  | other shown => "JsValue(" ++ shown ++ ")"

/-- What a function of the page does with a source: it returns a text or throws. -/
abbrev PageFunctions := Stage → String → Except Thrown String

/-- The engine that the functions of the page make. A thrown value becomes an error of the stage. -/
def PageFunctions.engine (functions : PageFunctions) : Engine (Array EngineCall) :=
  .logging fun stage source =>
    (functions stage source).mapError fun thrown => .ofStage stage thrown.message

------------------------------------------------------------------------------------------
-- The console
------------------------------------------------------------------------------------------

/-- Whether an event appears on the console. -/
def Event.appears (event : Event) : Bool :=
  event.level ≠ .debug

/-- The console after an event, for which a writer is made, used once and given up. -/
def Console.event (console : Console) (event : Event) : Console :=
  if event.appears then
    ((ConsoleWriter.new console).write (event.line ++ "\n").toUTF8.data).drop
  else
    console

/-- The console after events. -/
def Console.events (console : Console) (events : List Event) : Console :=
  events.foldl Console.event console

------------------------------------------------------------------------------------------
-- Pages
------------------------------------------------------------------------------------------

/-- A session in a page. -/
abbrev PageSession := Session (Array EngineCall) Address

/-- What outlives a session in a page: the address, the calls of its functions and the console. -/
structure Page where
  address : Address
  calls : Array EngineCall
  console : Console

namespace Page

/-- A page with a fragment, in which nothing has happened. -/
def opened (hash : String) : Page :=
  ⟨.opened hash, #[], .empty⟩

/-- The page after a step of its session, which has added events. -/
def after {α : Type} (page : Page) (step : Traced α) (session : PageSession) : Page :=
  ⟨session.publisher.slot, session.runner.state, page.console.events step.events⟩

/-- Starts a session with the presets that are always there and with the settings of a JSON text,
if one is given. If it cannot be started, the address stays as it is.
-/
def start (functions : PageFunctions) (settings : Option String) (page : Page)
    : Except Error PageSession × Page :=
  match settings.elim (.ok Settings.standard) Settings.ofJson with
  | .error error => (.error error, page)
  | .ok settings =>
    let started :=
      Session.start functions.engine page.calls page.address Catalog.builtin settings
    match started.value with
    | .ok session => (.ok session, page.after started session)
    | .error error =>
      (.error error, { page with console := page.console.events started.events })

/-- Edits the text of the session. -/
def edit (text : String) (session : PageSession) (page : Page) : PageSession × Page :=
  let edited := session.edit text
  (edited.value, page.after edited edited.value)

/-- Selects a preset, if there is one of the name. -/
def select (name : String) (session : PageSession) (page : Page)
    : Except Error PageSession × Page :=
  let selected := session.select name
  match selected.value with
  | .ok session => (.ok session, page.after selected session)
  | .error error => (.error error, page.after selected session)

/-- The text of a snapshot. -/
def snapshotText (session : PageSession) : String :=
  session.snapshot.toJson.render

end Page

------------------------------------------------------------------------------------------
-- Without a session
------------------------------------------------------------------------------------------

namespace Share

/-- The token of a text, whatever its size. -/
def encode (text : String) : String :=
  Codec.standard.encode text

/-- The text of a token, which may have a `#` before it. -/
def decode (token : String) : Except Error String :=
  (Codec.standard.decode (withoutHash token)).mapError .malformedToken

/-- The version of the program. -/
def version : String := "0.1.0"

end Share

end Scratchpad
