import Scratchpad.Page.Request
import Scratchpad.Proofs.Session.Admission
import Scratchpad.Proofs.Session.Coherence

/-! A session in a page is a session like any other. Beside it stands one over a slot that holds a
text as it was written, with an engine whose errors say what the functions of the page threw: both
answer all requests alike, and the fragment of the page is what stands in the slot, behind a `#`.
-/

namespace Scratchpad

------------------------------------------------------------------------------------------
-- The session beside a page
------------------------------------------------------------------------------------------

/-- The engine that answers what the functions of a page return. What the one that reads throws is
an error of reading, and so on for types and for running.
-/
def PageFunctions.reference (functions : PageFunctions) : Engine (Array EngineCall) :=
  .logging fun
    | .ast, source =>
        match functions .ast source with
        | .ok text => .ok text
        | .error thrown => .error (.parse thrown.message)
    | .types, source =>
        match functions .types source with
        | .ok text => .ok text
        | .error thrown => .error (.type thrown.message)
    | .output, source =>
        match functions .output source with
        | .ok text => .ok text
        | .error thrown => .error (.runtime thrown.message)

/-- A session beside a page, over a slot that holds a text as it was written. -/
abbrev ReferenceSession := Session (Array EngineCall) RecordedSlot

namespace ReferenceSession

/-- Starts the session beside a page, over a slot that holds the fragment of the page. -/
def start (functions : PageFunctions) (settings : Option String) (page : Page)
    : Except Error ReferenceSession :=
  match settings.elim (.ok Settings.standard) Settings.ofJson with
  | .error error => .error error
  | .ok settings =>
    let slot := RecordedSlot.holding page.address.hash
    (Session.start functions.reference page.calls slot Catalog.builtin settings).value

/-- Answers a request. -/
def answer (request : Page.Request) (session : ReferenceSession)
    : Page.Reply × ReferenceSession :=
  match request with
  | .edit text =>
      let edited := (session.edit text).value
      (.text edited.snapshot.toJson.render, edited)
  | .select name =>
      match (session.select name).value with
      | .ok selected => (.text selected.snapshot.toJson.render, selected)
      | .error error => (.thrown error.message, session)
  | .snapshot => (.text session.snapshot.toJson.render, session)
  | .token => (.textIfAny session.publisher.token, session)
  | .url base => (.textIfAny (session.shareUrl base), session)
  | .names => (.texts session.catalog.names, session)
  | .text name =>
      match session.catalog.get name with
      | .ok text => (.text text, session)
      | .error error => (.thrown error.message, session)

end ReferenceSession

/-- What can be seen of a request: the answer, the fragment of the page after it, and the calls that
its functions have got so far.
-/
structure Exchange where
  reply : Page.Reply
  hash : String
  calls : Array EngineCall

/-- What can be seen of requests to a session in a page. -/
def Page.exchanges (session : PageSession) (page : Page) : List Page.Request → List Exchange
  | [] => []
  | request :: rest =>
      let (reply, session, page) := Page.answer request session page
      ⟨reply, page.address.hash, page.calls⟩ :: exchanges session page rest

/-- What would be seen of requests to the session beside a page: its slot would be the fragment. -/
def ReferenceSession.exchanges (session : ReferenceSession) : List Page.Request → List Exchange
  | [] => []
  | request :: rest =>
      let (reply, session) := ReferenceSession.answer request session
      ⟨reply, Address.fragment session.publisher.slot.value, session.runner.state⟩
        :: exchanges session rest

theorem PageFunctions.engine_eq (functions : PageFunctions)
    : functions.engine = functions.reference := by
  refine congrArg Engine.logging (funext fun stage => funext fun source => ?_)
  cases stage with
  | ast => simp only; cases functions .ast source <;> rfl
  | types => simp only; cases functions .types source <;> rfl
  | output => simp only; cases functions .output source <;> rfl

------------------------------------------------------------------------------------------
-- Side by side
------------------------------------------------------------------------------------------

/-- Two sessions that agree in all but their slots. -/
structure Mirrors (session : PageSession) (reference : ReferenceSession) : Prop where
  catalog : session.catalog = reference.catalog
  document : session.document = reference.document
  runner : session.runner = reference.runner
  codec : session.publisher.codec = reference.publisher.codec
  token : session.publisher.token = reference.publisher.token
  report : session.report = reference.report

/-- A page with its session, and the session beside it. -/
structure Tracks (session : PageSession) (page : Page) (reference : ReferenceSession) : Prop where
  mirrors : Mirrors session reference
  hash : session.publisher.slot.hash = Address.fragment reference.publisher.slot.value
  address : page.address = session.publisher.slot
  calls : page.calls = session.runner.state

namespace Mirrors

variable {session : PageSession} {reference : ReferenceSession}

/-- Sessions that mirror each other show the same. -/
theorem snapshot (mirrors : Mirrors session reference)
    : session.snapshot = reference.snapshot := by
  rw [Session.snapshot, Session.snapshot, mirrors.document, mirrors.report, mirrors.token,
    mirrors.catalog]

/-- Sessions that follow the same document mirror each other again, and from then on the fragment of
the page is what stands in the slot: both have just been written.
-/
theorem follow {α : Type} (mirrors : Mirrors session reference) (document : Document) (page : Page)
    (step : Traced α)
    : Tracks (session.follow document).value (page.after step (session.follow document).value)
        (reference.follow document).value := by
  have published := Session.follow_publisher session document
  have published' := Session.follow_publisher reference document
  have again : Mirrors (session.follow document).value (reference.follow document).value :=
    { catalog := mirrors.catalog
      document := rfl
      runner := congrArg (fun runner => (Runner.run document.text runner).value.2) mirrors.runner
      codec := by rw [published, published']; exact mirrors.codec
      token := by rw [published, published', mirrors.codec]
      report := congrArg (fun runner => (Runner.run document.text runner).value.1) mirrors.runner }
  refine ⟨again, ?_, rfl, rfl⟩
  rw [published, published', mirrors.codec]
  rfl

end Mirrors

------------------------------------------------------------------------------------------
-- Starts
------------------------------------------------------------------------------------------

/-- Two sessions that are started with one fragment in their slots are both refused, or have opened
the same document and followed it.
-/
theorem Session.start_tracks (engine : Engine (Array EngineCall)) (page : Page) (catalog : Catalog)
    (settings : Settings)
    : let started := start engine page.calls page.address catalog settings
      match (start engine page.calls (RecordedSlot.holding page.address.hash) catalog
        settings).value with
      | .error error => started.value = .error error
      | .ok reference => ∃ session, started.value = .ok session
          ∧ Tracks session (page.after started session) reference := by
  intro started
  rcases settings.refused_or_usable catalog with ⟨detail, refused⟩ | usable
  · rw [start_of_refused refused]
    exact congrArg Traced.value (start_of_refused refused engine page.calls page.address)
  · have valid := Settings.validate_of_low usable.level usable.limit
    obtain ⟨name, named⟩ := usable.exists_startName
    obtain ⟨preset, loaded⟩ := Settings.preset_of_startName named
    obtain ⟨⟨document, restore⟩, opened⟩ := Document.exists_startup loaded settings.codec
      (Publisher.new settings.codec page.address).readToken
    have opened' : (Document.startup catalog settings.codec name
        (Publisher.new settings.codec (RecordedSlot.holding page.address.hash)).readToken).value
          = .ok (document, restore) := opened
    have mirrors
        : Mirrors (unopened engine page.calls page.address catalog settings document restore)
          (unopened engine page.calls (RecordedSlot.holding page.address.hash) catalog settings
            document restore) :=
      ⟨rfl, rfl, rfl, rfl, rfl, rfl⟩
    rw [start_value valid named, opened']
    have followed : started.value = .ok _ := (start_value valid named).trans (by rw [opened]; rfl)
    exact ⟨_, followed, mirrors.follow document page started⟩

/-- The session beside a page is refused exactly if that of the page is, and then the page has the
address that it had; else both are side by side.
-/
theorem ReferenceSession.start_tracks (functions : PageFunctions) (settings : Option String)
    (page : Page)
    : match start functions settings page with
      | .error error => (Page.start functions settings page).1 = .error error
          ∧ (Page.start functions settings page).2.address = page.address
      | .ok reference => ∃ session opened,
          Page.start functions settings page = (.ok session, opened)
          ∧ Tracks session opened reference := by
  cases given : settings.elim (.ok Settings.standard) Settings.ofJson with
  | error error =>
      rw [start, Page.start, given]
      exact ⟨rfl, rfl⟩
  | ok settings =>
      simp only [start, Page.start, given, functions.engine_eq]
      have side := Session.start_tracks functions.reference page Catalog.builtin settings
      cases started : (Session.start functions.reference page.calls
        (RecordedSlot.holding page.address.hash) Catalog.builtin settings).value with
      | error error =>
          rw [started] at side
          rw [side]
          exact ⟨rfl, rfl⟩
      | ok reference =>
          rw [started] at side
          obtain ⟨session, started, tracks⟩ := side
          rw [started]
          exact ⟨session, _, rfl, tracks⟩

namespace Tracks

variable {session : PageSession} {page : Page} {reference : ReferenceSession}

theorem snapshotText (tracks : Tracks session page reference)
    : Page.snapshotText session = reference.snapshot.toJson.render := by
  rw [Page.snapshotText, tracks.mirrors.snapshot]

/-- A request is answered alike by both, and they stay side by side. -/
theorem answer (tracks : Tracks session page reference) (request : Page.Request)
    : (Page.answer request session page).1 = (ReferenceSession.answer request reference).1
      ∧ Tracks (Page.answer request session page).2.1 (Page.answer request session page).2.2
          (ReferenceSession.answer request reference).2 := by
  cases request with
  | edit text =>
      have follows := tracks.mirrors.follow (.edited text) page (session.edit text)
      exact ⟨congrArg Page.Reply.text follows.snapshotText, follows⟩
  | select name =>
      rw [Page.answer, ReferenceSession.answer, Page.select, Session.select_value,
        Session.select_value, tracks.mirrors.catalog]
      cases Document.preset reference.catalog name with
      | error error =>
          exact ⟨rfl, ⟨tracks.mirrors, tracks.hash, rfl, rfl⟩⟩
      | ok document =>
          have follows := tracks.mirrors.follow document page (session.select name)
          exact ⟨congrArg Page.Reply.text follows.snapshotText, follows⟩
  | snapshot => exact ⟨congrArg Page.Reply.text tracks.snapshotText, tracks⟩
  | token => exact ⟨congrArg Page.Reply.textIfAny tracks.mirrors.token, tracks⟩
  | url base =>
      refine ⟨congrArg Page.Reply.textIfAny ?_, tracks⟩
      rw [Session.shareUrl, Session.shareUrl, Publisher.shareUrl, Publisher.shareUrl,
        tracks.mirrors.token]
  | names =>
      refine ⟨congrArg Page.Reply.texts ?_, tracks⟩
      rw [tracks.mirrors.catalog]
  | text name =>
      rw [Page.answer, ReferenceSession.answer, tracks.mirrors.catalog]
      cases reference.catalog.get name <;> exact ⟨rfl, tracks⟩

/-- Side by side, all requests are seen to do the same, by induction over them. -/
theorem exchanges (tracks : Tracks session page reference) (requests : List Page.Request)
    : Page.exchanges session page requests = reference.exchanges requests := by
  induction requests generalizing session page reference with
  | nil => rfl
  | cons request rest hyp =>
      obtain ⟨reply, next⟩ := tracks.answer request
      rw [Page.exchanges, ReferenceSession.exchanges]
      simp only [hyp next, reply, next.address, next.hash, next.calls, next.mirrors.runner]

end Tracks

/-- A session in a page does what the session beside it does. It cannot be started exactly if that
one cannot, for the same reason, and then the address stays as it is; else the fragment of the page
is what stands in the slot of the other, at start and after every request, and all requests are
answered alike.
-/
theorem Page.start_refines (functions : PageFunctions) (settings : Option String) (page : Page)
    : match ReferenceSession.start functions settings page with
      | .error error => (start functions settings page).1 = .error error
          ∧ (start functions settings page).2.address = page.address
      | .ok reference => ∃ session opened,
          start functions settings page = (.ok session, opened)
          ∧ opened.address.hash = Address.fragment reference.publisher.slot.value
          ∧ opened.calls = reference.runner.state
          ∧ ∀ requests, exchanges session opened requests = reference.exchanges requests := by
  have side := ReferenceSession.start_tracks functions settings page
  cases started : ReferenceSession.start functions settings page with
  | error error =>
      rw [started] at side
      exact side
  | ok reference =>
      rw [started] at side
      obtain ⟨session, opened, started, tracks⟩ := side
      refine ⟨session, opened, started, ?_, ?_, tracks.exchanges⟩
      · rw [tracks.address]
        exact tracks.hash
      · rw [tracks.calls, tracks.mirrors.runner]

end Scratchpad
