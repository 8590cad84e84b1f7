import Scratchpad.Page

/-! What scripts ask of a session in a page. Each request is answered with texts, or with a message
that is thrown.
-/

namespace Scratchpad.Page

/-- What a script asks of a session. -/
inductive Request where
  | edit (text : String)
  | select (name : String)
  | snapshot
  | token
  | url (base : String)
  | names
  | text (name : String)
deriving DecidableEq

/-- What a script is answered. -/
inductive Reply where
  | text (text : String)
  | textIfAny (text : Option String)
  | texts (texts : List String)
  | thrown (message : String)
deriving DecidableEq

/-- Answers a request, with the session and the page after it. Whoever changes the document is
answered with a snapshot.
-/
def answer (request : Request) (session : PageSession) (page : Page)
    : Reply × PageSession × Page :=
  match request with
  | .edit text =>
      let (session, page) := edit text session page
      (.text (snapshotText session), session, page)
  | .select name =>
      match select name session page with
      | (.ok session, page) => (.text (snapshotText session), session, page)
      | (.error error, page) => (.thrown error.message, session, page)
  | .snapshot => (.text (snapshotText session), session, page)
  | .token => (.textIfAny session.publisher.token, session, page)
  | .url base => (.textIfAny (session.shareUrl base), session, page)
  | .names => (.texts session.catalog.names, session, page)
  | .text name =>
      match session.catalog.get name with
      | .ok text => (.text text, session, page)
      | .error error => (.thrown error.message, session, page)

end Scratchpad.Page
