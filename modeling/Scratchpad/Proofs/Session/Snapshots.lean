import Scratchpad.Proofs.Json.Reader
import Scratchpad.Session

/-! The text of a snapshot. It is that of a JSON object, and it holds all of the snapshot: a reader
gives back the snapshot from it, so that no other snapshot has the same text.
-/

namespace Scratchpad

------------------------------------------------------------------------------------------
-- Parts of a JSON value
------------------------------------------------------------------------------------------

namespace Json

/-- The value of the first member of a name. -/
def member? (name : String) : Json → Option Json
  | object members => (members.find? (·.1 == name)).map (·.2)
  | _ => none

/-- The text of a string. -/
def text? : Json → Option String
  | string text => some text
  | _ => none

/-- The text of a string, if it is not `null`. -/
def optionalText? : Json → Option (Option String)
  | null => some none
  | string text => some (some text)
  | _ => none

/-- The texts of an array of strings. -/
def texts? : Json → Option (List String)
  | array items => items.mapM text?
  | _ => none

theorem optionalText?_ofOption (value : Option String)
    : (ofOption value).optionalText? = some value := by
  cases value <;> rfl

theorem texts?_map_string (texts : List String)
    : (array (texts.map string)).texts? = some texts := by
  rw [texts?, List.mapM_map]
  induction texts with
  | nil => rfl
  | cons text texts hyp =>
    rw [List.mapM_cons, hyp]
    rfl

end Json

------------------------------------------------------------------------------------------
-- Parts of a snapshot
------------------------------------------------------------------------------------------

/-- The outcome of a JSON value. A stage that was not reached has no text. -/
def Outcome.ofJson? (json : Json) : Option Outcome := do
  let status ← (← json.member? "status").text?
  if status = "success" then
    return success (← (← json.member? "text").text?)
  else if status = "failure" then
    return failure (← (← json.member? "text").text?)
  else if status = "not_run" then
    return notRun
  else
    none

theorem Outcome.ofJson?_toJson (outcome : Outcome)
    : ofJson? outcome.toJson = some outcome := by
  cases outcome <;> rfl

/-- The report of a JSON value. -/
def Report.ofJson? (json : Json) : Option Report := do
  let ast ← Outcome.ofJson? (← json.member? Stage.ast.name)
  let types ← Outcome.ofJson? (← json.member? Stage.types.name)
  let output ← Outcome.ofJson? (← json.member? Stage.output.name)
  return ⟨ast, types, output⟩

theorem Report.ofJson?_toJson (report : Report)
    : ofJson? report.toJson = some report := by
  have parts : ∀ stage : Stage,
      report.toJson.member? stage.name = some (report.get stage).toJson := by
    rintro (_ | _ | _) <;> rfl
  simp only [ofJson?, parts, Option.bind_eq_bind, Option.bind_some, Outcome.ofJson?_toJson]
  rfl

/-- The provenance of a JSON value. Only a preset has a name. -/
def Provenance.ofJson? (json : Json) : Option Provenance := do
  let kind ← (← json.member? "kind").text?
  if kind = "preset" then
    return preset (← (← json.member? "name").text?)
  else if kind = "custom" then
    return custom
  else if kind = "restored" then
    return restored
  else
    none

theorem Provenance.ofJson?_toJson (provenance : Provenance)
    : ofJson? provenance.toJson = some provenance := by
  cases provenance <;> rfl

/-- The document of a JSON value. -/
def Document.ofJson? (json : Json) : Option Document := do
  let text ← (← json.member? "text").text?
  let provenance ← Provenance.ofJson? (← json.member? "provenance")
  return ⟨text, provenance⟩

theorem Document.ofJson?_toJson (document : Document)
    : ofJson? document.toJson = some document := by
  have text : document.toJson.member? "text" = some (.string document.text) := rfl
  have provenance : document.toJson.member? "provenance" = some document.provenance.toJson := rfl
  simp only [ofJson?, text, provenance, Option.bind_eq_bind, Option.bind_some, Json.text?,
    Provenance.ofJson?_toJson]
  rfl

------------------------------------------------------------------------------------------
-- Snapshots
------------------------------------------------------------------------------------------

namespace Snapshot

/-- The snapshot of a JSON value. -/
def ofJson? (json : Json) : Option Snapshot := do
  let document ← Document.ofJson? (← json.member? "document")
  let report ← Report.ofJson? (← json.member? "result")
  let token ← (← json.member? "token").optionalText?
  let examples ← (← json.member? "examples").texts?
  return ⟨document, report, token, examples⟩

theorem ofJson?_toJson (snapshot : Snapshot)
    : ofJson? snapshot.toJson = some snapshot := by
  have document : snapshot.toJson.member? "document" = some snapshot.document.toJson := rfl
  have report : snapshot.toJson.member? "result" = some snapshot.report.toJson := rfl
  have token : snapshot.toJson.member? "token" = some (.ofOption snapshot.token) := rfl
  have examples : snapshot.toJson.member? "examples" =
      some (.array (snapshot.examples.map .string)) := rfl
  simp only [ofJson?, document, report, token, examples, Option.bind_eq_bind, Option.bind_some,
    Document.ofJson?_toJson, Report.ofJson?_toJson, Json.optionalText?_ofOption,
    Json.texts?_map_string]
  rfl

/-- The snapshot of a JSON text. -/
def ofText? (text : String) : Option Snapshot :=
  (Json.read? text).bind ofJson?

theorem ofText?_render (snapshot : Snapshot)
    : ofText? snapshot.toJson.render = some snapshot := by
  rw [ofText?, Json.read?_render, Option.bind_some, ofJson?_toJson]

/-- The text that would be shown if a snapshot could not be written. -/
def failureText (reason : String) : String :=
  "\x7b\"error\":\"Serialization error: " ++ reason ++ "\"\x7d"

theorem exists_toList_failureText (reason : String)
    : ∃ chars, (failureText reason).toList = '\x7b' :: '"' :: 'e' :: chars := by
  have opening : "\x7b\"error\":\"Serialization error: ".toList =
      '\x7b' :: '"' :: 'e' :: "rror\":\"Serialization error: ".toList := by decide
  unfold failureText
  rw [String.toList_append, String.toList_append, opening]
  exact ⟨_, rfl⟩

theorem exists_toList_render (snapshot : Snapshot)
    : ∃ chars, snapshot.toJson.render.toList = '\x7b' :: '"' :: 'd' :: chars := by
  have name : "document".toList.flatMap Json.escapedChar =
      ['d', 'o', 'c', 'u', 'm', 'e', 'n', 't'] := by decide
  unfold toJson
  rw [Json.toList_render_object, Json.toList_renderMembers, Json.memberChars, Json.toList_quote,
    name]
  exact ⟨_, rfl⟩

theorem render_ne_failureText (snapshot : Snapshot) (reason : String)
    : snapshot.toJson.render ≠ failureText reason := by
  intro same
  obtain ⟨chars, written⟩ := snapshot.exists_toList_render
  obtain ⟨others, failure⟩ := exists_toList_failureText reason
  rw [same, failure] at written
  simp at written

/-- A snapshot is written as a JSON object, never as a failure, and read from it as it was; no other
snapshot is written alike.
-/
theorem render_lossless (snapshot : Snapshot)
    : Json.Grammar.ObjectText snapshot.toJson.render ∧
        ofText? snapshot.toJson.render = some snapshot ∧
        (∀ reason, snapshot.toJson.render ≠ failureText reason) ∧
        ∀ other : Snapshot, other.toJson.render = snapshot.toJson.render ↔ other = snapshot := by
  refine ⟨Json.objectText_render _, ofText?_render snapshot, render_ne_failureText snapshot,
    fun other => ⟨fun same => ?_, fun same => same ▸ rfl⟩⟩
  have read := ofText?_render other
  rw [same, ofText?_render] at read
  exact (Option.some.inj read).symm

end Snapshot

end Scratchpad
