import TaskFile.Document.Basic
import TaskFile.Text.Basic
import TaskFile.Uri.Basic
import TaskFile.Completion.Offer
import TaskFile.Workspace.Filter

/-!
# The workspace

What happens when the editor opens, changes and closes documents and asks for
completions.

* A `Diagnostic` is a problem of a document as an editor shows it: the message,
  and the range between two positions.
* A `Store` holds the open documents.  `Store.get?` is its view: `get?_insert`
  and `get?_erase` say what the two operations do to it.
* An event is carried out as a row of actions: a document is first published
  with its diagnostics and then stored, and a document that is closed is first
  removed and then, if it was there, published without diagnostics.  Each action
  is done in one go, but between two actions of an event other events may act.
  `Event.actions` is the row of actions of an event, and `Action.perform` does
  one of them and gives those that it calls for.
* `Workspace.handle` carries out an event without interruption, and
  `Workspace.complete?` answers what is offered at a position.
* `Workspace.serve` carries out one request of the editor and `Workspace.run` a
  row of them, each before the next one.  The editor hears publications and
  answers in order; `Reply.publication?` picks the publications for one document.
-/

namespace TaskFile

/-! ## Diagnostics -/

/-- A message on a range of a document. -/
structure Diagnostic where
  start : Position
  stop : Position
  message : String
  deriving DecidableEq, Repr

namespace Diagnostic

/-- The diagnostic of a problem of a text. -/
def ofProblem (text : List Char) (problem : Problem) : Diagnostic where
  start := Position.ofOffset text problem.span.start
  stop := Position.ofOffset text problem.span.stop
  message := problem.kind.message

/-- The diagnostics of a text, in the order of its problems. -/
def ofText (text : List Char) : List Diagnostic :=
  (Document.ofText default text).problems.map (ofProblem text)

end Diagnostic

/-! ## Open documents -/

/-- The text of an open document and its version. -/
structure Page where
  text : String
  version : Int
  deriving DecidableEq, Repr

/-- The open documents. -/
structure Store where
  pages : List (Uri × Page)
  deriving DecidableEq, Repr

namespace Store

/-- No open document. -/
def empty : Store := ⟨[]⟩

/-- The open document with a URI. -/
def get? (store : Store) (uri : Uri) : Option Page :=
  (store.pages.find? (·.1 == uri)).map (·.2)

/-- Without the document with a URI. -/
def erase (store : Store) (uri : Uri) : Store :=
  ⟨store.pages.filter (·.1 != uri)⟩

/-- With a document in place of any with the same URI. -/
def insert (store : Store) (uri : Uri) (page : Page) : Store :=
  ⟨(uri, page) :: (store.erase uri).pages⟩

@[simp] theorem get?_empty (uri : Uri) : empty.get? uri = none := rfl

theorem get?_erase (store : Store) (uri other : Uri) :
    (store.erase uri).get? other = if other = uri then none else store.get? other := by
  unfold get? erase
  rw [List.find?_filter]
  split
  · rename_i hsame
    subst hsame
    simp
  · rename_i hother
    congr 2
    funext entry
    by_cases hentry : entry.1 = other <;> simp [hentry, hother]

theorem get?_insert (store : Store) (uri other : Uri) (page : Page) :
    (store.insert uri page).get? other = if other = uri then some page else store.get? other := by
  by_cases hother : other = uri
  · simp [insert, get?, hother]
  · have herase := get?_erase store uri other
    simp only [hother, if_false] at herase ⊢
    rw [← herase]
    simp [insert, get?, Ne.symm hother]

end Store

/-! ## Events and actions -/

/-- Diagnostics sent for a document, with its version unless it was closed. -/
structure Publication where
  uri : Uri
  diagnostics : List Diagnostic
  version : Option Int
  deriving DecidableEq, Repr

/-- What the editor reports about a document. -/
inductive Event
  /-- A document was opened with a text. -/
  | opened (uri : Uri) (page : Page)
  /-- A document was changed, to each of some whole texts in turn. -/
  | changed (uri : Uri) (version : Int) (texts : List String)
  /-- A document was closed. -/
  | closed (uri : Uri)
  deriving DecidableEq, Repr

/-- A step of an event that is not interrupted. -/
inductive Action
  | publish (publication : Publication)
  | store (uri : Uri) (page : Page)
  | remove (uri : Uri)
  deriving DecidableEq, Repr

namespace Publication

/-- The diagnostics of a document. -/
def ofPage (uri : Uri) (page : Page) : Publication :=
  ⟨uri, Diagnostic.ofText page.text.toList, some page.version⟩

/-- No diagnostics, for a document that is closed. -/
def cleared (uri : Uri) : Publication := ⟨uri, [], none⟩

end Publication

namespace Event

/-- The actions for a document with a new text. -/
def update (filter : Filter) (uri : Uri) (page : Page) : List Action :=
  if filter.covers uri then [.publish (.ofPage uri page), .store uri page] else []

/-- The actions of an event.  Of several new texts only the last one counts. -/
def actions (filter : Filter) : Event → List Action
  | .opened uri page => update filter uri page
  | .changed uri version texts =>
    match texts.getLast? with
    | some text => update filter uri ⟨text, version⟩
    | none => []
  | .closed uri => [.remove uri]

end Event

namespace Action

/-- The store after an action, what it sends, and the actions that it calls
for. -/
def perform (store : Store) : Action → Store × List Publication × List Action
  | .publish publication => (store, [publication], [])
  | .store uri page => (store.insert uri page, [], [])
  | .remove uri =>
    (store.erase uri, [],
      if (store.get? uri).isSome then [.publish (.cleared uri)] else [])

/-- The store after an action and the actions that it calls for, and what they
send.  Only sending is ever called for. -/
def complete (store : Store) (action : Action) : Store × List Publication :=
  let (store, sent, next) := action.perform store
  next.foldl (fun (store, sent) action =>
    let (store, more, _) := action.perform store
    (store, sent ++ more)) (store, sent)

end Action

/-- The state of the server as far as documents go. -/
structure Workspace where
  filter : Filter
  offer : Offer
  store : Store

namespace Workspace

/-- A workspace without open documents. -/
def ofConfig (config : Config) (glob : Glob := Pattern.glob) : Workspace :=
  ⟨Filter.ofConfig config glob, Offer.launchers, Store.empty⟩

/-- The workspace after an event, and what is sent meanwhile. -/
def handle (workspace : Workspace) (event : Event) : Workspace × List Publication :=
  let (store, sent) := (event.actions workspace.filter).foldl (fun (store, sent) action =>
    let (store, more) := action.complete store
    (store, sent ++ more)) (workspace.store, [])
  ({ workspace with store }, sent)

/-- The items offered at a position of a document, if it is looked after and
open. -/
def complete? (workspace : Workspace) (uri : Uri) (position : Position) : Option (List Item) :=
  if workspace.filter.covers uri then
    (workspace.store.get? uri).map fun page =>
      workspace.offer.atPosition page.text.toList position
  else none

end Workspace

/-! ## Runs -/

/-- What the editor turns to the server with. -/
inductive Request
  /-- Something happened to a document. -/
  | report (event : Event)
  /-- Completions are wanted at a position of a document. -/
  | complete (uri : Uri) (position : Position)
  deriving DecidableEq, Repr

/-- What the editor hears from the server. -/
inductive Reply
  | published (publication : Publication)
  /-- The items for a completion, in order, or no list at all. -/
  | answered (uri : Uri) (items : Option (List Item))
  deriving DecidableEq, Repr

/-- The publication that a reply is, if it is one for the document with a URI. -/
def Reply.publication? (uri : Uri) : Reply → Option Publication
  | .published publication => if publication.uri = uri then some publication else none
  | .answered _ _ => none

namespace Workspace

/-- The workspace after a request, and what is heard meanwhile. -/
def serve (workspace : Workspace) : Request → Workspace × List Reply
  | .report event =>
    let (workspace, sent) := workspace.handle event
    (workspace, sent.map .published)
  | .complete uri position =>
    (workspace, [.answered uri (workspace.complete? uri position)])

/-- The workspace after a row of requests, and all that is heard meanwhile. -/
def run (workspace : Workspace) : List Request → Workspace × List Reply
  | [] => (workspace, [])
  | request :: requests =>
    let (workspace, replies) := workspace.serve request
    let (last, later) := workspace.run requests
    (last, replies ++ later)

end Workspace

end TaskFile
