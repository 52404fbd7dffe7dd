import TaskFile.Workspace.Basic

/-!
# One document in a run

A request does one of three things to a document: it closes it, it gives it a
new page, or it leaves it alone.  `Request.closes` and `Request.page?` say which,
and `Workspace.treats_serve` derives from them what is stored of the document
afterwards and what is published for it.

A page only counts when the filter covers the document.  No request changes the
filter or the offer (`filter_run`, `offer_run`), and `run_append` cuts a run in
two.
-/

namespace TaskFile

/-! ## Requests and documents -/

namespace Request

/-- Whether a request closes the document with a URI. -/
def closes (uri : Uri) : Request → Bool
  | .report (.closed other) => other == uri
  | _ => false

/-- The page that a request gives the document with a URI: the one that it is
opened with, or the last of those that it is changed to. -/
def page? (uri : Uri) : Request → Option Page
  | .report (.opened other page) => if other = uri then some page else none
  | .report (.changed other version texts) =>
    if other = uri then texts.getLast?.map fun text => ⟨text, version⟩ else none
  | _ => none

/-- The page that a request gives the document with a URI, if the document is
looked after. -/
def accepted? (filter : Filter) (uri : Uri) (request : Request) : Option Page :=
  if filter.covers uri then request.page? uri else none

end Request

/-- The publications for the document with a URI among some replies. -/
def publications (uri : Uri) (replies : List Reply) : List Publication :=
  replies.filterMap (Reply.publication? uri)

@[simp] theorem publications_nil (uri : Uri) : publications uri [] = [] := rfl

@[simp] theorem publications_published (uri : Uri) (publication : Publication) :
    publications uri [.published publication] =
      if publication.uri = uri then [publication] else [] := by
  unfold publications Reply.publication?
  split <;> simp_all

@[simp] theorem publications_answered (uri other : Uri) (items : Option (List Item)) :
    publications uri [.answered other items] = [] := rfl

@[simp] theorem publications_append (uri : Uri) (first second : List Reply) :
    publications uri (first ++ second) = publications uri first ++ publications uri second :=
  List.filterMap_append

@[simp] theorem Publication.uri_ofPage (uri : Uri) (page : Page) :
    (Publication.ofPage uri page).uri = uri := rfl

@[simp] theorem Publication.uri_cleared (uri : Uri) : (Publication.cleared uri).uri = uri := rfl

namespace Workspace

variable {workspace : Workspace}

/-! ## Events -/

/-- A new page is published and stored, if the document is looked after. -/
theorem handle_update {event : Event} {uri : Uri} {page : Page}
    (hactions : event.actions workspace.filter = Event.update workspace.filter uri page) :
    workspace.handle event =
      if workspace.filter.covers uri then
        ({ workspace with store := workspace.store.insert uri page }, [.ofPage uri page])
      else (workspace, []) := by
  rw [handle, hactions, Event.update]
  cases workspace.filter.covers uri <;> rfl

theorem handle_nothing {event : Event} (hactions : event.actions workspace.filter = []) :
    workspace.handle event = (workspace, []) := by
  rw [handle, hactions]
  rfl

/-- A document that was there is removed, and that is published. -/
theorem handle_closed (uri : Uri) :
    workspace.handle (.closed uri) =
      ({ workspace with store := workspace.store.erase uri },
        if (workspace.store.get? uri).isSome then [.cleared uri] else []) := by
  simp only [handle, Event.actions, Action.complete, Action.perform, List.foldl_cons,
    List.foldl_nil]
  cases (workspace.store.get? uri).isSome <;> rfl

/-! ## Requests -/

/-- What a request does to the document with a URI: what is stored of it
afterwards, and what is published for it. -/
structure Treats (workspace : Workspace) (request : Request) (uri : Uri) : Prop where
  stored : (workspace.serve request).1.store.get? uri =
    if request.closes uri then none
    else (request.accepted? workspace.filter uri).or (workspace.store.get? uri)
  published : publications uri (workspace.serve request).2 =
    if request.closes uri then
      if (workspace.store.get? uri).isSome then [.cleared uri] else []
    else ((request.accepted? workspace.filter uri).map (.ofPage uri)).toList

theorem serve_report (workspace : Workspace) (event : Event) :
    workspace.serve (.report event) =
      ((workspace.handle event).1, (workspace.handle event).2.map .published) := rfl

/-- An event that gives a document a page leaves the others alone. -/
theorem treats_update {event : Event} (target : Uri) (page : Page)
    (hactions : event.actions workspace.filter = Event.update workspace.filter target page)
    (hpage : ∀ uri, (Request.report event).page? uri = if target = uri then some page else none)
    (hcloses : ∀ uri, (Request.report event).closes uri = false) (uri : Uri) :
    workspace.Treats (.report event) uri := by
  have haccepted : (Request.report event).accepted? workspace.filter uri =
      if workspace.filter.covers uri then if target = uri then some page else none else none := by
    rw [Request.accepted?, hpage]
  have hserve := workspace.serve_report event
  rw [handle_update hactions] at hserve
  by_cases htarget : target = uri
  · subst htarget
    cases hcovers : workspace.filter.covers target <;> constructor <;>
      simp [hserve, haccepted, hcovers, hcloses, Store.get?_insert]
  · cases hcovers : workspace.filter.covers target <;> constructor <;>
      simp [hserve, haccepted, hcovers, hcloses, htarget, Ne.symm htarget, Store.get?_insert]

/-- So does an event that closes a document. -/
theorem treats_closed (target uri : Uri) : workspace.Treats (.report (.closed target)) uri := by
  have hcloses : (Request.report (.closed target)).closes uri = (target == uri) := rfl
  have haccepted : (Request.report (.closed target)).accepted? workspace.filter uri = none := by
    simp [Request.accepted?, Request.page?]
  have hserve := workspace.serve_report (.closed target)
  rw [handle_closed] at hserve
  by_cases htarget : target = uri
  · subst htarget
    cases hstored : workspace.store.get? target <;> constructor <;>
      simp [hserve, hcloses, hstored, Store.get?_erase]
  · cases hstored : workspace.store.get? target <;> constructor <;>
      simp [hserve, hcloses, haccepted, hstored, htarget, Ne.symm htarget, Store.get?_erase]

theorem treats_serve (workspace : Workspace) (request : Request) (uri : Uri) :
    workspace.Treats request uri := by
  cases request with
  | complete target position =>
    constructor <;> simp [serve, Request.closes, Request.accepted?, Request.page?]
  | report event =>
    cases event with
    | opened target page => exact treats_update target page rfl (fun _ => rfl) (fun _ => rfl) uri
    | changed target version texts =>
      cases hlast : texts.getLast? with
      | some text =>
        refine treats_update target ⟨text, version⟩ ?_ (fun _ => ?_)
          (fun _ => rfl) uri
        · simp only [Event.actions, hlast]
        · simp only [Request.page?, hlast, Option.map_some]
      | none =>
        have hserve := workspace.serve_report (.changed target version texts)
        rw [handle_nothing (by simp only [Event.actions, hlast])] at hserve
        constructor <;> simp [hserve, hlast, Request.closes, Request.accepted?, Request.page?]
    | closed target => exact treats_closed target uri

/-- A request changes the store only. -/
theorem filter_serve (workspace : Workspace) (request : Request) :
    (workspace.serve request).1.filter = workspace.filter := by
  cases request <;> rfl

theorem offer_serve (workspace : Workspace) (request : Request) :
    (workspace.serve request).1.offer = workspace.offer := by
  cases request <;> rfl

/-! ## Runs -/

theorem run_nil (workspace : Workspace) : workspace.run [] = (workspace, []) := rfl

theorem run_cons (workspace : Workspace) (request : Request) (requests : List Request) :
    workspace.run (request :: requests) =
      (((workspace.serve request).1.run requests).1,
        (workspace.serve request).2 ++ ((workspace.serve request).1.run requests).2) := rfl

/-- A run over the first requests and then over the others. -/
theorem run_append (workspace : Workspace) (first second : List Request) :
    workspace.run (first ++ second) =
      (((workspace.run first).1.run second).1,
        (workspace.run first).2 ++ ((workspace.run first).1.run second).2) := by
  induction first generalizing workspace with
  | nil => rfl
  | cons request requests ih =>
    rw [List.cons_append, run_cons, run_cons, ih]
    simp

/-- A run with one more request at its end. -/
theorem run_concat (workspace : Workspace) (requests : List Request) (request : Request) :
    workspace.run (requests ++ [request]) =
      (((workspace.run requests).1.serve request).1,
        (workspace.run requests).2 ++ ((workspace.run requests).1.serve request).2) := by
  rw [run_append, run_cons, run_nil]
  simp

theorem filter_run (workspace : Workspace) (requests : List Request) :
    (workspace.run requests).1.filter = workspace.filter := by
  induction requests generalizing workspace with
  | nil => rfl
  | cons request requests ih => rw [run_cons, ih, filter_serve]

theorem offer_run (workspace : Workspace) (requests : List Request) :
    (workspace.run requests).1.offer = workspace.offer := by
  induction requests generalizing workspace with
  | nil => rfl
  | cons request requests ih => rw [run_cons, ih, offer_serve]

end Workspace

end TaskFile
