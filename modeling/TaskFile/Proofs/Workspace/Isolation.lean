import TaskFile.Proofs.Workspace.Run

/-!
# Documents do not interfere

What is heard about one document in a run depends on the requests about that document
only: the others can be left out (`Workspace.filter_run_uri`).

`Workspace.AgreesOn` relates two workspaces that cannot be told apart by requests about one
document.  A request about it is answered in the same way by both (`AgreesOn.snd_serve`) and
leads to two that agree again (`AgreesOn.serve`).  A request about another document is not
heard, and the two agree even if only one of them was asked (`AgreesOn.serve_left`).
-/

namespace TaskFile

/-! ## What requests and replies are about -/

/-- The document that an event happened to. -/
def Event.uri : Event → Uri
  | .opened uri _ | .changed uri _ _ | .closed uri => uri

/-- The document that a request is about. -/
def Request.uri : Request → Uri
  | .report event => event.uri
  | .complete uri _ => uri

/-- The document that a reply is about. -/
def Reply.uri : Reply → Uri
  | .published publication => publication.uri
  | .answered uri _ => uri

namespace Request

variable {uri : Uri} {request : Request}

/-- A request does nothing to the documents that it is not about. -/
theorem closes_eq_false_of_ne (hne : request.uri ≠ uri) : request.closes uri = false := by
  unfold closes
  split
  · exact beq_eq_false_iff_ne.2 hne
  · rfl

theorem page?_eq_none_of_ne (hne : request.uri ≠ uri) : request.page? uri = none := by
  unfold page?
  split
  · exact if_neg hne
  · exact if_neg hne
  · rfl

theorem accepted?_eq_none_of_ne (filter : Filter) (hne : request.uri ≠ uri) :
    request.accepted? filter uri = none := by
  rw [accepted?, page?_eq_none_of_ne hne, ite_self]

end Request

namespace Workspace

variable {workspace other : Workspace} {uri : Uri}

/-! ## Events -/

/-- An event gives its document a page, does nothing or closes its document. -/
theorem actions_cases (filter : Filter) (event : Event) :
    (∃ page, event.actions filter = Event.update filter event.uri page) ∨
      event.actions filter = [] ∨ ∃ uri, event = .closed uri := by
  cases event with
  | opened uri page => exact .inl ⟨page, rfl⟩
  | changed uri version texts =>
    cases hlast : texts.getLast? with
    | some text => exact .inl ⟨⟨text, version⟩, by simp only [Event.actions, hlast, Event.uri]⟩
    | none => exact .inr (.inl (by simp only [Event.actions, hlast]))
  | closed uri => exact .inr (.inr ⟨uri, rfl⟩)

/-- What is sent at an event is about its document. -/
theorem uri_of_mem_handle {event : Event} {publication : Publication}
    (hpublication : publication ∈ (workspace.handle event).2) : publication.uri = event.uri := by
  rcases actions_cases workspace.filter event with ⟨page, hactions⟩ | hactions | ⟨uri, rfl⟩
  · rw [handle_update hactions] at hpublication
    split at hpublication
    · rw [List.mem_singleton.1 hpublication]
      rfl
    · contradiction
  · rw [handle_nothing hactions] at hpublication
    contradiction
  · rw [handle_closed] at hpublication
    dsimp only at hpublication
    split at hpublication
    · rw [List.mem_singleton.1 hpublication]
      rfl
    · contradiction

/-! ## Workspaces that agree on a document -/

/-- Two workspaces that cannot be told apart by requests about a document. -/
structure AgreesOn (uri : Uri) (workspace other : Workspace) : Prop where
  filter : workspace.filter = other.filter
  offer : workspace.offer = other.offer
  stored : workspace.store.get? uri = other.store.get? uri

/-- What is sent at an event depends on its document. -/
theorem AgreesOn.snd_handle {event : Event} (hagrees : AgreesOn event.uri workspace other) :
    (workspace.handle event).2 = (other.handle event).2 := by
  have hfilter := hagrees.filter
  rcases actions_cases workspace.filter event with ⟨page, hactions⟩ | hactions | ⟨uri, rfl⟩
  · rw [handle_update hactions, handle_update (hfilter ▸ hactions), hfilter]
    split <;> rfl
  · rw [handle_nothing hactions, handle_nothing (hfilter ▸ hactions)]
  · have hstored : workspace.store.get? uri = other.store.get? uri := hagrees.stored
    rw [handle_closed, handle_closed, hstored]

theorem AgreesOn.complete? (hagrees : AgreesOn uri workspace other) (position : Position) :
    workspace.complete? uri position = other.complete? uri position := by
  rw [Workspace.complete?, Workspace.complete?, hagrees.filter, hagrees.offer, hagrees.stored]

/-- Two that agree on a document answer a request about it in the same way. -/
theorem AgreesOn.snd_serve {request : Request} (hagrees : AgreesOn request.uri workspace other) :
    (workspace.serve request).2 = (other.serve request).2 := by
  cases request with
  | report event => exact congrArg (List.map Reply.published) hagrees.snd_handle
  | complete uri position =>
    exact congrArg (fun items => [Reply.answered uri items]) (hagrees.complete? position)

/-- They still agree after any request to both of them. -/
theorem AgreesOn.serve (hagrees : AgreesOn uri workspace other) (request : Request) :
    AgreesOn uri (workspace.serve request).1 (other.serve request).1 where
  filter := by rw [filter_serve, filter_serve, hagrees.filter]
  offer := by rw [offer_serve, offer_serve, hagrees.offer]
  stored := by
    rw [(treats_serve workspace request uri).stored, (treats_serve other request uri).stored,
      hagrees.filter, hagrees.stored]

/-! ## Requests about other documents -/

/-- They still agree after one of them was asked about another document. -/
theorem AgreesOn.serve_left {request : Request} (hagrees : AgreesOn uri workspace other)
    (hne : request.uri ≠ uri) : AgreesOn uri (workspace.serve request).1 other where
  filter := by rw [filter_serve, hagrees.filter]
  offer := by rw [offer_serve, hagrees.offer]
  stored := by
    rw [(treats_serve workspace request uri).stored, Request.closes_eq_false_of_ne hne,
      Request.accepted?_eq_none_of_ne _ hne, ← hagrees.stored]
    rfl

/-- What is heard at a request is about its document. -/
theorem uri_of_mem_serve {request : Request} {reply : Reply}
    (hreply : reply ∈ (workspace.serve request).2) : reply.uri = request.uri := by
  cases request with
  | report event =>
    obtain ⟨publication, hpublication, rfl⟩ := List.mem_map.1 hreply
    exact uri_of_mem_handle hpublication
  | complete uri position =>
    obtain rfl := List.mem_singleton.1 hreply
    rfl

/-! ## Runs -/

/-- What is heard about a document from one workspace is what another one answers that
agrees on the document and is asked about nothing else. -/
theorem AgreesOn.filter_run (hagrees : AgreesOn uri workspace other) (requests : List Request) :
    (workspace.run requests).2.filter (·.uri = uri) =
      (other.run (requests.filter (·.uri = uri))).2 := by
  induction requests generalizing workspace other with
  | nil => rfl
  | cons request requests ih =>
    rw [run_cons, List.filter_append]
    by_cases huri : request.uri = uri
    · subst huri
      have hall : ∀ reply ∈ (workspace.serve request).2, decide (reply.uri = request.uri) = true :=
        fun reply hreply => decide_eq_true (uri_of_mem_serve hreply)
      rw [List.filter_cons_of_pos (by simp), run_cons, List.filter_eq_self.2 hall,
        hagrees.snd_serve, ih (hagrees.serve request)]
    · have hnone : ∀ reply ∈ (workspace.serve request).2, ¬decide (reply.uri = uri) = true :=
        fun reply hreply => by rwa [decide_eq_true_eq, uri_of_mem_serve hreply]
      rw [List.filter_cons_of_neg (by simpa using huri), List.filter_eq_nil_iff.2 hnone,
        List.nil_append, ih (hagrees.serve_left huri)]

/-- Among all that is heard in a run, what is about a document is what is heard, in order,
when nothing but the requests about that document is asked. -/
theorem filter_run_uri (config : Config) (glob : Glob) (requests : List Request) (uri : Uri) :
    ((ofConfig config glob).run requests).2.filter (·.uri = uri) =
      ((ofConfig config glob).run (requests.filter (·.uri = uri))).2 :=
  AgreesOn.filter_run ⟨rfl, rfl, rfl⟩ requests

end Workspace

end TaskFile
