import TaskFile.Proofs.Workspace.Coherence
import TaskFile.Proofs.Workspace.Isolation
import Mathlib.Logic.Relation

/-!
# Events that overlap

When the server is suspended between two actions of an event, it goes on with other events.
`Traffic` is the state in which it then is, and `Traffic.Step` one step: the next event is
begun, or some event that was begun goes on by one action.  Which action may go ahead of
those of earlier events is a parameter (`Discipline`).

* When nothing has to wait, the events on a document can overtake one another, and an old
  text is stored over a new one (`Traffic.reaches_overtaken`).
* As long as a document is stored and removed in the order of the events on it, and published
  in that order too, nothing is lost.  However much the events overlap, they leave it as if
  they had been carried out one after another (`Traffic.keepsUp_of_inOrder`).
* An event that keeps this order never waits for good (`Traffic.exists_reaches_isDone`).

What is stored of a document at some time lacks what is still to be done on it by the events
that were begun.  `outcome` is what these actions come to, and no step changes what they come
to in the end: that is always what a run of the begun events leaves (`Traffic.OnTrack`).
-/

namespace TaskFile

/-! ## What actions are about -/

namespace Action

/-- The document that an action is about. -/
def uri : Action → Uri
  | .publish publication => publication.uri
  | .store uri _ | .remove uri => uri

@[simp] theorem uri_publish (publication : Publication) :
    (publish publication).uri = publication.uri := rfl

@[simp] theorem uri_store (uri : Uri) (page : Page) : (store uri page).uri = uri := rfl

@[simp] theorem uri_remove (uri : Uri) : (remove uri).uri = uri := rfl

variable {action : Action} {store : Store} {uri : Uri}

/-- An action leaves the other documents alone. -/
theorem get?_perform_of_ne (hne : action.uri ≠ uri) :
    (action.perform store).1.get? uri = store.get? uri := by
  cases action with
  | publish publication => rfl
  | store other page => exact (Store.get?_insert ..).trans (if_neg (Ne.symm hne))
  | remove other => exact (Store.get?_erase ..).trans (if_neg (Ne.symm hne))

/-- What an action sends is about its document. -/
theorem uri_of_mem_sent {publication : Publication}
    (hpublication : publication ∈ (action.perform store).2.1) : publication.uri = action.uri := by
  cases action with
  | publish own => exact congrArg Publication.uri (List.mem_singleton.1 hpublication)
  | store | remove => contradiction

/-- So are the actions that it calls for. -/
theorem uri_of_mem_called {called : Action}
    (hcalled : called ∈ (action.perform store).2.2) : called.uri = action.uri := by
  cases action with
  | publish | store => contradiction
  | remove other =>
    dsimp only [perform] at hcalled
    split at hcalled
    · rw [List.mem_singleton.1 hcalled]
      rfl
    · contradiction

end Action

/-! ## Overlapping events -/

/-- The store, what was sent so far, and what is left to do. -/
structure Traffic where
  store : Store
  sent : List Publication
  /-- What is left of the events that were begun, in the order in which they came. -/
  begun : List (List Action)
  /-- The events that were not begun. -/
  waiting : List Event

/-- Whether an action may be done while others are left of the events before it. -/
abbrev Discipline := (ahead : List (List Action)) → (action : Action) → Prop

namespace Traffic

/-- What comes of events that are carried out one after another. -/
abbrev inTurn (config : Config) (glob : Glob) (events : List Event) : Workspace × List Reply :=
  (Workspace.ofConfig config glob).run (events.map .report)

/-- Nothing was begun. -/
def ofEvents (events : List Event) : Traffic := ⟨Store.empty, [], [], events⟩

/-- Nothing is left to do. -/
def IsDone (traffic : Traffic) : Prop :=
  traffic.waiting = [] ∧ ∀ actions ∈ traffic.begun, actions = []

/-- One step.  Events are begun in the order in which they came, and the actions of an event
are done in their order. -/
inductive Step (filter : Filter) (May : Discipline) : Traffic → Traffic → Prop where
  | start {store sent begun event waiting} :
      Step filter May ⟨store, sent, begun, event :: waiting⟩
        ⟨store, sent, begun ++ [event.actions filter], waiting⟩
  | act {store sent ahead action rest behind waiting} (hmay : May ahead action) :
      Step filter May ⟨store, sent, ahead ++ (action :: rest) :: behind, waiting⟩
        ⟨(action.perform store).1, sent ++ (action.perform store).2.1,
          ahead ++ ((action.perform store).2.2 ++ rest) :: behind, waiting⟩

/-- Some steps, one after the other. -/
abbrev Reaches (filter : Filter) (May : Discipline) : Traffic → Traffic → Prop :=
  Relation.ReflTransGen (Step filter May)

/-- A document is as if the events had been carried out one after another: that is what is
stored of it, and what was last published for it belongs to that. -/
structure KeepsUp (config : Config) (glob : Glob) (events : List Event) (uri : Uri)
    (traffic : Traffic) : Prop where
  stored : traffic.store.get? uri = (inTurn config glob events).1.store.get? uri
  published : Workspace.IsCoherent (Filter.ofConfig config glob) uri (traffic.store.get? uri)
    (traffic.sent.filter (·.uri = uri))

end Traffic

namespace Discipline

/-- Nothing has to wait. -/
def anyOrder : Discipline := fun _ _ => True

/-- Whether an action on a document may be done before an earlier one on it.  What is stored
and removed keeps its order, and so does what is published, where something that is still to
be removed counts for the publication that it calls for. -/
def mayPass : (earlier later : Action) → Bool
  | .publish _, .store _ _ | .publish _, .remove _ | .store _ _, .publish _ => true
  | _, _ => false

/-- What stores or removes a document may only pass publications. -/
theorem exists_publication {earlier later : Action} (hmay : mayPass earlier later = true)
    (hlater : ∀ publication, later ≠ .publish publication) :
    ∃ publication, earlier = .publish publication := by
  cases earlier with
  | publish publication => exact ⟨publication, rfl⟩
  | store | remove => cases later <;> simp_all [mayPass]

/-- Nothing on a document is done before something earlier that it may not pass. -/
def inOrder (uri : Uri) : Discipline := fun ahead action =>
  action.uri = uri → ∀ actions ∈ ahead, ∀ earlier ∈ actions,
    earlier.uri = uri → mayPass earlier action = true

end Discipline

/-! ## Actions on one document -/

/-- What actions on one document come to: what is stored of it, and what is published. -/
def outcome (stored : Option Page) : List Action → Option Page × List Publication
  | [] => (stored, [])
  | .publish publication :: rest =>
    ((outcome stored rest).1, publication :: (outcome stored rest).2)
  | .store _ page :: rest => outcome (some page) rest
  | .remove uri :: rest =>
    ((outcome none rest).1,
      (if stored.isSome then [.cleared uri] else []) ++ (outcome none rest).2)

theorem outcome_append (stored : Option Page) (first second : List Action) :
    outcome stored (first ++ second) =
      ((outcome (outcome stored first).1 second).1,
        (outcome stored first).2 ++ (outcome (outcome stored first).1 second).2) := by
  induction first generalizing stored with
  | nil => rfl
  | cons action rest ih => cases action <;> simp [outcome, ih]

section May

variable {earlier : List Action}

/-- A publication may be sent ahead of what is to be stored. -/
theorem outcome_publish {publication : Publication}
    (hmay : ∀ action ∈ earlier, Discipline.mayPass action (.publish publication) = true)
    (stored : Option Page) (later : List Action) :
    outcome stored (earlier ++ .publish publication :: later) =
      ((outcome stored (earlier ++ later)).1,
        publication :: (outcome stored (earlier ++ later)).2) := by
  induction earlier generalizing stored with
  | nil => rfl
  | cons action rest ih =>
    obtain ⟨haction, hrest⟩ := List.forall_mem_cons.1 hmay
    cases action with
    | store uri page => exact ih hrest (some page)
    | publish | remove => contradiction

/-- Behind publications, what is still to be done counts for what it comes to. -/
theorem outcome_behind {stored stored' : Option Page} {later later' : List Action}
    (hpublish : ∀ action ∈ earlier, ∃ publication, action = .publish publication)
    (hlater : outcome stored later = outcome stored' later') :
    outcome stored (earlier ++ later) = outcome stored' (earlier ++ later') := by
  induction earlier with
  | nil => exact hlater
  | cons action rest ih =>
    obtain ⟨⟨publication, rfl⟩, hrest⟩ := List.forall_mem_cons.1 hpublish
    simp only [List.cons_append, outcome, ih hrest]

/-- A page may be stored ahead of what is to be published. -/
theorem outcome_store {uri : Uri} {page : Page}
    (hmay : ∀ action ∈ earlier, Discipline.mayPass action (.store uri page) = true)
    (stored : Option Page) (later : List Action) :
    outcome stored (earlier ++ .store uri page :: later) =
      outcome (some page) (earlier ++ later) :=
  outcome_behind (fun action hmem => Discipline.exists_publication (hmay action hmem) (by simp))
    rfl

/-- A document may be removed ahead of what is to be published.  The publication that the
removal calls for takes its place. -/
theorem outcome_remove {uri : Uri}
    (hmay : ∀ action ∈ earlier, Discipline.mayPass action (.remove uri) = true)
    (stored : Option Page) (later : List Action) :
    outcome stored (earlier ++ .remove uri :: later) =
      outcome none
        (earlier ++ ((if stored.isSome then [.publish (.cleared uri)] else []) ++ later)) :=
  outcome_behind (fun action hmem => Discipline.exists_publication (hmay action hmem) (by simp))
    (by cases stored <;> rfl)

end May

/-- An action, done ahead of those it may pass, leaves what is still to be done with the
same outcome. -/
theorem outcome_act {uri : Uri} {earlier : List Action} {action : Action}
    (hmay : action.uri = uri → ∀ other ∈ earlier, Discipline.mayPass other action = true)
    (store : Store) (later : List Action) :
    outcome (store.get? uri) (earlier ++ ([action].filter (·.uri = uri) ++ later)) =
      ((outcome ((action.perform store).1.get? uri)
          (earlier ++ ((action.perform store).2.2.filter (·.uri = uri) ++ later))).1,
        (action.perform store).2.1.filter (·.uri = uri) ++
          (outcome ((action.perform store).1.get? uri)
            (earlier ++ ((action.perform store).2.2.filter (·.uri = uri) ++ later))).2) := by
  by_cases huri : action.uri = uri
  · have hcalled : (action.perform store).2.2.filter (·.uri = uri) = (action.perform store).2.2 :=
      List.filter_eq_self.2 fun called hmem =>
        decide_eq_true ((Action.uri_of_mem_called hmem).trans huri)
    rw [hcalled]
    subst huri
    cases action with
    | publish publication =>
      simpa [Action.perform] using outcome_publish (hmay rfl) (store.get? _) later
    | store uri page =>
      simpa [Action.perform, Store.get?_insert] using
        outcome_store (hmay rfl) (store.get? uri) later
    | remove uri =>
      simpa [Action.perform, Store.get?_erase] using
        outcome_remove (hmay rfl) (store.get? uri) later
  · have hsent : (action.perform store).2.1.filter (·.uri = uri) = [] :=
      List.filter_eq_nil_iff.2 fun publication hmem => by
        rwa [decide_eq_true_eq, Action.uri_of_mem_sent hmem]
    have hcalled : (action.perform store).2.2.filter (·.uri = uri) = [] :=
      List.filter_eq_nil_iff.2 fun called hmem => by
        rwa [decide_eq_true_eq, Action.uri_of_mem_called hmem]
    simp [hsent, hcalled, huri, Action.get?_perform_of_ne huri]

/-- The actions of an event on a document come to what the event does to it. -/
theorem outcome_actions (workspace : Workspace) (event : Event) (uri : Uri) :
    outcome (workspace.store.get? uri)
        ((event.actions workspace.filter).filter (·.uri = uri)) =
      ((workspace.serve (.report event)).1.store.get? uri,
        publications uri (workspace.serve (.report event)).2) := by
  rw [Workspace.serve_report]
  rcases Workspace.actions_cases workspace.filter event with
    ⟨page, hactions⟩ | hactions | ⟨target, rfl⟩
  · rw [Workspace.handle_update hactions, hactions, Event.update]
    cases workspace.filter.covers event.uri with
    | false => simp [outcome]
    | true =>
      by_cases huri : event.uri = uri
      · simp [outcome, huri, Store.get?_insert]
      · simp [outcome, huri, Store.get?_insert, Ne.symm huri]
  · rw [Workspace.handle_nothing hactions, hactions]
    rfl
  · rw [Workspace.handle_closed]
    by_cases huri : target = uri
    · subst huri
      cases workspace.store.get? target <;>
        simp [Event.actions, outcome, Store.get?_erase]
    · cases workspace.store.get? target <;>
        simp [Event.actions, outcome, Store.get?_erase, huri, Ne.symm huri]

namespace Traffic

/-! ## Runs that keep the order -/

variable {config : Config} {glob : Glob} {uri : Uri}

/-- What is still to be done on a document by the events that were begun. -/
def left (uri : Uri) (traffic : Traffic) : List Action :=
  traffic.begun.flatten.filter (·.uri = uri)

/-- With what is still to be done on a document, it becomes what the events that were begun
make of it when they are carried out one after another. -/
structure OnTrack (config : Config) (glob : Glob) (past : List Event) (uri : Uri)
    (traffic : Traffic) : Prop where
  stored : (outcome (traffic.store.get? uri) (traffic.left uri)).1 =
    (inTurn config glob past).1.store.get? uri
  published :
    traffic.sent.filter (·.uri = uri) ++ (outcome (traffic.store.get? uri) (traffic.left uri)).2 =
      publications uri (inTurn config glob past).2
  coherent : Workspace.IsCoherent (Filter.ofConfig config glob) uri
    ((inTurn config glob past).1.store.get? uri) (publications uri (inTurn config glob past).2)

theorem onTrack_ofEvents (events : List Event) : OnTrack config glob [] uri (ofEvents events) :=
  ⟨rfl, rfl, .inl rfl⟩

/-- One more event is begun. -/
theorem OnTrack.start {past : List Event} {store : Store} {sent : List Publication}
    {begun : List (List Action)} {event : Event} {waiting : List Event}
    (htrack : OnTrack config glob past uri ⟨store, sent, begun, event :: waiting⟩) :
    OnTrack config glob (past ++ [event]) uri
      ⟨store, sent, begun ++ [event.actions (Filter.ofConfig config glob)], waiting⟩ := by
  obtain ⟨hstored, hpublished, hcoherent⟩ := htrack
  dsimp only at hstored hpublished
  have hfilter : (inTurn config glob past).1.filter = Filter.ofConfig config glob :=
    Workspace.filter_run _ _
  have hturn : inTurn config glob (past ++ [event]) =
      (((inTurn config glob past).1.serve (.report event)).1,
        (inTurn config glob past).2 ++ ((inTurn config glob past).1.serve (.report event)).2) := by
    rw [inTurn, List.map_append, List.map_singleton, Workspace.run_concat]
  have hleft : left uri
      ⟨store, sent, begun ++ [event.actions (Filter.ofConfig config glob)], waiting⟩ =
      left uri ⟨store, sent, begun, event :: waiting⟩ ++
        (event.actions (Filter.ofConfig config glob)).filter (·.uri = uri) := by
    simp [left]
  have hevent := outcome_actions (inTurn config glob past).1 event uri
  rw [hfilter, ← hstored] at hevent
  constructor
  · dsimp only
    rw [hleft, outcome_append, hevent, hturn]
  · dsimp only
    rw [hleft, outcome_append, hevent, hturn, publications_append, ← hpublished,
      List.append_assoc]
  · rw [hturn]
    rw [← hfilter] at hcoherent ⊢
    exact Workspace.isCoherent_serve (.report event) hcoherent

/-- An action is done. -/
theorem OnTrack.act {past : List Event} {store : Store} {sent : List Publication}
    {ahead behind : List (List Action)} {action : Action} {rest : List Action}
    {waiting : List Event} (hmay : Discipline.inOrder uri ahead action)
    (htrack : OnTrack config glob past uri
      ⟨store, sent, ahead ++ (action :: rest) :: behind, waiting⟩) :
    OnTrack config glob past uri
      ⟨(action.perform store).1, sent ++ (action.perform store).2.1,
        ahead ++ ((action.perform store).2.2 ++ rest) :: behind, waiting⟩ := by
  obtain ⟨hstored, hpublished, hcoherent⟩ := htrack
  have hbefore : left uri ⟨store, sent, ahead ++ (action :: rest) :: behind, waiting⟩ =
      ahead.flatten.filter (·.uri = uri) ++
        ([action].filter (·.uri = uri) ++ (rest ++ behind.flatten).filter (·.uri = uri)) := by
    rw [← List.filter_append, ← List.filter_append, left, List.flatten_append, List.flatten_cons]
    rfl
  have hafter : left uri ⟨(action.perform store).1, sent ++ (action.perform store).2.1,
      ahead ++ ((action.perform store).2.2 ++ rest) :: behind, waiting⟩ =
      ahead.flatten.filter (·.uri = uri) ++
        ((action.perform store).2.2.filter (·.uri = uri) ++
          (rest ++ behind.flatten).filter (·.uri = uri)) := by
    simp [left]
  have hpass : action.uri = uri → ∀ other ∈ ahead.flatten.filter (·.uri = uri),
      Discipline.mayPass other action = true := by
    intro huri other hother
    obtain ⟨hmem, hdocument⟩ := List.mem_filter.1 hother
    obtain ⟨actions, hactions, hin⟩ := List.mem_flatten.1 hmem
    exact hmay huri actions hactions other hin (of_decide_eq_true hdocument)
  have hact := outcome_act hpass store ((rest ++ behind.flatten).filter (·.uri = uri))
  rw [← hbefore, ← hafter] at hact
  dsimp only at hstored hpublished
  rw [hact] at hstored hpublished
  refine ⟨hstored, ?_, hcoherent⟩
  rw [List.filter_append, List.append_assoc]
  exact hpublished

/-- At any time the events that were begun are the first ones, and they are on track. -/
theorem exists_onTrack {events : List Event} {traffic : Traffic}
    (hsteps : Reaches (Filter.ofConfig config glob) (Discipline.inOrder uri) (ofEvents events)
      traffic) :
    ∃ past, past ++ traffic.waiting = events ∧ OnTrack config glob past uri traffic := by
  induction hsteps with
  | refl => exact ⟨[], rfl, onTrack_ofEvents events⟩
  | tail _ hstep ih =>
    obtain ⟨past, hpast, htrack⟩ := ih
    cases hstep with
    | start => exact ⟨past ++ [_], by rw [← hpast, List.append_assoc]; rfl, htrack.start⟩
    | act hmay => exact ⟨past, hpast, htrack.act hmay⟩

/-- However much events overlap, as long as a document is written and removed in the order of
the events on it and published in that order too, it is at the end as if they had been carried
out one after another. -/
theorem keepsUp_of_inOrder (config : Config) (glob : Glob) (events : List Event) (uri : Uri)
    (traffic : Traffic)
    (hsteps : Reaches (Filter.ofConfig config glob) (Discipline.inOrder uri) (ofEvents events)
      traffic)
    (hdone : traffic.IsDone) : KeepsUp config glob events uri traffic := by
  obtain ⟨past, hpast, hstored, hpublished, hcoherent⟩ := exists_onTrack hsteps
  obtain ⟨hwaiting, hbegun⟩ := hdone
  have hleft : traffic.left uri = [] := by
    rw [left, List.flatten_eq_nil_iff.2 hbegun, List.filter_nil]
  rw [hwaiting, List.append_nil] at hpast
  subst hpast
  rw [hleft] at hstored hpublished
  dsimp only [outcome] at hstored hpublished
  rw [List.append_nil] at hpublished
  exact ⟨hstored, by rwa [hpublished, hstored]⟩

/-! ## Getting done -/

section Done

variable {ahead : List (List Action)}

/-- The first event that is not done can be done while the others are left as they are. -/
theorem exists_reaches_next (filter : Filter) (uri : Uri)
    (hahead : ∀ actions ∈ ahead, actions = []) (store : Store) (sent : List Publication)
    (actions : List Action) (behind : List (List Action)) :
    ∃ last all, Reaches filter (Discipline.inOrder uri)
      ⟨store, sent, ahead ++ actions :: behind, []⟩ ⟨last, all, ahead ++ [] :: behind, []⟩ := by
  have hmay (action : Action) : Discipline.inOrder uri ahead action := by
    intro _ actions hactions earlier hearlier
    rw [hahead actions hactions] at hearlier
    contradiction
  induction actions generalizing store sent with
  | nil => exact ⟨store, sent, .refl⟩
  | cons action rest ih =>
    have hstep : Step filter (Discipline.inOrder uri)
        ⟨store, sent, ahead ++ (action :: rest) :: behind, []⟩ _ := .act (hmay action)
    cases action with
    | publish publication =>
      obtain ⟨last, all, hrest⟩ := ih store (sent ++ [publication])
      exact ⟨last, all, .head hstep hrest⟩
    | store target page =>
      obtain ⟨last, all, hrest⟩ := ih (store.insert target page) (sent ++ [])
      exact ⟨last, all, .head hstep hrest⟩
    | remove target =>
      dsimp only [Action.perform] at hstep
      cases hstored : (store.get? target).isSome with
      | false =>
        rw [hstored] at hstep
        obtain ⟨last, all, hrest⟩ := ih (store.erase target) (sent ++ [])
        exact ⟨last, all, .head hstep hrest⟩
      | true =>
        rw [hstored] at hstep
        obtain ⟨last, all, hrest⟩ := ih (store.erase target) (sent ++ [] ++ [.cleared target])
        exact ⟨last, all, .head hstep (.head (.act (hmay _)) hrest)⟩

/-- When no event is waiting, those that were begun can be done from the front on. -/
theorem exists_reaches_rest (filter : Filter) (uri : Uri) (behind : List (List Action))
    (hahead : ∀ actions ∈ ahead, actions = []) (store : Store) (sent : List Publication) :
    ∃ done, Reaches filter (Discipline.inOrder uri) ⟨store, sent, ahead ++ behind, []⟩ done ∧
      done.IsDone := by
  induction behind generalizing ahead store sent with
  | nil => exact ⟨_, .refl, rfl, by simpa using hahead⟩
  | cons actions behind ih =>
    have hdone : ∀ actions ∈ ahead ++ [[]], actions = [] := fun actions hmem =>
      (List.mem_append.1 hmem).elim (hahead actions) List.mem_singleton.1
    obtain ⟨last, all, hnext⟩ := exists_reaches_next filter uri hahead store sent actions behind
    obtain ⟨done, hsteps, hrest⟩ := ih hdone last all
    rw [List.append_assoc] at hsteps
    exact ⟨done, hnext.trans hsteps, hrest⟩

/-- Keeping the order never gets in the way: whatever was begun, everything can be done. -/
theorem exists_reaches_isDone (filter : Filter) (uri : Uri) (traffic : Traffic) :
    ∃ done, Reaches filter (Discipline.inOrder uri) traffic done ∧ done.IsDone := by
  obtain ⟨store, sent, begun, waiting⟩ := traffic
  induction waiting generalizing begun with
  | nil =>
    have hnone : ∀ actions ∈ ([] : List (List Action)), actions = [] := by simp
    exact exists_reaches_rest filter uri begun hnone store sent
  | cons event waiting ih =>
    obtain ⟨done, hsteps, hdone⟩ := ih (begun ++ [event.actions filter])
    exact ⟨done, .head .start hsteps, hdone⟩

end Done

/-! ## Two events on a document -/

section TwoEvents

variable {filter : Filter} {May : Discipline} {store : Store} {sent : List Publication}
  {actions rest : List Action} {action : Action} {behind : List (List Action)}
  {waiting : List Event}

/-- The first event goes on. -/
theorem Step.first (hmay : May [] action) :
    Step filter May ⟨store, sent, (action :: rest) :: behind, waiting⟩
      ⟨(action.perform store).1, sent ++ (action.perform store).2.1,
        ((action.perform store).2.2 ++ rest) :: behind, waiting⟩ :=
  @act filter May store sent [] action rest behind waiting hmay

/-- The second event goes on. -/
theorem Step.second (hmay : May [actions] action) :
    Step filter May ⟨store, sent, actions :: (action :: rest) :: behind, waiting⟩
      ⟨(action.perform store).1, sent ++ (action.perform store).2.1,
        actions :: ((action.perform store).2.2 ++ rest) :: behind, waiting⟩ :=
  @act filter May store sent [actions] action rest behind waiting hmay

/-- A document is opened with a page and changed to another one. -/
def opening (uri : Uri) (first second : Page) : List Event :=
  [.opened uri first, .changed uri second.version [second.text]]

/-- Both events are done, and their pages were published in order. -/
def opened (uri : Uri) (first second : Page) (store : Store) : Traffic :=
  ⟨store, [.ofPage uri first, .ofPage uri second], [[], []], []⟩

theorem isDone_opened (uri : Uri) (first second : Page) (store : Store) :
    (opened uri first second store).IsDone :=
  ⟨rfl, fun _ hmem => by simpa [opened] using hmem⟩

/-- Each page is published as soon as its event is begun, and none is stored yet. -/
theorem reaches_published (hcovers : filter.covers uri = true) (first second : Page)
    (hfirst : May [] (.publish (.ofPage uri first)))
    (hsecond : May [[.store uri first]] (.publish (.ofPage uri second))) :
    Reaches filter May (ofEvents (opening uri first second))
      ⟨Store.empty, [.ofPage uri first, .ofPage uri second],
        [[.store uri first], [.store uri second]], []⟩ := by
  have hupdate (page : Page) : Event.update filter uri page =
      [.publish (.ofPage uri page), .store uri page] := if_pos hcovers
  have hopened : Step filter May (ofEvents (opening uri first second))
      ⟨Store.empty, [], [Event.update filter uri first],
        [.changed uri second.version [second.text]]⟩ := .start
  have hchanged : Step filter May
      ⟨Store.empty, [.ofPage uri first], [[.store uri first]],
        [.changed uri second.version [second.text]]⟩
      ⟨Store.empty, [.ofPage uri first], [[.store uri first], Event.update filter uri second],
        []⟩ := .start
  rw [hupdate] at hopened hchanged
  exact .tail (.tail (.tail (.single hopened) (.first hfirst)) hchanged) (.second hsecond)

/-- In any order the old page can be stored over the new one. -/
theorem reaches_overtaken (hcovers : filter.covers uri = true) (first second : Page) :
    Reaches filter Discipline.anyOrder (ofEvents (opening uri first second))
      (opened uri first second ((Store.empty.insert uri second).insert uri first)) :=
  .tail (.tail (reaches_published hcovers first second trivial trivial) (.second trivial))
    (.first trivial)

/-- The events can overlap in the order of their pages, too. -/
theorem reaches_overlapping (hcovers : filter.covers uri = true) (first second : Page) :
    Reaches filter (Discipline.inOrder uri) (ofEvents (opening uri first second))
      (opened uri first second ((Store.empty.insert uri first).insert uri second)) := by
  have hnone (action : Action) : Discipline.inOrder uri [] action := fun _ _ hmem => nomatch hmem
  have hpublish : Discipline.inOrder uri [[.store uri first]]
      (.publish (.ofPage uri second)) := by
    simp [Discipline.inOrder, Discipline.mayPass]
  have hstore : Discipline.inOrder uri [[]] (.store uri second) := by
    simp [Discipline.inOrder]
  exact .tail (.tail (reaches_published hcovers first second (hnone _) hpublish)
    (.first (hnone _))) (.second hstore)

/-- One after the other, they leave the new page. -/
theorem get?_inTurn_opening (hcovers : (Filter.ofConfig config glob).covers uri = true)
    (first second : Page) :
    (inTurn config glob (opening uri first second)).1.store.get? uri = some second := by
  have hrun : inTurn config glob (opening uri first second) = (Workspace.ofConfig config glob).run
      ([.report (.opened uri first)] ++
        [.report (.changed uri second.version [second.text])]) := rfl
  rw [hrun, Workspace.run_concat, (Workspace.treats_serve _ _ uri).stored, Workspace.filter_run]
  simp [Request.closes, Request.accepted?, Request.page?, Workspace.ofConfig, hcovers]

/-- A change that was overtaken is lost. -/
theorem not_keepsUp_overtaken (hcovers : (Filter.ofConfig config glob).covers uri = true)
    {first second : Page} (hne : first ≠ second) :
    ¬KeepsUp config glob (opening uri first second) uri
      (opened uri first second ((Store.empty.insert uri second).insert uri first)) := by
  intro hkeeps
  have hstored := hkeeps.stored
  rw [opened, get?_inTurn_opening hcovers, Store.get?_insert, if_pos rfl] at hstored
  exact hne (Option.some.inj hstored)

/-- The task file of a folder. -/
def tasksUri : Uri := ⟨"file", some "", "/w/.vscode/tasks.json", none, none⟩

theorem covers_tasksUri : (Filter.ofConfig default).covers tasksUri = true := by
  decide +kernel

/-- Without an order, the text of an open document can be lost although both of its pages
were published in order. -/
theorem overtaken_not_keepsUp :
    ∃ traffic,
      Reaches (Filter.ofConfig default) Discipline.anyOrder
        (ofEvents (opening tasksUri ⟨"[", 1⟩ ⟨"[]", 2⟩)) traffic ∧
      traffic.IsDone ∧
      traffic.sent = [.ofPage tasksUri ⟨"[", 1⟩, .ofPage tasksUri ⟨"[]", 2⟩] ∧
      traffic.store.get? tasksUri = some ⟨"[", 1⟩ ∧
      ¬KeepsUp default Pattern.glob (opening tasksUri ⟨"[", 1⟩ ⟨"[]", 2⟩) tasksUri traffic := by
  refine ⟨_, reaches_overtaken covers_tasksUri _ _, isDone_opened .., rfl, ?_,
    not_keepsUp_overtaken covers_tasksUri (by decide)⟩
  exact (Store.get?_insert ..).trans (if_pos rfl)

/-- The two events keep up although they overlap. -/
theorem keepsUp_of_inOrder_overlapping :
    ∃ traffic,
      Reaches (Filter.ofConfig default) (Discipline.inOrder tasksUri)
        (ofEvents (opening tasksUri ⟨"[", 1⟩ ⟨"[]", 2⟩)) traffic ∧
      traffic.IsDone ∧
      KeepsUp default Pattern.glob (opening tasksUri ⟨"[", 1⟩ ⟨"[]", 2⟩) tasksUri traffic :=
  have hsteps := reaches_overlapping covers_tasksUri ⟨"[", 1⟩ ⟨"[]", 2⟩
  have hdone := isDone_opened tasksUri ⟨"[", 1⟩ ⟨"[]", 2⟩ _
  ⟨_, hsteps, hdone, keepsUp_of_inOrder _ _ _ _ _ hsteps hdone⟩

end TwoEvents

end Traffic

end TaskFile
