import TaskFile.Proofs.Workspace.Run
import Mathlib.Data.List.Induction

/-!
# Publications, completions and the store

What was last published for a document tells what is stored of it.  `IsCoherent`
relates the two, for one document; every request keeps it
(`Workspace.isCoherent_serve`), so it holds at any time of a run
(`Workspace.isCoherent_run`).

At any time of a run the store holds, of a document that is looked after, the
page that it was last given since it was last closed (`Workspace.get?_run`).  So
that is the page that completions are computed from, whatever else was opened,
changed or closed in between (`Workspace.run_complete`).
-/

namespace TaskFile

/-! ## Publications -/

namespace Workspace

/-- What is stored of a document agrees with what was published for it so far.
A stored document is looked after, and the last publication has its version and
one diagnostic for each problem of its text, in order.  For any other document
nothing was ever published, or at last an empty list without a version. -/
def IsCoherent (filter : Filter) (uri : Uri) (stored : Option Page)
    (published : List Publication) : Prop :=
  match stored with
  | some page =>
    filter.covers uri = true ∧
      published.getLast? =
        some ⟨uri,
          (Document.ofText default page.text.toList).problems.map
            (Diagnostic.ofProblem page.text.toList),
          some page.version⟩
  | none => published = [] ∨ published.getLast? = some ⟨uri, [], none⟩

variable {workspace : Workspace} {uri : Uri} {replies : List Reply}

/-- A request keeps a document coherent. -/
theorem isCoherent_serve (request : Request)
    (hcoherent : IsCoherent workspace.filter uri (workspace.store.get? uri)
      (publications uri replies)) :
    IsCoherent workspace.filter uri ((workspace.serve request).1.store.get? uri)
      (publications uri (replies ++ (workspace.serve request).2)) := by
  obtain ⟨hstored, hpublished⟩ := workspace.treats_serve request uri
  rw [publications_append, hstored, hpublished]
  cases request.closes uri with
  | true =>
    -- What was stored is cleared; nothing is said of what was not.
    cases hbefore : workspace.store.get? uri with
    | some page => exact .inr (List.getLast?_concat)
    | none =>
      rw [hbefore] at hcoherent
      simpa using hcoherent
  | false =>
    cases haccepted : request.accepted? workspace.filter uri with
    | some page =>
      have hcovers : workspace.filter.covers uri = true := by
        unfold Request.accepted? at haccepted
        split at haccepted
        · assumption
        · contradiction
      exact ⟨hcovers, List.getLast?_concat⟩
    | none => simpa using hcoherent

/-- At any time of a run every document is coherent. -/
theorem isCoherent_run (config : Config) (glob : Glob) (requests : List Request) (uri : Uri) :
    IsCoherent (Filter.ofConfig config glob) uri
      (((ofConfig config glob).run requests).1.store.get? uri)
      (publications uri ((ofConfig config glob).run requests).2) := by
  induction requests using List.reverseRecOn with
  | nil => exact .inl rfl
  | append_singleton requests request ih =>
    have hfilter : ((ofConfig config glob).run requests).1.filter = Filter.ofConfig config glob :=
      filter_run _ requests
    rw [← hfilter] at ih ⊢
    rw [run_concat]
    exact isCoherent_serve request ih

end Workspace

/-! ## Completions -/

/-- The latest page of a document after some requests: the last one that it was
given since it was last closed, or from the beginning if it never was. -/
def latestPage? (uri : Uri) (requests : List Request) : Option Page :=
  (requests.reverse.takeWhile fun request => !request.closes uri).findSome? (Request.page? uri)

theorem latestPage?_nil (uri : Uri) : latestPage? uri [] = none := rfl

theorem latestPage?_concat (uri : Uri) (requests : List Request) (request : Request) :
    latestPage? uri (requests ++ [request]) =
      if request.closes uri then none
      else (request.page? uri).or (latestPage? uri requests) := by
  unfold latestPage?
  rw [List.reverse_concat, List.takeWhile_cons]
  cases request.closes uri with
  | true => rfl
  | false =>
    simp only [Bool.not_false, if_true, Bool.false_eq_true, if_false, List.findSome?_cons]
    cases request.page? uri <;> rfl

namespace Workspace

/-- What is stored of a document at any time of a run. -/
theorem get?_run (config : Config) (glob : Glob) (requests : List Request) (uri : Uri) :
    ((ofConfig config glob).run requests).1.store.get? uri =
      if (Filter.ofConfig config glob).covers uri then latestPage? uri requests else none := by
  induction requests using List.reverseRecOn with
  | nil =>
    rw [latestPage?_nil, ite_self]
    rfl
  | append_singleton requests request ih =>
    have hfilter : ((ofConfig config glob).run requests).1.filter = Filter.ofConfig config glob :=
      filter_run _ requests
    rw [run_concat, (treats_serve _ request uri).stored, ih, hfilter, latestPage?_concat,
      Request.accepted?]
    cases (Filter.ofConfig config glob).covers uri <;> simp

/-- Among all that is heard in a run, the answer to a completion is no list when
the document is not looked after or has no page at that time.  Otherwise it is
what is offered at the position in the text of its latest page. -/
theorem run_complete (config : Config) (glob : Glob) (before after : List Request) (uri : Uri)
    (position : Position) :
    ((ofConfig config glob).run (before ++ .complete uri position :: after)).2 =
      ((ofConfig config glob).run before).2 ++
        .answered uri
          (if (Filter.ofConfig config glob).covers uri then
            (latestPage? uri before).map fun page =>
              Offer.launchers.atPosition page.text.toList position
          else none) ::
        (((ofConfig config glob).run before).1.run after).2 := by
  have hfilter : ((ofConfig config glob).run before).1.filter = Filter.ofConfig config glob :=
    filter_run _ before
  have hoffer : ((ofConfig config glob).run before).1.offer = Offer.launchers := offer_run _ before
  have hanswer : ((ofConfig config glob).run before).1.complete? uri position =
      if (Filter.ofConfig config glob).covers uri then
        (latestPage? uri before).map fun page =>
          Offer.launchers.atPosition page.text.toList position
      else none := by
    rw [complete?, hfilter, hoffer, get?_run]
    split <;> rfl
  rw [run_append, run_cons, ← hanswer]
  rfl

end Workspace

end TaskFile
