import TaskFile.Proofs.Document.Quiet
import TaskFile.Proofs.Tree.Arena

/-!
# What a reading has finished

Reading on never changes a node that is finished, and a container with nothing in it
can be found in the text.

* `State.All` speaks of the nodes that a state has finished.  What holds of those of a
  later state holds of those of an earlier one (`all_of_leads`, `all_of_reaches`), so each
  of them is a node of the tree in the end (`exists_has_of_reaches`).
* `all_leads` goes the other way: what holds of the nodes that a move can finish stays true
  of all that are finished.
* `Emptied` says where among the tokens a container stands that has no children, and
  in which state it was opened.  Every finished container without children is one of
  these (`emptied_of_reaches`), and so is every one in a tree (`emptied_of_has`).
-/

namespace TaskFile.Document

/-! ## Finished nodes -/

/-- A property of all nodes that a state has finished. -/
def State.All (Q : Node → Prop) : State → Prop
  | .start => True
  | .within level _ outer => level.children.All Q ∧ ∀ frame ∈ outer, frame.level.children.All Q
  | .root node => node.All Q
  | .over tree => ∀ node ∈ tree, node.All Q

variable {options : Options} {token : Token} {level : Level} {outer : List Frame} {node : Node}
  {first next : State} {tokens : List Token} {Q : Node → Prop}

theorem State.All.imp {R : Node → Prop} {state : State} (hall : state.All Q)
    (himp : ∀ node, Q node → R node) : state.All R := by
  cases state with
  | start => trivial
  | within level phase outer =>
    exact ⟨hall.1.imp himp, fun frame hframe => (hall.2 frame hframe).imp himp⟩
  | root node => exact ⟨himp _ hall.1, hall.2.imp himp⟩
  | «over» tree =>
    exact fun node hnode => ⟨himp _ (hall node hnode).1, (hall node hnode).2.imp himp⟩

/-- A tree is finished. -/
theorem State.All.tree {state : State} {root : Node} (hall : state.All Q)
    (htree : state.tree = some root) : root.All Q := by
  cases state with
  | start | within => contradiction
  | root node =>
    obtain rfl := Option.some.inj htree
    exact hall
  | «over» tree => exact hall root htree

/-- What is finished where a value is asked for is finished in the containers that it
is put in. -/
theorem all_iff_of_asks (hasks : State.Asks first outer) :
    first.All Q ↔ ∀ frame ∈ outer, frame.level.children.All Q := by
  cases hasks with
  | start => simp [State.All]
  | element => simp [State.All, Frame.level]
  | member => simp [State.All, Frame.level]

/-- A container around a finished value has finished it. -/
theorem all_of_put {frame : Frame} (hall : (frame.put node).children.All Q) :
    node.All Q ∧ frame.level.children.All Q := by
  cases frame with
  | element level =>
    obtain ⟨hnode, hchildren, hlevel⟩ := hall
    exact ⟨⟨hnode, hchildren⟩, hlevel⟩
  | member level key colon =>
    obtain ⟨-, ⟨-, -, hnode⟩, hlevel⟩ := hall
    exact ⟨Node.all_toForest.1 hnode, hlevel⟩

/-- A finished value joins what was finished before. -/
theorem all_of_deliver (hall : (deliver node outer).All Q) :
    node.All Q ∧ ∀ frame ∈ outer, frame.level.children.All Q := by
  cases outer with
  | nil => exact ⟨hall, by simp⟩
  | cons frame outer =>
    obtain ⟨hlevel, houter⟩ := hall
    obtain ⟨hnode, hframe⟩ := all_of_put hlevel
    exact ⟨hnode, List.forall_mem_cons.2 ⟨hframe, houter⟩⟩

/-- The end of the text finishes a value together with the containers around it. -/
theorem all_of_unwind (hall : (unwind token node outer).1.All Q) :
    node.All Q ∧ ∀ frame ∈ outer, frame.level.children.All Q := by
  induction outer generalizing node with
  | nil => exact ⟨hall, by simp⟩
  | cons frame outer ih =>
    obtain ⟨⟨-, hchildren⟩, houter⟩ := ih hall
    obtain ⟨hnode, hframe⟩ := all_of_put (Forest.all_reverse.1 hchildren)
    exact ⟨hnode, List.forall_mem_cons.2 ⟨hframe, houter⟩⟩

/-- The first token of a value keeps what is finished around it. -/
theorem all_of_enter? {move : Move} (henter : enter? outer token = some move)
    (hall : move.1.All Q) : ∀ frame ∈ outer, frame.level.children.All Q := by
  rcases enter?_eq_some henter with ⟨kind, -, hnext⟩ | ⟨shape, -, rfl⟩
  · rw [hnext] at hall
    exact (all_of_deliver hall).2
  · exact hall.2

theorem all_of_settle {phase : Phase} (hall : (level.settle phase token).children.All Q) :
    level.children.All Q := by
  unfold Level.settle at hall
  split at hall
  · exact hall.2.2
  · exact hall

/-- A move keeps the nodes that are finished. -/
theorem all_of_leads (hleads : Leads token first next) (hall : next.All Q) : first.All Q := by
  cases hleads with
  | nothing | value => trivial
  | comma => exact ⟨all_of_settle hall.1, hall.2⟩
  | close =>
    obtain ⟨⟨-, hchildren⟩, houter⟩ := all_of_deliver hall
    exact ⟨all_of_settle (Forest.all_reverse.1 hchildren), houter⟩
  | finish =>
    obtain ⟨⟨-, hchildren⟩, houter⟩ := all_of_unwind (hall _ rfl)
    exact ⟨all_of_settle (Forest.all_reverse.1 hchildren), houter⟩
  | element _ _ henter => exact List.forall_mem_cons.1 (all_of_enter? henter hall)
  | member henter => exact List.forall_mem_cons.1 (all_of_enter? henter hall)
  | name | colon | lost | stuck | «over» => exact hall
  | root => exact hall _ rfl

theorem all_of_quiet (hquiet : Quiet options token first next) (hall : next.All Q) :
    first.All Q := by
  have hleads := leads_step options first token
  rw [step_of_quiet hquiet] at hleads
  exact all_of_leads hleads hall

theorem all_of_reaches (hreaches : Reaches options first tokens next) (hall : next.All Q) :
    first.All Q := by
  induction hreaches with
  | nil => exact hall
  | skip _ _ _ ih => exact ih hall
  | move _ _ _ hquiet ih => exact ih (all_of_quiet hquiet hall)

/-- Every node of a tree has a number in it. -/
theorem all_has (root : Node) : root.All fun node => ∃ number above, root.Has number above node :=
  Node.all_toForest.1 (Forest.all_of_has none 0 fun hhas => ⟨_, _, hhas⟩)

/-- A finished value is a node of the tree that is read in the end. -/
theorem exists_has_of_reaches {root : Node}
    (hreaches : Reaches options (deliver node outer) tokens (.root root)) :
    ∃ number above, root.Has number above node := by
  have hroot : (State.root root).All fun node => ∃ number above, root.Has number above node :=
    all_has root
  exact (all_of_deliver (all_of_reaches hreaches hroot)).1.1

/-- A finished value is a node of the tree that the end of the text finishes. -/
theorem exists_has_unwind (finish : Token) (node : Node) (outer : List Frame) :
    ∃ number above, (unwind finish node outer).1.Has number above node :=
  (all_of_unwind (all_has (unwind finish node outer).1)).1.1

/-! ## Nodes that a move finishes -/

section Finishes

variable (hproperty : ∀ node : Node, node.kind.isProperty = true → Q node)
  (hkey : ∀ name span, Q ⟨.string name, span, .nil⟩)

include hproperty hkey

theorem all_put (hnode : node.All Q) {frame : Frame} (hframe : frame.level.children.All Q) :
    (frame.put node).children.All Q := by
  cases frame with
  | element level => exact ⟨hnode.1, hnode.2, hframe⟩
  | member level key colon =>
    exact ⟨hproperty _ rfl, ⟨hkey _ _, trivial, Node.all_toForest.2 hnode⟩, hframe⟩

/-- What holds of a finished value, of properties and of their keys holds of everything
that is finished with the value. -/
theorem all_deliver (hnode : node.All Q) (houter : ∀ frame ∈ outer, frame.level.children.All Q) :
    (deliver node outer).All Q := by
  cases outer with
  | nil => exact hnode
  | cons frame outer =>
    obtain ⟨hframe, houter⟩ := List.forall_mem_cons.1 houter
    exact ⟨all_put hproperty hkey hnode hframe, houter⟩

theorem all_settle (hlevel : level.children.All Q) (phase : Phase) (token : Token) :
    (level.settle phase token).children.All Q := by
  unfold Level.settle
  split
  · exact ⟨hproperty _ rfl, ⟨hkey _ _, trivial, trivial⟩, hlevel⟩
  · exact hlevel

variable (hscalar : ∀ kind problems, scalar? token = some (kind, problems) →
    Q ⟨kind, token.span, .nil⟩)
  (hcontainer : ∀ (level : Level) (stop : Nat), Q (level.close stop))

include hscalar

theorem all_enter? {move : Move} (henter : enter? outer token = some move)
    (houter : ∀ frame ∈ outer, frame.level.children.All Q) : move.1.All Q := by
  rcases enter?_eq_some henter with ⟨kind, hkind, hnext⟩ | ⟨shape, -, rfl⟩
  · rw [hnext]
    exact all_deliver hproperty hkey ⟨hscalar kind _ hkind, trivial⟩ houter
  · exact ⟨trivial, houter⟩

omit hscalar

include hcontainer

theorem all_unwind (hnode : node.All Q) (houter : ∀ frame ∈ outer, frame.level.children.All Q)
    (finish : Token) : (unwind finish node outer).1.All Q := by
  induction outer generalizing node with
  | nil => exact hnode
  | cons frame outer ih =>
    obtain ⟨hframe, houter⟩ := List.forall_mem_cons.1 houter
    exact ih ⟨hcontainer _ _, Forest.all_reverse.2 (all_put hproperty hkey hnode hframe)⟩ houter

include hscalar

/-- What holds of all that is finished holds after a move if it holds of all that the move
can finish. -/
theorem all_leads (hleads : Leads token first next) (hall : first.All Q) : next.All Q := by
  have henter {outer : List Frame} {move : Move} (hmove : enter? outer token = some move)
      (houter : ∀ frame ∈ outer, frame.level.children.All Q) : move.1.All Q :=
    all_enter? hproperty hkey hscalar hmove houter
  have hclose {level : Level} (hlevel : level.children.All Q) (phase : Phase) :
      ((level.settle phase token).close token.stop).All Q :=
    ⟨hcontainer _ _, Forest.all_reverse.2 (all_settle hproperty hkey hlevel phase token)⟩
  cases hleads with
  | nothing => exact nofun
  | value hmove => exact henter hmove (List.forall_mem_nil _)
  | comma => exact ⟨all_settle hproperty hkey hall.1 _ _, hall.2⟩
  | close => exact all_deliver hproperty hkey (hclose hall.1 _) hall.2
  | finish =>
    intro root hroot
    obtain rfl := Option.some.inj hroot
    exact all_unwind hproperty hkey hcontainer (hclose hall.1 _) hall.2 token
  | element _ _ hmove => exact henter hmove (List.forall_mem_cons.2 hall)
  | member hmove => exact henter hmove (List.forall_mem_cons.2 hall)
  | name | colon | lost | stuck | «over» => exact hall
  | root =>
    intro root hroot
    obtain rfl := Option.some.inj hroot
    exact hall

end Finishes

/-! ## Containers with nothing in them -/

/-- A container in which no significant token was read since it was opened. -/
def Opened (options : Options) (tokens : List Token) (level : Level) (outer : List Frame) : Prop :=
  ∃ front opener between, tokens = front ++ opener :: between ∧
    opener.kind = level.shape.opener ∧ level = ⟨level.shape, opener.start, .nil⟩ ∧
    (∀ token ∈ between, token.kind.isSignificant = false) ∧
    Reaches options .start (front ++ [opener]) (.within level .first outer)

/-- A container that was closed with nothing in it. -/
def Emptied (options : Options) (tokens : List Token) (node : Node) : Prop :=
  ∃ level outer front closer back, tokens = front ++ closer :: back ∧
    Opened options front level outer ∧ closer.kind = level.shape.closer ∧
    node = level.close closer.stop

/-- Insignificant tokens leave an opened container as it is. -/
theorem Opened.skip (hopened : Opened options tokens level outer)
    (hkind : token.kind.isSignificant = false) :
    Opened options (tokens ++ [token]) level outer := by
  obtain ⟨front, opener, between, rfl, hopener, hlevel, hbetween, hreaches⟩ := hopened
  refine ⟨front, opener, between ++ [token], by simp, hopener, hlevel, ?_, hreaches⟩
  exact List.forall_mem_append.2 ⟨hbetween, List.forall_mem_singleton.2 hkind⟩

theorem Emptied.concat (hemptied : Emptied options tokens node) (token : Token) :
    Emptied options (tokens ++ [token]) node := by
  obtain ⟨level, outer, front, closer, back, rfl, hopened, hcloser, hnode⟩ := hemptied
  exact ⟨level, outer, front, closer, back ++ [token], by simp, hopened, hcloser, hnode⟩

/-- Where a child may start or a container may end, either nothing was read in the
container or it has a child. -/
def State.Remembers (options : Options) (tokens : List Token) : State → Prop
  | .within level .first outer => Opened options tokens level outer
  | .within level .next _ | .within level .comma _ => level.children ≠ .nil
  | _ => True

theorem remembers_deliver : (deliver node outer).Remembers options tokens := by
  cases outer with
  | nil => trivial
  | cons frame outer => cases frame <;> exact Forest.noConfusion

theorem remembers_of_reaches (hreaches : Reaches options .start tokens next) :
    next.Remembers options tokens := by
  induction hreaches with
  | nil => trivial
  | @skip tokens token state _ _ hkind ih =>
    cases state with
    | within level phase outer =>
      cases phase with
      | first => exact Opened.skip ih hkind
      | _ => exact ih
    | _ => trivial
  | @move tokens token state next hreaches halone hkind hquiet ih =>
    cases hquiet with
    | enter hasks henter =>
      rcases enter?_eq_some henter with ⟨kind, -, hnext⟩ | ⟨shape, hopener, hmove⟩
      · simp only at hnext
        rw [hnext]
        exact remembers_deliver
      · obtain rfl := (Prod.mk.inj hmove).1
        exact ⟨tokens, token, [], rfl, hopener, rfl, by simp,
          .move hreaches halone hkind (.enter hasks henter)⟩
    | name | colon => trivial
    | comma => exact ih
    | close => exact remembers_deliver

/-- A container without children that is closed was closed with nothing in it. -/
theorem emptied_of_close {phase : Phase}
    (hreaches : Reaches options .start tokens (.within level phase outer))
    (hphase : phase = .first ∨ phase = .next ∨ phase = .comma ∧ options.trailingComma = true)
    (hkind : token.kind = level.shape.closer)
    (hchildren : (level.close token.stop).children = .nil) :
    Emptied options (tokens ++ [token]) (level.close token.stop) := by
  have hremembers := remembers_of_reaches hreaches
  have hnil : level.children = .nil := by
    have hlist : level.children.reverse.toList = [] := congrArg Forest.toList hchildren
    rw [Forest.toList_reverse, List.reverse_eq_nil_iff] at hlist
    cases hlevel : level.children with
    | nil => rfl
    | cons => simp [hlevel] at hlist
  rcases hphase with rfl | rfl | ⟨rfl, -⟩
  · exact ⟨level, outer, tokens, token, [], rfl, hremembers, hkind, rfl⟩
  · exact absurd hnil hremembers
  · exact absurd hnil hremembers

/-- Every finished container without children was closed with nothing in it. -/
theorem emptied_of_reaches (hreaches : Reaches options .start tokens next) :
    next.All fun node => ∀ shape : Shape, node.kind = shape.kind → node.children = .nil →
      Emptied options tokens node := by
  induction hreaches with
  | nil => trivial
  | skip _ _ _ ih =>
    exact ih.imp fun node hnode shape hkind hchildren => (hnode shape hkind hchildren).concat _
  | @move tokens token state next hreaches halone hkind hquiet ih =>
    have hbefore : state.All fun node => ∀ shape : Shape, node.kind = shape.kind →
        node.children = .nil → Emptied options (tokens ++ [token]) node :=
      ih.imp fun node hnode shape hkind hchildren => (hnode shape hkind hchildren).concat _
    -- Only closing a container makes a container node.
    have hproperty : ∀ node : Node, node.kind.isProperty = true → ∀ shape : Shape,
        node.kind = shape.kind → node.children = .nil →
          Emptied options (tokens ++ [token]) node := by
      intro node hproperty shape hshape
      rw [hshape] at hproperty
      cases shape <;> contradiction
    have hscalar : ∀ kind span, kind.isScalar = true → ∀ shape : Shape, kind = shape.kind →
        Forest.nil = .nil → Emptied options (tokens ++ [token]) ⟨kind, span, .nil⟩ := by
      rintro kind span hscalar shape rfl
      cases shape <;> contradiction
    have hname (name : String) (span : Span) := hscalar (.string name) span rfl
    cases hquiet with
    | enter hasks henter =>
      have houter := (all_iff_of_asks hasks).1 hbefore
      rcases enter?_eq_some henter with ⟨kind, hkind, hnext⟩ | ⟨shape, -, hmove⟩
      · simp only at hnext
        rw [hnext]
        exact all_deliver hproperty hname ⟨hscalar _ _ (isScalar_of_scalar? hkind), trivial⟩ houter
      · rw [(Prod.mk.inj hmove).1]
        exact ⟨trivial, houter⟩
    | name | colon | comma => exact hbefore
    | close hphase hcloser =>
      refine all_deliver hproperty hname ⟨?_, Forest.all_reverse.2 hbefore.1⟩ hbefore.2
      exact fun _ _ hchildren => emptied_of_close hreaches hphase hcloser hchildren

/-- A container without children in a tree was closed with nothing in it. -/
theorem emptied_of_has {root : Node} {number : Nat} {above : Option Nat}
    (hreaches : Reaches options .start tokens (.root root)) (hhas : root.Has number above node)
    (shape : Shape) (hkind : node.kind = shape.kind) (hchildren : node.children = .nil) :
    Emptied options tokens node := by
  have hall : root.All fun node => ∀ shape : Shape, node.kind = shape.kind →
      node.children = .nil → Emptied options tokens node := emptied_of_reaches hreaches
  exact (Forest.Has.of_all hhas (Node.all_toForest.2 hall)).1 shape hkind hchildren

end TaskFile.Document
