import TaskFile.Proofs.Document.Nesting
import TaskFile.Proofs.Token.Continuation
import TaskFile.Proofs.Tree.Front

/-!
# Documents that go on behind an offset

Tokens behind an offset still finish what is open around the offset, but where
and how they do cannot be seen from there.

* `State.upTo` is what can be seen of a state: the part before the offset of the
  tree that there would be if the document ended right behind the offset.
* `upTo_leads` says that no move at a token behind the offset changes it, and
  `State.upTo_run` says the same of a whole run.
* At the end of a text a state has the tree of the document (`upTo_ofText`).  So two
  texts with the same tokens up to an offset show the same there, and a cursor is
  in the same node (`sameAt_ofText_append`).

`Level.Alike` and `Node.Alike` compare containers that are open at the offset: they
may differ in their ends, in the colon of a property and in all that starts
behind the offset.
-/

namespace TaskFile.Document

variable {offset : Nat} {token : Token} {level : Level} {outer : List Frame}

/-! ## Open containers -/

/-- Two open containers of which the same can be seen from an offset. -/
structure Level.Alike (offset : Nat) (first second : Level) : Prop where
  shape : first.shape = second.shape
  start : first.start = second.start
  children : first.children.reverse.upTo offset = second.children.reverse.upTo offset

theorem Level.Alike.refl (level : Level) : level.Alike offset level := ⟨rfl, rfl, rfl⟩

/-- The last child of a container only matters as far as it can be seen. -/
theorem Level.alike_push {first second : Node}
    (hnode : first.toForest.upTo offset = second.toForest.upTo offset) (level : Level) :
    (level.push first).Alike offset (level.push second) :=
  ⟨rfl, rfl, Forest.upTo_reverseOnto level.children hnode⟩

/-- A child that starts behind the offset cannot be seen. -/
theorem Level.alike_push_of_lt {node : Node} (hstart : offset < node.span.start) (level : Level) :
    (level.push node).Alike offset level :=
  ⟨rfl, rfl, Forest.upTo_reverseOnto level.children (Forest.upTo_cons_of_lt hstart)⟩

/-- Where a container is closed cannot be seen from before. -/
theorem Level.Alike.close {first second : Level} {stop stop' : Nat}
    (hlevel : first.Alike offset second) (hstop : offset < stop) (hstop' : offset < stop') :
    (first.close stop).Alike offset (second.close stop') := by
  apply Node.alike_of_children
  · simp only [Level.close, hlevel.shape]
  · exact hlevel.start
  · exact Nat.lt_of_lt_of_le hstop (Nat.le_max_right _ _)
  · exact Nat.lt_of_lt_of_le hstop' (Nat.le_max_right _ _)
  · exact hlevel.children

/-! ## Unfinished properties -/

/-- The colon of a property cannot be seen, and neither can its end and its value
when they lie behind the offset. -/
theorem Key.alike_property (key : Key) {colon colon' : Option Nat} {value value' : Option Node}
    {stop stop' : Nat} (hstop : offset < (value.map (·.span.stop)).getD stop)
    (hstop' : offset < (value'.map (·.span.stop)).getD stop')
    (hvalue : ((value.map Node.toForest).getD .nil).upTo offset =
      ((value'.map Node.toForest).getD .nil).upTo offset) :
    (key.property colon value stop).Alike offset (key.property colon' value' stop') := by
  apply Node.alike_of_children
  · rfl
  · rfl
  · exact Nat.lt_of_lt_of_le hstop (Nat.le_max_right _ _)
  · exact Nat.lt_of_lt_of_le hstop' (Nat.le_max_right _ _)
  · simp only [Key.property, Forest.upTo, hvalue]

/-- What finishes an unfinished property cannot be seen when it lies behind the
offset. -/
theorem Level.alike_settle {token token' : Token} (level : Level) (phase phase' : Phase)
    (hphase : phase.key?.map Prod.fst = phase'.key?.map Prod.fst) (hstart : offset < token.start)
    (hstart' : offset < token'.start) :
    (level.settle phase token).Alike offset (level.settle phase' token') := by
  have hstop : token.start ≤ token.stop := Nat.le_add_right _ _
  have hstop' : token'.start ≤ token'.stop := Nat.le_add_right _ _
  cases hkey : phase.key? with
  | none =>
    have hkey' : phase'.key? = none := by simpa [hkey] using hphase.symm
    rw [settle_of_key?_eq_none hkey, settle_of_key?_eq_none hkey']
    exact .refl level
  | some unfinished =>
    obtain ⟨key, colon⟩ := unfinished
    obtain ⟨colon', hkey'⟩ : ∃ colon', phase'.key? = some (key, colon') := by
      simpa [hkey] using hphase.symm
    rw [settle_of_key? hkey, settle_of_key? hkey']
    apply alike_push
    refine (key.alike_property ?_ ?_ rfl).upTo
    · show offset < if token.kind = .comma then token.start else token.stop
      split <;> omega
    · show offset < if token'.kind = .comma then token'.start else token'.stop
      split <;> omega

/-! ## Unfinished values -/

theorem Frame.alike_put {first second : Node} (hnode : first.Alike offset second) (frame : Frame) :
    (frame.put first).Alike offset (frame.put second) := by
  cases frame with
  | element level => exact level.alike_push hnode.upTo
  | member level key colon =>
    have hproperty : (key.property (some colon) (some first) 0).Alike offset
        (key.property (some colon) (some second) 0) :=
      key.alike_property hnode.lt_stop_first hnode.lt_stop_second hnode.upTo
    exact level.alike_push hproperty.upTo

/-- Where the containers around a value are closed cannot be seen from before. -/
theorem alike_unwind {first second : Node} {finish finish' : Token}
    (hnode : first.Alike offset second) (hfinish : offset < finish.stop)
    (hfinish' : offset < finish'.stop) (outer : List Frame) :
    (unwind finish first outer).1.Alike offset (unwind finish' second outer).1 := by
  induction outer generalizing first second with
  | nil => exact hnode
  | cons frame outer ih => exact ih ((frame.alike_put hnode).close hfinish hfinish')

/-! ## States -/

/-- The end of a text that ends right behind an offset. -/
def endBehind (offset : Nat) : Token := .atEnd (offset + 1)

theorem lt_start_endBehind (offset : Nat) : offset < (endBehind offset).start :=
  Nat.lt_succ_self offset

theorem lt_stop_endBehind (offset : Nat) : offset < (endBehind offset).stop :=
  Nat.lt_succ_self offset

/-- What can be seen from an offset of a value inside the given containers, all
of which are closed right behind the offset. -/
def inside (offset : Nat) (node : Node) (outer : List Frame) : Forest :=
  (unwind (endBehind offset) node outer).1.toForest.upTo offset

/-- What can be seen of a state from an offset: what could be seen of the tree if
the document ended right behind the offset. -/
def State.upTo (offset : Nat) : State → Forest
  | .start => .nil
  | .within level phase outer =>
    inside offset ((level.settle phase (endBehind offset)).close (endBehind offset).stop) outer
  | .root node => node.toForest.upTo offset
  | .over tree => ((tree.map Node.toForest).getD .nil).upTo offset

/-- Of a container that is closed anywhere behind the offset the same can be seen
as if it were closed right behind it. -/
theorem inside_close {first second : Level} {stop : Nat} (hlevel : first.Alike offset second)
    (hstop : offset < stop) (outer : List Frame) :
    inside offset (first.close stop) outer =
      inside offset (second.close (endBehind offset).stop) outer :=
  (alike_unwind (hlevel.close hstop (lt_stop_endBehind offset)) (lt_stop_endBehind offset)
    (lt_stop_endBehind offset) outer).upTo

theorem inside_cons (node : Node) (frame : Frame) (outer : List Frame) :
    inside offset node (frame :: outer) =
      inside offset ((frame.put node).close (endBehind offset).stop) outer := rfl

theorem upTo_deliver (node : Node) (outer : List Frame) :
    (deliver node outer).upTo offset = inside offset node outer := by
  cases outer <;> rfl

/-- A value that starts behind the offset. -/
theorem upTo_enter? {move : Move} (henter : enter? outer token = some move)
    (hstart : offset < token.start) :
    ∃ node : Node, offset < node.span.start ∧ offset < node.span.stop ∧
      move.1.upTo offset = inside offset node outer := by
  rcases enter?_eq_some henter with ⟨kind, -, hstate⟩ | ⟨shape, -, rfl⟩
  · refine ⟨⟨kind, token.span, .nil⟩, hstart, ?_, ?_⟩
    · exact Nat.lt_of_lt_of_le hstart (Nat.le_add_right _ _)
    · rw [hstate, upTo_deliver]
  · refine ⟨Level.close ⟨shape, token.start, .nil⟩ (endBehind offset).stop, hstart, ?_, rfl⟩
    exact Nat.lt_of_lt_of_le hstart (Nat.le_max_left _ _)

/-- A move at a token behind the offset changes nothing that can be seen. -/
theorem upTo_leads {state next : State} (hleads : Leads token state next)
    (hstart : offset < token.start) : next.upTo offset = state.upTo offset := by
  have hstop : offset < token.stop := Nat.lt_of_lt_of_le hstart (Nat.le_add_right _ _)
  have hend := lt_start_endBehind offset
  have hendStop := lt_stop_endBehind offset
  cases hleads with
  | nothing => rfl
  | value henter =>
    obtain ⟨node, hnode, -, hupTo⟩ := upTo_enter? henter hstart
    rw [hupTo]
    exact Forest.upTo_cons_of_lt hnode
  | @comma level phase outer =>
    have hlevel := level.alike_settle phase phase rfl hstart hend
    exact inside_close hlevel hendStop outer
  | @close level phase outer =>
    have hlevel := level.alike_settle phase phase rfl hstart hend
    rw [upTo_deliver]
    exact inside_close hlevel hstop outer
  | @finish level phase outer =>
    have hlevel := level.alike_settle phase phase rfl hstart hend
    exact (alike_unwind (hlevel.close hstop hendStop) hstop hendStop outer).upTo
  | @element level phase outer move hkey hshape henter =>
    obtain ⟨node, hnode, -, hupTo⟩ := upTo_enter? henter hstart
    rw [hupTo, inside_cons, State.upTo, Level.settle_of_key?_eq_none hkey]
    exact inside_close (level.alike_push_of_lt hnode) hendStop outer
  | @name level phase outer hkey =>
    rw [State.upTo, State.upTo, Level.settle_of_key?_eq_none hkey]
    exact inside_close (level.alike_push_of_lt hstart) hendStop outer
  | @colon level key outer =>
    have hlevel := level.alike_settle (.colon key token.start) (.key key) rfl hend hend
    exact inside_close hlevel hendStop outer
  | @member level key colon outer move henter =>
    obtain ⟨node, hnode, hnodeStop, hupTo⟩ := upTo_enter? henter hstart
    have hproperty : (key.property (some colon) (some node) 0).Alike offset
        (key.property (some colon) none (endBehind offset).stop) :=
      key.alike_property hnodeStop hendStop (Forest.upTo_cons_of_lt hnode)
    rw [hupTo, inside_cons]
    exact inside_close (level.alike_push hproperty.upTo) hendStop outer
  | @lost level phase outer hkey =>
    rw [State.upTo, State.upTo, Level.settle_of_key?_eq_none hkey]
    rfl
  | @stuck level phase key colon outer hkey =>
    rw [State.upTo, State.upTo, Level.settle_of_key? hkey]
    rfl
  | root => rfl
  | «over» => rfl

/-! ## Runs -/

variable (options : Options)

theorem State.upTo_advance (state : State) (hstart : offset < token.start) :
    (state.advance options token).1.upTo offset = state.upTo offset := by
  unfold advance
  split
  · rfl
  split
  · exact upTo_leads (leads_step options state token) hstart
  · rfl

/-- Tokens behind the offset change nothing that can be seen. -/
theorem State.upTo_run (state : State) {tokens : List Token}
    (hstart : ∀ token ∈ tokens, offset < token.start) :
    (state.run options tokens).1.upTo offset = state.upTo offset := by
  induction tokens generalizing state with
  | nil => rfl
  | cons token tokens ih =>
    obtain ⟨htoken, htokens⟩ := List.forall_mem_cons.1 hstart
    rw [run_cons, Move.after_fst, ih _ htokens, upTo_advance options state htoken]

/-! ## Whole documents -/

/-- What can be seen of the tree of a document from an offset. -/
def upTo (offset : Nat) (document : Document) : Forest :=
  ((document.tree.map Node.toForest).getD .nil).upTo offset

theorem upTo_of_isOver {state : State} (hover : state.isOver = true) :
    ((state.tree.map Node.toForest).getD .nil).upTo offset = state.upTo offset := by
  cases state with
  | «over» tree => rfl
  | _ => contradiction

/-- What can be seen of a document is what can be seen of the state at its end. -/
theorem upTo_ofText (text : List Char) :
    (ofText options text).upTo offset =
      (State.start.run options (Token.ofText text ++ [Token.endOf text])).1.upTo offset := by
  rw [ofText, ofTokens_eq_run, upTo]
  apply upTo_of_isOver
  rw [State.run_append, Move.after_fst]
  exact isOver_advance options rfl _

/-- However a text goes on, the same can be seen from an offset before its last
token. -/
theorem upTo_ofText_append {text : List Char} {last : Token}
    (hlast : (Token.ofText text).getLast? = some last) (hoffset : offset < last.start)
    (first second : List Char) :
    (ofText options (text ++ first)).upTo offset =
      (ofText options (text ++ second)).upTo offset := by
  obtain ⟨before, hbefore⟩ := Token.ofText_append hlast
  have hupTo : ∀ more, (ofText options (text ++ more)).upTo offset =
      (State.start.run options before).1.upTo offset := by
    intro more
    obtain ⟨after, htokens, hafter⟩ := hbefore more
    rw [upTo_ofText, htokens, State.run_append, Move.after_fst]
    exact State.upTo_run options _ fun token htoken =>
      Nat.lt_of_lt_of_le hoffset (hafter token htoken)
  rw [hupTo first, hupTo second]

/-! ## The node at an offset -/

/-- The number of the innermost node of a document around an offset. -/
def atOffset? (offset : Nat) (document : Document) : Option Nat :=
  document.tree.bind fun root => root.atOffset? offset false

/-- In two documents a cursor is in no node, or in nodes with the same number, the
same kind up to a colon and the same path. -/
def SameAt (offset : Nat) (first second : Document) : Prop :=
  (first.atOffset? offset = none ∧ second.atOffset? offset = none) ∨
    ∃ root root', first.tree = some root ∧ second.tree = some root' ∧ root.SameAt offset root'

/-- The node at an offset is among what can be seen from there. -/
theorem atOffset?_upTo (text : List Char) (offset : Nat) :
    ((ofText options text).upTo offset).atOffset? offset false 0 =
      (ofText options text).atOffset? offset := by
  unfold upTo atOffset?
  cases hroot : (ofText options text).tree with
  | none => rfl
  | some root => exact Node.atOffset?_toForest_upTo (rootFits_ofText hroot).all

/-- However a text goes on, a cursor before its last token is in the same node. -/
theorem sameAt_ofText_append {text : List Char} {last : Token}
    (hlast : (Token.ofText text).getLast? = some last) (hoffset : offset < last.start)
    (first second : List Char) :
    (ofText options (text ++ first)).SameAt offset (ofText options (text ++ second)) := by
  have hupTo := upTo_ofText_append options hlast hoffset first second
  have hfound := congrArg (fun forest => forest.atOffset? offset false 0) hupTo
  simp only [atOffset?_upTo] at hfound
  cases hnumber : (ofText options (text ++ first)).atOffset? offset with
  | none => exact .inl ⟨hnumber, hfound.symm.trans hnumber⟩
  | some number =>
    obtain ⟨root, hroot, hnode⟩ := Option.bind_eq_some_iff.1 hnumber
    obtain ⟨root', hroot', -⟩ := Option.bind_eq_some_iff.1 (hfound.symm.trans hnumber)
    rw [upTo, upTo, hroot, hroot'] at hupTo
    exact .inr ⟨root, root', hroot, hroot', Node.sameAt_of_upTo (rootFits_ofText hroot).all
      (rootFits_ofText hroot').all hupTo hnode⟩

end TaskFile.Document
