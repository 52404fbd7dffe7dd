import TaskFile.Proofs.Document.Continuation
import TaskFile.Proofs.Document.Growth
import TaskFile.Proofs.Document.Options
import TaskFile.Proofs.Document.Report
import TaskFile.Proofs.Token.Insertion
import TaskFile.Proofs.Tree.Offset

/-!
# Brackets that directly follow a comma

A container that is closed right after a comma misses a child.  `trailing` is what it
misses, read off a text and its tree: the last significant token before the bracket is a
comma, and the bracket closes the container that is the innermost node around it.

A reading knows both of these from its state.

* `phase_eq_comma_iff`: an open container waits for a child after a comma when the last
  significant token was one.
* `closed?_of_within`: the innermost node around a bracket after a comma is the container
  that is open there, however the text goes on, and `closed?_of_isDone`: where nothing is
  open there is no node around the bracket.

So what is missing at a token is decided by the state that the token is read in
(`trailing_eq`).
-/

namespace TaskFile

open Text

/-! ## Trailing commas -/

/-- The last significant token that starts before an offset. -/
def Token.before? (text : List Char) (offset : Nat) : Option Token :=
  ((significant text).filter (·.start < offset)).getLast?

namespace Document

/-- The container that a kind of tokens closes. -/
def Shape.ofCloser? : Token.Kind → Option Shape
  | .braceClose => some .object
  | .bracketClose => some .array
  | _ => none

/-- What a container of a shape misses when it is closed where a child should start. -/
def Shape.missing (closer : Token) : Shape → List Problem
  | .object => [complain .nameExpected closer, complain .valueExpected closer]
  | .array => [complain .valueExpected closer]

/-- The innermost node of a document around an offset. -/
def innermost? (offset : Nat) (document : Document) : Option Node :=
  document.tree.bind fun root => (root.atOffset? offset false).bind root.get?

/-- The container that a token of a text closes: the innermost node around it, when the
token is the bracket for that kind of node. -/
def closed? (text : List Char) (token : Token) : Option Shape :=
  (Shape.ofCloser? token.kind).filter fun shape =>
    ((ofText default text).innermost? token.start).any (·.kind == shape.kind)

/-- What is missing at a token that closes a container and directly follows a comma. -/
def trailing (text : List Char) (token : Token) : List Problem :=
  if (Token.before? text token.start).any (·.kind == .comma) then
    ((closed? text token).map (·.missing token)).getD []
  else []

/-- What is missing at all such tokens of a text. -/
def trailings (text : List Char) : List Problem := (Token.ofText text).flatMap (trailing text)

/-- The same at a token in a state of the reading. -/
def State.trailing (token : Token) : State → List Problem
  | .within level .comma _ =>
    if token.kind = level.shape.closer then level.shape.missing token else []
  | _ => []

variable {options : Options} {text : List Char} {past rest : List Token} {token : Token}

/-! ## The token before -/

theorem State.fst_advance_of_isSignificant (options : Options) (state : State)
    (hkind : token.kind.isSignificant = true) :
    (state.advance options token).1 = (state.step options token).1 := by
  unfold State.advance
  rw [if_pos hkind]
  cases state <;> rfl

/-- A run is in the state that its last significant token led to, or nothing was read. -/
theorem State.run_last (options : Options) (tokens : List Token) :
    (tokens.filter (·.kind.isSignificant) = [] ∧ (State.start.run options tokens).1 = .start) ∨
      ∃ (last : Token) (state : State),
        (tokens.filter (·.kind.isSignificant)).getLast? = some last ∧
          (State.start.run options tokens).1 = (state.step options last).1 := by
  have hrun := (State.start.run_filter_isSignificant options tokens).1
  rw [hrun]
  rcases List.eq_nil_or_concat (tokens.filter (·.kind.isSignificant)) with
    hnil | ⟨front, last, hlast⟩
  · rw [hnil]
    exact .inl ⟨rfl, rfl⟩
  · have hmem : last ∈ tokens.filter (·.kind.isSignificant) := by simp [hlast]
    have hkind : last.kind.isSignificant = true := (List.mem_filter.1 hmem).2
    refine .inr ⟨last, (State.start.run options front).1, by simp [hlast], ?_⟩
    rw [hlast, List.concat_eq_append, State.run_append, Move.after_fst, State.run_cons,
      Move.after_fst, State.run_nil]
    exact State.fst_advance_of_isSignificant options _ hkind

/-- Whether a comma was just read in an open container. -/
def State.isAfterComma : State → Bool
  | .within _ .comma _ => true
  | _ => false

theorem isAfterComma_deliver (node : Node) (outer : List Frame) :
    (deliver node outer).isAfterComma = false := by
  cases outer <;> rfl

theorem isAfterComma_enter? {outer : List Frame} {move : Move}
    (henter : enter? outer token = some move) : move.1.isAfterComma = false := by
  rcases enter?_eq_some henter with ⟨kind, -, hnext⟩ | ⟨shape, -, rfl⟩
  · rw [hnext]
    exact isAfterComma_deliver _ outer
  · rfl

/-- Only a comma leads behind a comma. -/
theorem kind_of_isAfterComma {state next : State} (hleads : Leads token state next)
    (hcomma : next.isAfterComma = true) : token.kind = .comma := by
  cases hleads with
  | comma hkind => exact hkind
  | value henter | element _ _ henter | member henter =>
    rw [isAfterComma_enter? henter] at hcomma
    contradiction
  | close =>
    rw [isAfterComma_deliver] at hcomma
    contradiction
  | _ => contradiction

/-- In an open container a comma was just read when the last significant token is one. -/
theorem phase_eq_comma_iff {level : Level} {phase : Phase} {outer : List Frame}
    (hstate : (State.start.run options past).1 = .within level phase outer) :
    phase = .comma ↔
      ((past.filter (·.kind.isSignificant)).getLast?).any (·.kind == .comma) = true := by
  rcases State.run_last options past with ⟨-, hstart⟩ | ⟨last, state, hlast, hstep⟩
  · rw [hstart] at hstate
    contradiction
  rw [hlast, Option.any_some, beq_iff_eq]
  rw [hstep] at hstate
  constructor
  · rintro rfl
    refine kind_of_isAfterComma (leads_step options state last) ?_
    rw [hstate]
    rfl
  · intro hkind
    cases state with
    | start => simp [State.step, enter?, scalar?, hkind] at hstate
    | within before phase' outer' =>
      have hseparator : isSeparator before.shape last = true := isSeparator_iff.2 (.inl hkind)
      rw [State.step, fst_proceed_of_isSeparator hseparator, separate_comma hkind] at hstate
      exact (State.within.inj hstate).2.1.symm
    | root node => exact State.noConfusion hstate
    | «over» tree => exact State.noConfusion hstate

/-- The significant tokens before a token are those that were read before it. -/
theorem before?_eq (htokens : Token.ofText text = past ++ token :: rest) :
    Token.before? text token.start = (past.filter (·.kind.isSignificant)).getLast? := by
  have hpairwise := (List.pairwise_append.1 (Token.pairwise_start text)).1
  rw [htokens, List.pairwise_append, List.pairwise_cons] at hpairwise
  obtain ⟨-, ⟨hrest, -⟩, hpast⟩ := hpairwise
  have hbefore : past.filter (·.start < token.start) = past :=
    List.filter_eq_self.2 fun first hfirst => by
      simpa using hpast first hfirst token List.mem_cons_self
  have hbehind : (token :: rest).filter (·.start < token.start) = [] := by
    rw [List.filter_eq_nil_iff]
    intro other hother
    rcases List.mem_cons.1 hother with rfl | hother
    · simp
    · have := hrest other hother
      simp only [decide_eq_true_eq]
      omega
  rw [Token.before?, Token.significant, List.filter_comm, htokens, List.filter_append, hbefore,
    hbehind, List.append_nil]

/-! ## The container around a bracket -/

theorem Shape.ofCloser?_eq_some_iff {kind : Token.Kind} {shape : Shape} :
    Shape.ofCloser? kind = some shape ↔ kind = shape.closer := by
  cases shape <;> cases kind <;> simp [Shape.ofCloser?, Shape.closer]

theorem Shape.closer_inj {first second : Shape} (hcloser : first.closer = second.closer) :
    first = second := by
  cases first <;> cases second <;> first | rfl | contradiction

theorem Shape.kind_of_plain {kind : Node.Kind} {shape : Shape}
    (hkind : kind.plain = shape.kind.plain) : kind = shape.kind := by
  cases shape <;> cases kind <;> first | rfl | contradiction

/-- What is innermost where an open container could be closed is the container. -/
theorem exists_atOffset?_unwind {level : Level} {outer : List Frame} {offset : Nat}
    (hlevel : level.IsFit (fun _ => True) offset)
    (houter : FramesFit (fun _ => True) outer level.start) :
    let container := level.close (endBehind offset).stop
    let root := (unwind (endBehind offset) container outer).1
    root.All (Node.IsFit fun _ => True) ∧
      ∃ number, root.atOffset? offset false = some number ∧ root.get? number = some container := by
  intro container root
  have hend : offset < (endBehind offset).stop := lt_stop_endBehind offset
  obtain ⟨hall, hvalue, hspan⟩ := hlevel.close trivial hend.le
  have hroot : root.All (Node.IsFit fun _ => True) :=
    (rootFits_unwind houter hall hvalue (by rw [hspan]) (by rw [hspan]) trivial).all
  obtain ⟨number, above, hhas⟩ := exists_has_unwind (endBehind offset) container outer
  refine ⟨hroot, number, (Node.atOffset?_eq_some_iff hroot).2 ⟨above, container, hhas, ?_⟩,
    hhas.get?⟩
  refine ⟨?_, fun child hchild haround => ?_⟩
  · rw [hspan]
    exact ⟨hlevel.start_lt.le, hend⟩
  · -- All children end where the reading has come to.
    have hspans : ∀ node ∈ level.children.reverse.toList, node.span.start < node.span.stop :=
      fun node hnode => (Forest.all_iff.1 (Forest.all_reverse.2 hlevel.all) node hnode).1.nonempty
    have hstop := (hlevel.children.mem hspans hchild).2
    omega

/-- Where the same can be seen of a document as of an open container, the container is
the innermost node. -/
theorem innermost?_of_upTo {level : Level} {outer : List Frame} {offset : Nat}
    (hlevel : level.IsFit (fun _ => True) offset)
    (houter : FramesFit (fun _ => True) outer level.start)
    (hupTo : (ofText options text).upTo offset =
      inside offset (level.close (endBehind offset).stop) outer) :
    ∃ node, (ofText options text).innermost? offset = some node ∧ node.kind = level.shape.kind := by
  obtain ⟨hall, number, hfound, hcontainer⟩ := exists_atOffset?_unwind hlevel houter
  have hnumber : (ofText options text).atOffset? offset = some number := by
    rw [← atOffset?_upTo, hupTo, inside, Node.atOffset?_toForest_upTo hall, hfound]
  obtain ⟨root, hroot, -⟩ := Option.bind_eq_some_iff.1 hnumber
  have hseen : root.toForest.upTo offset =
      inside offset (level.close (endBehind offset).stop) outer := by
    rw [← hupTo, upTo, hroot]
    rfl
  obtain ⟨number', node, node', hfound₁, hfound₂, hnode, hnode', hkind, -⟩ :=
    Node.sameAt_of_upTo hall (rootFits_ofText hroot).all hseen.symm hfound
  obtain rfl : number = number' := Option.some.inj (hfound.symm.trans hfound₁)
  obtain rfl := Option.some.inj (hcontainer.symm.trans hnode)
  refine ⟨node', ?_, Shape.kind_of_plain hkind.symm⟩
  rw [innermost?, hroot, Option.bind_some, hfound₂, Option.bind_some, hnode']

/-- A bracket after a comma closes the open container, or it is no child and skipped. -/
theorem fst_proceed_closer {level : Level} {outer : List Frame} {shape : Shape}
    (hkind : token.kind = shape.closer) :
    (proceed options level .comma outer token).1 =
      if shape = level.shape then deliver (level.close token.stop) outer
      else .within level .lost outer := by
  split
  · rename_i hshape
    rw [hshape] at hkind
    rw [fst_proceed_of_isSeparator (isSeparator_of_closer hkind)]
    exact congrArg Prod.fst (separate_closer hkind)
  · rename_i hshape
    have hcloser : isSeparator shape token = true := isSeparator_iff.2 (.inr (.inl hkind))
    have hseparator : isSeparator level.shape token = false := by
      rw [Bool.eq_false_iff, Ne, isSeparator_iff, hkind]
      rintro (hcomma | hsame | hfinish)
      · exact closer_ne_comma shape hcomma
      · exact hshape (Shape.closer_inj hsame)
      · exact closer_ne_finish shape hfinish
    have hskip : skip level outer token = (.within level .lost outer, []) := by
      simp [skip, hseparator]
    rw [fst_proceed_comma]
    unfold child
    split
    · rw [enter?_of_isSeparator hcloser]
      exact congrArg Prod.fst hskip
    · rw [if_neg (ne_string_of_isSeparator hcloser)]
      exact congrArg Prod.fst hskip

/-- What is read before a token of a text ends before it. -/
theorem isFit_of_ofText_eq (htokens : Token.ofText text = past ++ token :: rest) :
    (State.start.run default past).1.IsFit (fun _ => True) token.start := by
  have hsplit : Token.ofText text ++ [Token.endOf text] =
      past ++ token :: (rest ++ [Token.endOf text]) := by
    rw [htokens, List.append_assoc, List.cons_append]
  exact isFit_before (fun _ _ => ⟨trivial, trivial⟩) default hsplit

theorem isSignificant_closer (shape : Shape) : shape.closer.isSignificant = true := by
  cases shape <;> rfl

/-- Behind a bracket after a comma the same can be seen of a document as of the container
that was open before it. -/
theorem upTo_of_within {level : Level} {outer : List Frame} {shape : Shape}
    (htokens : Token.ofText text = past ++ token :: rest) (hkind : token.kind = shape.closer)
    (hstate : (State.start.run options past).1 = .within level .comma outer) :
    (ofText options text).upTo token.start =
      inside token.start (level.close (endBehind token.start).stop) outer := by
  have hmem : token ∈ Token.ofText text ++ [Token.endOf text] := by simp [htokens]
  have hstop : token.start < token.stop :=
    Token.start_lt_stop hmem (hkind ▸ closer_ne_finish shape)
  have hbehind : ∀ other ∈ rest ++ [Token.endOf text], token.start < other.start := by
    have hpairwise := Token.pairwise_start text
    rw [htokens, List.append_assoc, List.cons_append, List.pairwise_append] at hpairwise
    exact (List.pairwise_cons.1 hpairwise.2.1).1
  have hnext : (State.run options (.within level .comma outer) [token]).1 =
      if shape = level.shape then deliver (level.close token.stop) outer
      else .within level .lost outer := by
    rw [← fst_proceed_closer hkind]
    exact State.fst_advance_of_isSignificant options _ (hkind ▸ isSignificant_closer shape)
  rw [upTo_ofText, htokens, List.append_assoc, List.cons_append, State.run_append, Move.after_fst,
    hstate, ← List.singleton_append, State.run_append, Move.after_fst,
    State.upTo_run options _ hbehind, hnext]
  split
  · rw [upTo_deliver]
    exact inside_close (.refl level) hstop outer
  · rfl

/-- A bracket after a comma closes the container that is open just when it is the bracket
of that container. -/
theorem closed?_of_within {level : Level} {outer : List Frame}
    (htokens : Token.ofText text = past ++ token :: rest)
    (hstate : (State.start.run default past).1 = .within level .comma outer) :
    closed? text token = if token.kind = level.shape.closer then some level.shape else none := by
  cases hshape : Shape.ofCloser? token.kind with
  | none =>
    have hkind : token.kind ≠ level.shape.closer := fun hkind => by
      rw [Shape.ofCloser?_eq_some_iff.2 hkind] at hshape
      contradiction
    rw [closed?, hshape, if_neg hkind]
    rfl
  | some shape =>
    have hkind := Shape.ofCloser?_eq_some_iff.1 hshape
    have hfit := isFit_of_ofText_eq htokens
    rw [hstate] at hfit
    obtain ⟨node, hnode, hnodeKind⟩ :=
      innermost?_of_upTo hfit.1 hfit.2 (upTo_of_within htokens hkind hstate)
    have hsame : (node.kind == shape.kind) = decide (token.kind = level.shape.closer) := by
      rw [hnodeKind, hkind]
      cases shape <;> cases level.shape <;> rfl
    rw [closed?, hshape, hnode, Option.filter_some, Option.any_some, hsame]
    by_cases hcloser : token.kind = level.shape.closer
    · obtain rfl : shape = level.shape := Shape.closer_inj (hkind.symm.trans hcloser)
      simp [hcloser]
    · simp [hcloser]

/-! ## Where nothing is open -/

/-- Whether a tree is finished, or there will be none. -/
def State.isDone : State → Bool
  | .root _ | .over _ => true
  | _ => false

/-- Nothing changes a tree that is finished. -/
theorem State.tree_run {state : State} (hdone : state.isDone = true) (tokens : List Token) :
    (state.run options tokens).1.tree = state.tree := by
  induction tokens generalizing state with
  | nil => rfl
  | cons token tokens ih =>
    have hnext : (state.advance options token).1.isDone = true ∧
        (state.advance options token).1.tree = state.tree := by
      unfold State.advance
      cases state with
      | root node => split_ifs <;> exact ⟨rfl, rfl⟩
      | «over» tree => exact ⟨rfl, rfl⟩
      | _ => contradiction
    rw [run_cons, Move.after_fst, ih hnext.1, hnext.2]

/-- A finished tree ends before the next token. -/
theorem closed?_of_isDone (htokens : Token.ofText text = past ++ token :: rest)
    (hdone : (State.start.run default past).1.isDone = true) : closed? text token = none := by
  have hfit := isFit_of_ofText_eq htokens
  have htree : (ofText default text).tree = (State.start.run default past).1.tree := by
    rw [ofText, ofTokens_eq_run, htokens, List.append_assoc, State.run_append, Move.after_fst]
    exact State.tree_run hdone _
  have hnone : (ofText default text).innermost? token.start = none := by
    cases hroot : (ofText default text).tree with
    | none => rw [innermost?, hroot, Option.bind_none]
    | some root =>
      have hstop : root.span.stop ≤ token.start := by
        rw [hroot] at htree
        generalize (State.start.run default past).1 = state at hdone hfit htree
        cases state with
        | root node =>
          obtain rfl : root = node := Option.some.inj htree
          exact hfit.stop_le
        | «over» tree =>
          obtain rfl : some root = tree := htree
          exact hfit.stop_le
        | _ => contradiction
      have houtside : root.atOffset? token.start false = none :=
        (Node.atOffset?_eq_none_iff_span (rootFits_ofText hroot).all).2 fun haround =>
          Nat.not_lt.2 hstop haround.2
      rw [innermost?, hroot, Option.bind_some, houtside, Option.bind_none]
  rw [closed?, hnone]
  cases Shape.ofCloser? token.kind <;> rfl

theorem leads_ne_start {state next : State} (hleads : Leads token state next) : next ≠ .start := by
  have hdeliver (node : Node) (outer : List Frame) : deliver node outer ≠ .start := by
    cases outer <;> exact State.noConfusion
  have henter {outer : List Frame} {move : Move} (hmove : enter? outer token = some move) :
      move.1 ≠ .start := by
    rcases enter?_eq_some hmove with ⟨kind, -, hnext⟩ | ⟨shape, -, rfl⟩
    · exact hnext ▸ hdeliver _ outer
    · exact State.noConfusion
  cases hleads with
  | value hmove | element _ _ hmove | member hmove => exact henter hmove
  | close => exact hdeliver _ _
  | _ => exact State.noConfusion

/-- A reading is at the start as long as no token was significant. -/
theorem run_eq_start_iff (options : Options) (tokens : List Token) :
    (State.start.run options tokens).1 = .start ↔
      tokens.filter (·.kind.isSignificant) = [] := by
  rcases State.run_last options tokens with ⟨hnil, hstart⟩ | ⟨last, state, hlast, hstep⟩
  · exact iff_of_true hstart hnil
  · refine iff_of_false ?_ fun hnil => ?_
    · rw [hstep]
      exact leads_ne_start (leads_step options state last)
    · rw [hnil] at hlast
      contradiction

/-! ## What is missing -/

theorem isMetOn_missing (shape : Shape) (token : Token) : IsMetOn token (shape.missing token) := by
  cases shape with
  | object => exact (isMetOn_complain rfl token).cons rfl
  | array => exact isMetOn_complain rfl token

theorem isMetOn_trailing (text : List Char) (token : Token) :
    IsMetOn token (trailing text token) := by
  unfold trailing
  split
  · cases closed? text token with
    | none => exact isMetOn_nil token
    | some shape => exact isMetOn_missing shape token
  · exact isMetOn_nil token

theorem trailing_endOf (text : List Char) : trailing text (Token.endOf text) = [] := ite_self _

/-- Nothing is missing at the end of a text, which closes no container. -/
theorem State.trailing_endOf (state : State) (text : List Char) :
    state.trailing (Token.endOf text) = [] := by
  cases state with
  | within level phase outer =>
    cases phase with
    | comma => exact if_neg (closer_ne_finish level.shape).symm
    | _ => rfl
  | _ => rfl

/-- What is missing at a token is decided by the state that the token is read in. -/
theorem trailing_eq (htokens : Token.ofText text ++ [Token.endOf text] = past ++ token :: rest) :
    trailing text token = (State.start.run options past).1.trailing token := by
  rcases List.eq_nil_or_concat rest with rfl | ⟨rest, last, rfl⟩
  · obtain ⟨rfl, hlast⟩ := List.append_inj' htokens rfl
    obtain rfl := List.singleton_inj.1 hlast
    rw [trailing_endOf, State.trailing_endOf]
  rw [List.concat_eq_append, ← List.cons_append, ← List.append_assoc] at htokens
  have htokens := (List.append_inj' htokens rfl).1
  rw [State.fst_run options default, trailing, before?_eq htokens]
  cases hstate : (State.start.run default past).1 with
  | start =>
    rw [(run_eq_start_iff default past).1 hstate]
    rfl
  | within level phase outer =>
    by_cases hphase : phase = .comma
    · rw [if_pos ((phase_eq_comma_iff hstate).1 hphase)]
      subst hphase
      rw [closed?_of_within htokens hstate, State.trailing]
      split <;> rfl
    · rw [if_neg (hphase ∘ (phase_eq_comma_iff hstate).2)]
      cases phase <;> first | rfl | contradiction
  | root node | «over» tree =>
    rw [closed?_of_isDone htokens (hstate ▸ rfl), Option.map_none, Option.getD_none, ite_self]
    rfl

/-- A problem on a token of a text is about a trailing comma when it is one of those that
are missing at this token. -/
theorem mem_trailings_iff {problem : Problem}
    (htoken : token ∈ Token.ofText text ++ [Token.endOf text])
    (hspan : problem.span = token.span) :
    problem ∈ trailings text ↔ problem ∈ trailing text token := by
  constructor
  · intro hproblem
    obtain ⟨other, hother, hproblem⟩ := List.mem_flatMap.1 hproblem
    have hstart : other.start = token.start :=
      congrArg Span.start ((isMetOn_trailing text other problem hproblem).2.symm.trans hspan)
    rwa [← Token.eq_of_start_eq (List.mem_append_left _ hother) htoken hstart]
  · intro hproblem
    rcases List.mem_append.1 htoken with htoken | htoken
    · exact List.mem_flatMap.2 ⟨token, htoken, hproblem⟩
    · obtain rfl := List.mem_singleton.1 htoken
      rw [trailing_endOf] at hproblem
      contradiction

/-- A comment does not come between a comma and a bracket, but the bracket of another
container does. -/
example :
    trailings "\x7b\"a\":[1,/**/],\x7d".toList =
        [⟨.valueExpected, ⟨12, 13⟩⟩, ⟨.nameExpected, ⟨14, 15⟩⟩, ⟨.valueExpected, ⟨14, 15⟩⟩] ∧
      trailings "[1,\x7d]".toList = [] := by
  decide +kernel

end Document

end TaskFile
