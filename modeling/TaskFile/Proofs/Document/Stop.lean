import TaskFile.Proofs.Document.Bracket

/-!
# Where a reading stops

A reading stops at the first significant token behind the tree, or at the first one of all
when there is no tree (`Stops`), and `exists_stops` says that it looks at the tokens up to
that one and at no other.  Which token this is depends on where the tree ends, and the
state before it tells (`cases_of_leads_over`): nothing significant was read, or the text ends
inside containers (`stops_endOf`), or a finished tree waits for what follows it
(`stops_of_run_root`).

Each of these tokens is looked at once, however much of the text does not fit: the problems
of single tokens among those of a text are the ones of these tokens, in order
(`problems_ofText_alone`).  What is wrong with a single token is said by `Token.wrongs`, the
fault before the kind, and `Token.problems_eq_wrongs` that this is what is reported of it.
-/

namespace TaskFile

/-! ## Single tokens -/

namespace Token

/-- The kinds of tokens that a document has no use for. -/
def idle : List Kind := [.blank, .lineBreak, .lineComment, .blockComment, .stray]

theorem isSignificant_iff_notMem_idle {kind : Kind} :
    kind.isSignificant = true ↔ kind ∉ idle := by
  cases kind <;> decide

/-- What is wrong with a token by itself: its fault if it has one, and that it is a comment where
comments are forbidden, or stray text. -/
def wrongs (forbidComments : Bool) (token : Token) : List Problem.Kind :=
  (match token.fault with
    | some fault => [.fault fault]
    | none => []) ++
  match token.kind, forbidComments with
  | .lineComment, true | .blockComment, true => [.commentForbidden]
  | .stray, _ => [.stray]
  | _, _ => []

/-- All that is wrong with a token is reported, on the span of the token. -/
theorem problems_eq_wrongs (forbidComments : Bool) (token : Token) :
    token.problems forbidComments =
      (token.wrongs forbidComments).map fun kind => ⟨kind, token.span⟩ := by
  unfold problems wrongs
  rw [List.map_append]
  refine congrArg₂ (· ++ ·) ?fault ?kind
  case fault => cases token.fault <;> rfl
  case kind => cases token.kind <;> cases forbidComments <;> rfl

end Token

namespace Document

/-- A token that ends a reading: the document has use for it, and the tree ends before it if
there is one. -/
def Stops (tree : Option Node) (token : Token) : Prop :=
  token.kind ∉ Token.idle ∧ ∀ root ∈ tree, root.span.stop ≤ token.start

variable {text : List Char} {token : Token}

theorem Stops.isSignificant {tree : Option Node} (hstops : Stops tree token) :
    token.kind.isSignificant = true :=
  Token.isSignificant_iff_notMem_idle.2 hstops.1

/-! ## Runs that stop -/

section Runs

variable (options : Options) {state : State} {tokens : List Token}

/-- Nothing is looked at once the reading is over. -/
theorem State.run_of_isOver (hover : state.isOver = true) (tokens : List Token) :
    state.run options tokens = (state, []) := by
  have hadvance (token : Token) : state.advance options token = (state, []) := if_pos hover
  induction tokens with
  | nil => rfl
  | cons token tokens ih => rw [run_cons, hadvance, ih, Move.after_nil]

/-- A run that is over in the end is over from one of its tokens on. -/
theorem State.exists_isOver (hstate : state.isOver = false)
    (hover : (state.run options tokens).1.isOver = true) :
    ∃ before last after, tokens = before ++ last :: after ∧
      (state.run options before).1.isOver = false ∧
      ((state.run options before).1.advance options last).1.isOver = true := by
  induction tokens generalizing state with
  | nil =>
    rw [run_nil, hstate] at hover
    contradiction
  | cons token tokens ih =>
    cases hnext : (state.advance options token).1.isOver with
    | true => exact ⟨[], token, tokens, rfl, hstate, hnext⟩
    | false =>
      obtain ⟨before, last, after, rfl, hbefore, hlast⟩ := ih hnext hover
      exact ⟨token :: before, last, after, rfl, hbefore, hlast⟩

/-- The problems at one token are those of the token, apart from problems of the document. -/
theorem State.filter_advance_alone (hstate : state.isOver = false) (token : Token) :
    (state.advance options token).2.filter (!·.kind.isStructural) =
      token.problems options.forbidComments := by
  have hown : (token.problems options.forbidComments).filter (!·.kind.isStructural) =
      token.problems options.forbidComments := by
    refine List.filter_eq_self.2 fun problem hproblem => ?_
    rw [isStructural_of_mem_problems hproblem]
    rfl
  cases hkind : token.kind.isSignificant with
  | true =>
    have hmet : (state.step options token).2.filter (!·.kind.isStructural) = [] := by
      refine List.filter_eq_nil_iff.2 fun problem hproblem => ?_
      rw [(isMetOn_step options state token problem hproblem).1]
      exact Bool.false_ne_true
    rw [advance_eq_step options hstate hkind, Move.after_snd, List.filter_append, hown, hmet,
      List.append_nil]
  | false =>
    rw [advance_eq_self options hstate hkind]
    exact hown

/-- As long as a reading is not over it looks at every token once. -/
theorem State.filter_run_alone (hover : (state.run options tokens).1.isOver = false) :
    (state.run options tokens).2.filter (!·.kind.isStructural) =
      tokens.flatMap (Token.problems options.forbidComments) := by
  induction tokens generalizing state with
  | nil => rfl
  | cons token tokens ih =>
    have hstate : state.isOver = false := by
      cases hstate : state.isOver with
      | false => rfl
      | true =>
        rw [run_of_isOver options hstate, hstate] at hover
        contradiction
    rw [run_cons, Move.after_snd, List.filter_append, filter_advance_alone options hstate,
      ih hover, List.flatMap_cons]

end Runs

/-! ## Finished trees -/

theorem eq_of_deliver_eq_root {node root : Node} {outer : List Frame}
    (hroot : deliver node outer = .root root) : node = root := by
  cases outer with
  | nil => exact State.root.inj hroot
  | cons frame outer => contradiction

/-- A tree is finished at a token that it ends with. -/
theorem stop_le_of_leads_root {state : State} {root : Node}
    (hleads : Leads token state (.root root)) : token.stop ≤ root.span.stop := by
  have henter {outer : List Frame} {move : Move} (hmove : enter? outer token = some move)
      (hroot : move.1 = .root root) : token.stop ≤ root.span.stop := by
    rcases enter?_eq_some hmove with ⟨kind, -, hnext⟩ | ⟨shape, -, rfl⟩
    · obtain rfl := eq_of_deliver_eq_root (hnext.symm.trans hroot)
      exact Nat.le_refl _
    · contradiction
  generalize hnext : State.root root = next at hleads
  cases hleads with
  | value hmove | element _ _ hmove | member hmove => exact henter hmove hnext.symm
  | close =>
    obtain rfl := eq_of_deliver_eq_root hnext.symm
    exact Nat.le_max_right _ _
  | _ => contradiction

/-- The end of the text is the end of every container that it closes. -/
theorem stop_le_unwind {finish : Token} {node : Node} (hnode : finish.stop ≤ node.span.stop)
    (outer : List Frame) : finish.stop ≤ (unwind finish node outer).1.span.stop := by
  induction outer generalizing node with
  | nil => exact hnode
  | cons frame outer ih => exact ih (Nat.le_max_right _ _)

theorem isOver_deliver (node : Node) (outer : List Frame) :
    (deliver node outer).isOver = false := by
  cases outer <;> rfl

/-- A reading is over without a tree, at the end of the text, or with the next significant
token after a finished tree. -/
theorem cases_of_leads_over {state : State} {tree : Option Node}
    (hleads : Leads token state (.over tree)) :
    state = .start ∧ tree = none ∨
      token.kind = .finish ∧ (∃ root ∈ tree, token.stop ≤ root.span.stop) ∨
      (∃ root, state = .root root ∧ tree = some root) ∨ state = .over tree := by
  have hdeliver {node : Node} {outer : List Frame} : deliver node outer ≠ .over tree := by
    intro hover
    have hopen := isOver_deliver node outer
    rw [hover] at hopen
    contradiction
  have henter {outer : List Frame} {move : Move} (hmove : enter? outer token = some move) :
      move.1 ≠ .over tree := by
    rcases enter?_eq_some hmove with ⟨kind, -, hnext⟩ | ⟨shape, -, rfl⟩
    · rw [hnext]
      exact hdeliver
    · exact State.noConfusion
  generalize hnext : State.over tree = next at hleads
  cases hleads with
  | nothing => exact .inl ⟨rfl, State.over.inj hnext⟩
  | value hmove | element _ _ hmove | member hmove => exact absurd hnext.symm (henter hmove)
  | close => exact absurd hnext.symm hdeliver
  | @finish _ _ outer hkind =>
    obtain rfl := State.over.inj hnext
    exact .inr (.inl ⟨hkind, _, rfl, stop_le_unwind (Nat.le_max_right _ _) outer⟩)
  | root => exact .inr (.inr (.inl ⟨_, rfl, State.over.inj hnext⟩))
  | «over» =>
    obtain rfl := State.over.inj hnext
    exact .inr (.inr (.inr rfl))
  | _ => contradiction

/-! ## Whole documents -/

section Tokens

variable {options : Options} {past rest : List Token}

/-- The significant tokens that a finished tree was read from start before its end. -/
theorem start_lt_of_run_root {root : Node}
    (htokens : Token.ofText text ++ [Token.endOf text] = past ++ rest)
    (hroot : (State.start.run options past).1 = .root root) :
    ∀ token ∈ past, token.kind.isSignificant = true → token.start < root.span.stop := by
  rcases State.run_last options past with ⟨-, hstart⟩ | ⟨last, state, hlast, hstep⟩
  · rw [hstart] at hroot
    contradiction
  have hleads : Leads last state (.root root) := by
    rw [← hroot, hstep]
    exact leads_step options state last
  have hstop := stop_le_of_leads_root hleads
  obtain ⟨front, hfront⟩ := List.getLast?_eq_some_iff.1 hlast
  have horder : (front ++ [last]).Pairwise (·.start < ·.start) := by
    rw [← hfront]
    have hpast := Token.pairwise_start text
    rw [htokens] at hpast
    exact (List.pairwise_append.1 hpast).1.filter _
  have hmem : last ∈ past := by
    have hlast : last ∈ past.filter (·.kind.isSignificant) := by simp [hfront]
    exact (List.mem_filter.1 hlast).1
  have hlt : last.start < last.stop := by
    refine Token.start_lt_stop (htokens ▸ List.mem_append_left rest hmem) fun hkind => ?_
    have hover := isOver_advance options hkind state
    rw [State.fst_advance_of_isSignificant options state (by rw [hkind]; rfl), ← hstep,
      hroot] at hover
    contradiction
  intro token htoken hkind
  have hsplit : token ∈ front ++ [last] := hfront ▸ List.mem_filter.2 ⟨htoken, hkind⟩
  rcases List.mem_append.1 hsplit with hbefore | hhere
  · have hstart := (List.pairwise_append.1 horder).2.2 token hbefore last (by simp)
    omega
  · obtain rfl := List.mem_singleton.1 hhere
    omega

/-- Behind a finished tree the next significant token stops the reading. -/
theorem stops_of_run_root {root : Node} {last : Token}
    (htokens : Token.ofText text ++ [Token.endOf text] = past ++ last :: rest)
    (hroot : (State.start.run options past).1 = .root root)
    (hkind : last.kind.isSignificant = true) :
    Stops (some root) last ∧ ∀ token ∈ past, ¬Stops (some root) token := by
  have hfit : (State.start.run options past).1.IsFit (fun _ => True) last.start :=
    isFit_before (fun _ _ => ⟨trivial, trivial⟩) options htokens
  rw [hroot] at hfit
  constructor
  · refine ⟨Token.isSignificant_iff_notMem_idle.1 hkind, fun other hother => ?_⟩
    obtain rfl := Option.some.inj hother
    exact hfit.stop_le
  · intro token htoken hstops
    have hbefore := start_lt_of_run_root htokens hroot token htoken hstops.isSignificant
    exact Nat.not_lt.2 (hstops.2 root rfl) hbefore

/-- A tree that goes as far as the text does is read to the end. -/
theorem stops_endOf {root : Node}
    (htokens : Token.ofText text ++ [Token.endOf text] = past ++ Token.endOf text :: rest)
    (hroot : (ofText options text).tree = some root)
    (hstop : (Token.endOf text).stop ≤ root.span.stop) :
    Stops (some root) (Token.endOf text) ∧ ∀ token ∈ past, ¬Stops (some root) token := by
  constructor
  · refine ⟨Token.isSignificant_iff_notMem_idle.1 rfl, fun other hother => ?_⟩
    obtain rfl := Option.some.inj hother
    exact (rootFits_ofText hroot).stop_le
  · intro token htoken hstops
    have horder := Token.pairwise_start text
    rw [htokens] at horder
    have hbefore : token.start < (Token.endOf text).stop :=
      (List.pairwise_append.1 horder).2.2 token htoken _ List.mem_cons_self
    exact Nat.not_lt.2 (hstops.2 root rfl) (Nat.lt_of_lt_of_le hbefore hstop)

/-- A reading is over at a token that stops it, and none of the tokens before stops it. -/
theorem stops_of_advance {last : Token} {tree : Option Node}
    (htokens : Token.ofText text ++ [Token.endOf text] = past ++ last :: rest)
    (hopen : (State.start.run options past).1.isOver = false)
    (hover : ((State.start.run options past).1.advance options last).1 = .over tree)
    (htree : (ofText options text).tree = tree) :
    Stops tree last ∧ ∀ token ∈ past, ¬Stops tree token := by
  have hkind : last.kind.isSignificant = true := by
    by_contra hkind
    rw [State.advance_eq_self options hopen (Bool.eq_false_iff.2 hkind)] at hover
    rw [show (State.start.run options past).1 = _ from hover] at hopen
    contradiction
  have hleads : Leads last (State.start.run options past).1 (.over tree) := by
    rw [← hover, State.fst_advance_of_isSignificant options _ hkind]
    exact leads_step options _ last
  rcases cases_of_leads_over hleads with ⟨hstart, rfl⟩ | ⟨hfinish, root, rfl, hstop⟩ |
    ⟨root, hroot, rfl⟩ | hstate
  · -- no token before was significant
    refine ⟨⟨Token.isSignificant_iff_notMem_idle.1 hkind, by simp⟩,
      fun token htoken hstops => ?_⟩
    have hnone := (run_eq_start_iff options past).1 hstart
    exact List.filter_eq_nil_iff.1 hnone token htoken hstops.isSignificant
  · have hmem : last ∈ Token.ofText text ++ [Token.endOf text] := by simp [htokens]
    obtain rfl : last = Token.endOf text := by
      rcases List.mem_append.1 hmem with hlisted | hend
      · exact absurd hfinish (isSound_of_mem_tokens hlisted).1
      · exact List.mem_singleton.1 hend
    exact stops_endOf htokens htree hstop
  · exact stops_of_run_root htokens hroot hkind
  · rw [hstate] at hopen
    contradiction

end Tokens

/-- A reading looks at the tokens up to the first one that stops it. -/
theorem exists_stops (options : Options) (text : List Char) :
    ∃ before last after, Token.ofText text ++ [Token.endOf text] = before ++ last :: after ∧
      Stops (ofText options text).tree last ∧
      (∀ token ∈ before, ¬Stops (ofText options text).tree token) ∧
      (State.start.run options before).1.isOver = false ∧
      (ofText options text).problems = (State.start.run options before).2 ++
        ((State.start.run options before).1.advance options last).2 := by
  have hover : (State.start.run options (Token.ofText text ++ [Token.endOf text])).1.isOver =
      true := by
    rw [State.run_append, Move.after_fst]
    exact isOver_advance options rfl _
  obtain ⟨before, last, after, htokens, hopen, hlast⟩ := State.exists_isOver options rfl hover
  have hrun : State.start.run options (Token.ofText text ++ [Token.endOf text]) =
      ((State.start.run options before).1.advance options last).after
        (State.start.run options before).2 := by
    rw [htokens, State.run_append, State.run_cons, State.run_of_isOver options hlast]
    simp [Move.after]
  have hread : ofText options text =
      ⟨((State.start.run options before).1.advance options last).1.tree,
        (State.start.run options before).2 ++
          ((State.start.run options before).1.advance options last).2⟩ := by
    rw [ofText, ofTokens_eq_run, hrun]
    rfl
  cases hnext : ((State.start.run options before).1.advance options last).1 with
  | «over» tree =>
    have htree : (ofText options text).tree = tree := by rw [hread, hnext, State.tree]
    obtain ⟨hstops, hnone⟩ := stops_of_advance htokens hopen hnext htree
    rw [← htree] at hstops hnone
    exact ⟨before, last, after, htokens, hstops, hnone, hopen, congrArg problems hread⟩
  | _ =>
    rw [hnext] at hlast
    contradiction

/-- The problems of single tokens, faults, stray text and forbidden comments, are what is wrong
with each of the tokens up to the first one that stops the reading, the end included, in turn and
on the span of the token.  None is lost or doubled by what is skipped. -/
theorem problems_ofText_alone (options : Options) (text : List Char) :
    ∃ before last after, Token.ofText text ++ [Token.endOf text] = before ++ last :: after ∧
      Stops (ofText options text).tree last ∧
      (∀ token ∈ before, ¬Stops (ofText options text).tree token) ∧
      (ofText options text).problems.filter (!·.kind.isStructural) =
        (before ++ [last]).flatMap fun token =>
          (token.wrongs options.forbidComments).map fun kind => ⟨kind, token.span⟩ := by
  obtain ⟨before, last, after, htokens, hstops, hnone, hopen, hproblems⟩ :=
    exists_stops options text
  refine ⟨before, last, after, htokens, hstops, hnone, ?_⟩
  have hown := funext (Token.problems_eq_wrongs options.forbidComments)
  rw [hproblems, List.filter_append, State.filter_run_alone options hopen,
    State.filter_advance_alone options hopen, ← hown, List.flatMap_append,
    List.flatMap_singleton]

example : (ofText default "0 # 1 #".toList).problems =
    [⟨.stray, ⟨2, 3⟩⟩, ⟨.endExpected, ⟨4, 5⟩⟩] := by
  decide +kernel

end Document

end TaskFile
