import TaskFile.Proofs.Document.Skeleton

/-!
# Problems sit on tokens

Whatever a token gives reason to report is reported on that token: its own
problems (`isOn_problems`) and those of the move at it.  `reports_step` says what the
latter are.  The move meets the token out of place, or as a number without a value
(`Meets`), and at the end of the text it adds one problem for each container that is
still open, the innermost first (`unclosed`).

So every problem of a text has the span of one of its tokens
(`exists_token_of_mem_problems`), and the problems are in the order of the text
(`problems_ofText_inOrder`).

The two sources do not mix: the problems of moves are those of the document, and a
token alone gives reason for none of these.
-/

namespace TaskFile

/-- Whether a problem says that a token is out of place. -/
def Problem.Kind.isMisplaced : Problem.Kind → Bool
  | .nameExpected | .valueExpected | .colonExpected | .commaExpected | .endExpected => true
  | _ => false

namespace Document

/-! ## One token -/

/-- All problems have the span of a token. -/
def IsOn (token : Token) (problems : List Problem) : Prop :=
  ∀ problem ∈ problems, problem.span = token.span

/-- All problems are problems of the document, with the span of a token. -/
def IsMetOn (token : Token) (problems : List Problem) : Prop :=
  ∀ problem ∈ problems, problem.kind.isStructural = true ∧ problem.span = token.span

variable {token : Token} {level : Level} {outer : List Frame}

theorem IsMetOn.isOn {problems : List Problem} (hproblems : IsMetOn token problems) :
    IsOn token problems := fun problem hproblem => (hproblems problem hproblem).2

theorem isMetOn_nil (token : Token) : IsMetOn token [] := fun _ hproblem => nomatch hproblem

theorem isMetOn_complain {kind : Problem.Kind} (hkind : kind.isStructural = true) (token : Token) :
    IsMetOn token [complain kind token] :=
  List.forall_mem_singleton.2 ⟨hkind, rfl⟩

theorem IsMetOn.cons {problems : List Problem} (hproblems : IsMetOn token problems)
    {kind : Problem.Kind} (hkind : kind.isStructural = true) :
    IsMetOn token (complain kind token :: problems) :=
  List.forall_mem_cons.2 ⟨⟨hkind, rfl⟩, hproblems⟩

/-- What a token alone gives reason to report. -/
theorem isOn_problems (forbidComments : Bool) (token : Token) :
    IsOn token (token.problems forbidComments) := by
  unfold Token.problems
  refine List.forall_mem_append.2 ⟨?_, ?_⟩
  · cases token.fault with
    | none => simp
    | some fault => exact List.forall_mem_singleton.2 rfl
  · split
    · exact List.forall_mem_singleton.2 rfl
    split
    · exact List.forall_mem_singleton.2 rfl
    · simp

/-- A token alone gives no reason for problems of the document. -/
theorem isStructural_of_mem_problems {forbidComments : Bool} {problem : Problem}
    (hproblem : problem ∈ token.problems forbidComments) : problem.kind.isStructural = false := by
  have hnone := token.filter_isStructural_problems forbidComments
  simpa using List.filter_eq_nil_iff.1 hnone problem hproblem

/-! ## One move -/

/-- A problem that a move meets on its token. -/
inductive Meets (token : Token) : Problem → Prop where
  /-- The token is out of place. -/
  | misplaced {kind : Problem.Kind} (hkind : kind.isMisplaced = true) :
      Meets token (complain kind token)
  /-- The token is a number without a value. -/
  | numeral {kind : Node.Kind}
      (hscalar : scalar? token = some (kind, [complain .numberFormat token])) :
      Meets token (complain .numberFormat token)

/-- What is reported of open containers at a token: at the end of the text, that each of
them is still open. -/
def unclosed (token : Token) (levels : List Level) : List Problem :=
  if token.kind = .finish then levels.map fun level => complain level.shape.unclosed token
  else []

/-- The open containers of a state, the innermost first. -/
def State.levels : State → List Level
  | .within level _ outer => level :: outer.map Frame.level
  | _ => []

/-- Problems of a move: those that it meets on its token, and then those of the given
containers that are open. -/
def Reports (token : Token) (levels : List Level) (problems : List Problem) : Prop :=
  ∃ met, problems = met ++ unclosed token levels ∧ ∀ problem ∈ met, Meets token problem

variable {levels : List Level}

theorem unclosed_of_finish (hkind : token.kind = .finish) (levels : List Level) :
    unclosed token levels = levels.map fun level => complain level.shape.unclosed token :=
  if_pos hkind

theorem unclosed_eq_nil (hkind : token.kind ≠ .finish) (levels : List Level) :
    unclosed token levels = [] :=
  if_neg hkind

/-- Nothing is reported where nothing is open. -/
@[simp] theorem unclosed_nil (token : Token) : unclosed token [] = [] := ite_self _

theorem exists_shape_of_mem_unclosed {problem : Problem}
    (hproblem : problem ∈ unclosed token levels) :
    ∃ shape : Shape, problem = complain shape.unclosed token := by
  by_cases hkind : token.kind = .finish
  · rw [unclosed_of_finish hkind] at hproblem
    obtain ⟨level, -, rfl⟩ := List.mem_map.1 hproblem
    exact ⟨level.shape, rfl⟩
  · rw [unclosed_eq_nil hkind] at hproblem
    contradiction

theorem reports_unclosed (token : Token) (levels : List Level) :
    Reports token levels (unclosed token levels) :=
  ⟨[], rfl, List.forall_mem_nil _⟩

/-- Before the end of the text nothing but the token is reported. -/
theorem reports_of_meets {problems : List Problem} (hkind : token.kind ≠ .finish)
    (hproblems : ∀ problem ∈ problems, Meets token problem) : Reports token levels problems :=
  ⟨problems, by rw [unclosed_eq_nil hkind, List.append_nil], hproblems⟩

theorem reports_nil (hkind : token.kind ≠ .finish) : Reports token levels [] :=
  reports_of_meets hkind (List.forall_mem_nil _)

theorem Reports.cons {problems : List Problem} (hproblems : Reports token levels problems)
    {kind : Problem.Kind} (hkind : kind.isMisplaced = true) :
    Reports token levels (complain kind token :: problems) := by
  obtain ⟨met, rfl, hmet⟩ := hproblems
  exact ⟨complain kind token :: met, rfl, List.forall_mem_cons.2 ⟨.misplaced hkind, hmet⟩⟩

/-- The containers around a value are reported when the end of the text closes them. -/
theorem snd_unwind (finish : Token) (node : Node) (outer : List Frame) :
    (unwind finish node outer).2 =
      outer.map fun frame => complain frame.level.shape.unclosed finish := by
  induction outer generalizing node with
  | nil => rfl
  | cons frame outer ih => exact congrArg (_ :: ·) (ih _)

theorem snd_separate (level : Level) (outer : List Frame) (token : Token) :
    (separate level outer token).2 = unclosed token (level :: outer.map Frame.level) := by
  by_cases hkind : token.kind = .finish
  · have hcomma : token.kind ≠ .comma := by simp [hkind]
    rw [separate, if_neg hcomma, if_pos hkind, unclosed_of_finish hkind, List.map_cons,
      List.map_map]
    exact congrArg (_ :: ·) (snd_unwind token _ outer)
  · rw [unclosed_eq_nil hkind, separate, if_neg hkind]
    split <;> rfl

theorem reports_separate (level : Level) (outer : List Frame) (token : Token) :
    Reports token (level :: outer.map Frame.level) (separate level outer token).2 := by
  rw [snd_separate]
  exact reports_unclosed token _

/-- The end of the text is a separator of every container. -/
theorem ne_finish_of_isSeparator_eq_false {shape : Shape}
    (hseparator : ¬isSeparator shape token = true) : token.kind ≠ .finish :=
  fun hkind => hseparator (isSeparator_iff.2 (.inr (.inr hkind)))

theorem reports_skip (level : Level) (outer : List Frame) (token : Token) :
    Reports token (level :: outer.map Frame.level) (skip level outer token).2 := by
  have hseparate := reports_separate level outer token
  unfold skip
  split
  · split
    · exact hseparate.cons rfl
    · exact hseparate
  · rename_i hseparator
    exact reports_nil (ne_finish_of_isSeparator_eq_false hseparator)

theorem reports_abandon (level : Level) (outer : List Frame) (key : Key) (colon : Option Nat)
    (token : Token) :
    Reports token (level :: outer.map Frame.level) (abandon level outer key colon token).2 := by
  unfold abandon
  split
  · exact reports_separate (level.push _) outer token
  · rename_i hseparator
    exact reports_nil (ne_finish_of_isSeparator_eq_false hseparator)

/-- A scalar is read without a problem, but for a number without a value. -/
theorem meets_of_scalar? {kind : Node.Kind} {problems : List Problem}
    (hscalar : scalar? token = some (kind, problems)) :
    ∀ problem ∈ problems, Meets token problem := by
  have hproblems : problems = [] ∨ problems = [complain .numberFormat token] := by
    unfold scalar? at hscalar
    split at hscalar
    case h_2 =>
      split at hscalar
      · exact .inl (Prod.mk.inj (Option.some.inj hscalar)).2.symm
      · exact .inr (Prod.mk.inj (Option.some.inj hscalar)).2.symm
    case h_6 => contradiction
    all_goals exact .inl (Prod.mk.inj (Option.some.inj hscalar)).2.symm
  rcases hproblems with rfl | rfl
  · exact List.forall_mem_nil _
  · exact List.forall_mem_singleton.2 (.numeral hscalar)

theorem reports_enter? {move : Move} (henter : enter? outer token = some move) :
    Reports token levels move.2 := by
  have hseparator : ¬isSeparator .array token = true := by simp [isSeparator_of_enter? henter]
  refine reports_of_meets (ne_finish_of_isSeparator_eq_false hseparator) ?_
  rcases enter?_eq_some henter with ⟨kind, hscalar, -⟩ | ⟨shape, -, rfl⟩
  · exact meets_of_scalar? hscalar
  · exact List.forall_mem_nil _

/-- The first token of a value, or a token that is none. -/
theorem reports_enter?_getD {move : Move} (hmove : Reports token levels move.2) :
    Reports token levels ((enter? outer token).getD move).2 := by
  cases henter : enter? outer token with
  | some entered => exact reports_enter? henter
  | none => exact hmove

theorem reports_child (level : Level) (outer : List Frame) (token : Token) :
    Reports token (level :: outer.map Frame.level) (child level outer token).2 := by
  have hskip := reports_skip level outer token
  unfold child
  split
  · exact reports_enter?_getD (hskip.cons rfl)
  split
  · rename_i hkind
    exact reports_nil (by simp [hkind])
  · exact hskip.cons rfl

theorem reports_proceed (options : Options) (level : Level) (phase : Phase) (outer : List Frame)
    (token : Token) :
    Reports token (level :: outer.map Frame.level)
      (proceed options level phase outer token).2 := by
  have hseparate := reports_separate level outer token
  have hchild := reports_child level outer token
  have habandon := reports_abandon level outer
  unfold proceed
  cases phase with
  | first =>
    dsimp only
    split
    · exact hseparate.cons rfl
    split
    · exact hseparate
    · exact hchild
  | next =>
    dsimp only
    split
    · exact hseparate
    · exact hchild.cons rfl
  | comma =>
    dsimp only
    split
    · exact hseparate
    · exact hchild
  | lost => exact reports_skip level outer token
  | key key =>
    dsimp only
    split
    · rename_i hkind
      exact reports_nil (by simp [hkind])
    · exact (habandon key none token).cons rfl
  | colon key colon => exact reports_enter?_getD ((habandon key (some colon) token).cons rfl)
  | stuck key colon => exact habandon key colon token

/-- What a move reports: what it meets on its token, and then what is still open. -/
theorem reports_step (options : Options) (state : State) (token : Token) :
    Reports token state.levels (state.step options token).2 := by
  have hnone : Reports token [] [] := by simpa using reports_unclosed token []
  unfold State.step
  cases state with
  | start =>
    dsimp only
    split
    · dsimp only
      split
      · exact hnone
      · exact hnone.cons rfl
    · exact reports_enter?_getD (hnone.cons rfl)
  | within level phase outer => exact reports_proceed options level phase outer token
  | root node =>
    dsimp only
    split
    · exact hnone
    · exact hnone.cons rfl
  | «over» tree => exact hnone

theorem isStructural_unclosed (shape : Shape) : shape.unclosed.isStructural = true := by
  cases shape <;> rfl

theorem Meets.isStructural {problem : Problem} (hmeets : Meets token problem) :
    problem.kind.isStructural = true := by
  cases hmeets with
  | @misplaced kind hkind => cases kind <;> first | rfl | contradiction
  | numeral => rfl

theorem Meets.span_eq {problem : Problem} (hmeets : Meets token problem) :
    problem.span = token.span := by
  cases hmeets <;> rfl

/-- The problems of a move are problems of the document, on the token of the move. -/
theorem isMetOn_step (options : Options) (state : State) (token : Token) :
    IsMetOn token (state.step options token).2 := by
  obtain ⟨met, hproblems, hmet⟩ := reports_step options state token
  rw [hproblems]
  refine List.forall_mem_append.2 ⟨fun problem hproblem => ?_, fun problem hproblem => ?_⟩
  · have hmeets := hmet problem hproblem
    exact ⟨hmeets.isStructural, hmeets.span_eq⟩
  · obtain ⟨shape, rfl⟩ := exists_shape_of_mem_unclosed hproblem
    exact ⟨isStructural_unclosed shape, rfl⟩

/-! ## Runs -/

theorem isOn_advance (options : Options) (state : State) (token : Token) :
    IsOn token (state.advance options token).2 := by
  have hproblems := isOn_problems options.forbidComments token
  unfold State.advance
  split
  · exact (isMetOn_nil token).isOn
  split
  · exact List.forall_mem_append.2 ⟨hproblems, (isMetOn_step options state token).isOn⟩
  · exact hproblems

/-- What is reported at a token: its own problems, what the move meets, and what is still
open. -/
theorem cases_of_mem_advance {options : Options} {state : State} {problem : Problem}
    (hproblem : problem ∈ (state.advance options token).2) :
    problem ∈ token.problems options.forbidComments ∨ Meets token problem ∨
      problem ∈ unclosed token state.levels := by
  unfold State.advance at hproblem
  split at hproblem
  · contradiction
  split at hproblem
  · rcases List.mem_append.1 hproblem with hproblem | hproblem
    · exact .inl hproblem
    · obtain ⟨met, hstep, hmet⟩ := reports_step options state token
      rw [hstep] at hproblem
      exact .inr ((List.mem_append.1 hproblem).imp_left (hmet problem))
  · exact .inl hproblem

/-- A problem of a run is met at one of its tokens. -/
theorem exists_advance_of_mem_run (options : Options) {state : State} {tokens : List Token}
    {problem : Problem} (hproblem : problem ∈ (state.run options tokens).2) :
    ∃ token ∈ tokens, ∃ before : State, problem ∈ (before.advance options token).2 := by
  induction tokens generalizing state with
  | nil => simp at hproblem
  | cons token tokens ih =>
    rw [State.run_cons, Move.after_snd, List.mem_append] at hproblem
    rcases hproblem with hproblem | hproblem
    · exact ⟨token, List.mem_cons_self, state, hproblem⟩
    · obtain ⟨other, hother, before, hbefore⟩ := ih hproblem
      exact ⟨other, List.mem_cons_of_mem token hother, before, hbefore⟩

theorem exists_token_of_mem_run (options : Options) {state : State} {tokens : List Token}
    {problem : Problem} (hproblem : problem ∈ (state.run options tokens).2) :
    ∃ token ∈ tokens, problem.span = token.span := by
  obtain ⟨token, htoken, before, hbefore⟩ := exists_advance_of_mem_run options hproblem
  exact ⟨token, htoken, isOn_advance options before token problem hbefore⟩

/-- Every problem of a text is on one of its tokens, the end included. -/
theorem exists_token_of_mem_problems {options : Options} {text : List Char} {problem : Problem}
    (hproblem : problem ∈ (ofText options text).problems) :
    ∃ token ∈ Token.ofText text ++ [Token.endOf text], problem.span = token.span := by
  rw [ofText, ofTokens_eq_run] at hproblem
  exact exists_token_of_mem_run options hproblem

/-- A problem is met on a significant token, or the token alone gives reason for it. -/
theorem exists_token_cases_of_mem_problems {options : Options} {text : List Char}
    {problem : Problem} (hproblem : problem ∈ (ofText options text).problems) :
    ∃ token ∈ Token.ofText text ++ [Token.endOf text], problem.span = token.span ∧
      (token.kind.isSignificant = true ∨ problem ∈ token.problems options.forbidComments) := by
  rw [ofText, ofTokens_eq_run] at hproblem
  obtain ⟨token, htoken, before, hbefore⟩ := exists_advance_of_mem_run options hproblem
  refine ⟨token, htoken, isOn_advance options before token problem hbefore, ?_⟩
  cases hkind : token.kind.isSignificant with
  | true => exact .inl rfl
  | false =>
    cases hover : before.isOver with
    | true => simp [State.advance, hover] at hbefore
    | false =>
      rw [State.advance_eq_self options hover hkind] at hbefore
      exact .inr hbefore

/-! ## Order -/

/-- The problems of a run are in the order of the tokens that they are on. -/
theorem pairwise_run (options : Options) {state : State} {tokens : List Token}
    (htokens : tokens.Pairwise (·.start < ·.start)) :
    (state.run options tokens).2.Pairwise (·.span.start ≤ ·.span.start) := by
  induction tokens generalizing state with
  | nil => exact .nil
  | cons token tokens ih =>
    obtain ⟨hfirst, htokens⟩ := List.pairwise_cons.1 htokens
    have hhere := isOn_advance options state token
    rw [State.run_cons, Move.after_snd]
    refine List.pairwise_append.2 ⟨?here, ih htokens, ?later⟩
    case here =>
      refine List.pairwise_of_forall_mem_list fun problem hproblem other hother => ?_
      have hspan : problem.span = other.span :=
        (hhere problem hproblem).trans (hhere other hother).symm
      exact Nat.le_of_eq (congrArg Span.start hspan)
    case later =>
      intro problem hproblem other hother
      obtain ⟨later, hlater, hspan⟩ := exists_token_of_mem_run options hother
      rw [hhere problem hproblem, hspan]
      exact Nat.le_of_lt (hfirst later hlater)

/-- Every problem of a text is on one of its tokens, the end included, and the problems
are listed in the order in which they start. -/
theorem problems_ofText_inOrder (options : Options) (text : List Char) :
    (∀ problem ∈ (ofText options text).problems,
        ∃ token ∈ Token.ofText text ++ [Token.endOf text], problem.span = token.span) ∧
      (ofText options text).problems.Pairwise (·.span.start ≤ ·.span.start) := by
  refine ⟨fun _ hproblem => exists_token_of_mem_problems hproblem, ?_⟩
  rw [ofText, ofTokens_eq_run]
  exact pairwise_run options (Token.pairwise_start text)

end Document

end TaskFile
