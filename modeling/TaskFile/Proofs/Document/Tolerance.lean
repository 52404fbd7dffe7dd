import TaskFile.Proofs.Document.Bracket

/-!
# Options and the problems

An option only takes problems away, wherever they stand among the others:
`problems_of_options` says which ones.

* Comments are problems of their tokens, which no move depends on
  (`State.step_forbidComments`).
* A trailing comma is a problem of the bracket after it, and at these brackets alone do two
  readings report different problems (`State.step_trailing`).
* An empty document is a problem only at the end of a text without a significant token
  (`advance_endOf`).
-/

namespace TaskFile.Document

variable {options : Options} {text : List Char} {past rest : List Token} {token : Token}

/-! ## Trailing commas in a reading -/

/-- A closing bracket where a child should start. -/
theorem child_closer {level : Level} {outer : List Frame}
    (hkind : token.kind = level.shape.closer) :
    (child level outer token).2 = level.shape.missing token := by
  have hseparator := isSeparator_of_closer hkind
  have hskip : (skip level outer token).2 =
      if level.shape = .object then [complain .valueExpected token] else [] := by
    rw [skip, if_pos hseparator, separate_closer hkind, Move.after_snd, List.append_nil]
  unfold child
  split
  · rename_i hshape
    rw [enter?_of_isSeparator hseparator, Option.getD_none, Move.after_snd, hskip, hshape]
    rfl
  · rename_i hshape
    rw [if_neg (ne_string_of_isSeparator hseparator), Move.after_snd, hskip, hshape]
    rfl

/-- Two readings that differ in what they think of trailing commas report the same at a
token, and one of them also what is missing there.  Then there is nothing else. -/
theorem State.step_trailing (options : Options) (state : State) (token : Token) :
    (state.step { options with trailingComma := false } token).2 =
        state.trailing token ++ (state.step { options with trailingComma := true } token).2 ∧
      (state.trailing token ≠ [] →
        (state.step { options with trailingComma := true } token).2 = []) := by
  cases state with
  | within level phase outer =>
    cases phase with
    | comma =>
      by_cases hkind : token.kind = level.shape.closer
      · simp [step, trailing, hkind, proceed, child_closer hkind, separate_closer hkind]
      · simp [step, trailing, hkind, proceed]
    | _ => exact ⟨rfl, fun hne => absurd rfl hne⟩
  | _ => exact ⟨rfl, fun hne => absurd rfl hne⟩

/-- The problems at one token of two readings that differ in what they think of trailing
commas: in both those of the token itself and those of the move, in one of them between
them what is missing. -/
theorem State.advance_trailing (options : Options) (state : State) (token : Token) :
    ∃ own others : List Problem,
      (state.advance { options with trailingComma := true } token).2 = own ++ others ∧
        (state.advance { options with trailingComma := false } token).2 =
          own ++ (state.trailing token ++ others) ∧
        (∀ problem ∈ own, problem.kind.isStructural = false) ∧ IsMetOn token others ∧
        (state.trailing token ≠ [] → others = []) := by
  have hown : ∀ problem ∈ token.problems options.forbidComments,
      problem.kind.isStructural = false := fun _ => isStructural_of_mem_problems
  cases hover : state.isOver with
  | true =>
    cases state with
    | «over» tree => exact ⟨[], [], rfl, rfl, by simp, isMetOn_nil token, fun _ => rfl⟩
    | _ => contradiction
  | false =>
    cases hkind : token.kind.isSignificant with
    | true =>
      obtain ⟨hstep, hothers⟩ := state.step_trailing options token
      refine ⟨_, _, ?_, ?_, hown, isMetOn_step _ state token, hothers⟩
      · rw [advance_eq_step _ hover hkind, Move.after_snd]
      · rw [advance_eq_step _ hover hkind, Move.after_snd, hstep]
    | false =>
      have hnone : state.trailing token = [] := by
        cases state with
        | within level phase outer =>
          cases phase with
          | comma =>
            refine if_neg fun hcloser => ?_
            rw [hcloser, isSignificant_closer] at hkind
            contradiction
          | _ => rfl
        | _ => rfl
      refine ⟨token.problems options.forbidComments, [], ?_, ?_, hown, isMetOn_nil token,
        fun _ => rfl⟩
      · rw [advance_eq_self _ hover hkind, List.append_nil]
      · rw [advance_eq_self _ hover hkind, hnone, List.append_nil, List.append_nil]

/-- A part with a property in the middle of a list where nothing else has it. -/
theorem filter_middle {α : Type} {p : α → Prop} [DecidablePred p] {front middle back : List α}
    (hfront : ∀ a ∈ front, ¬p a) (hmiddle : ∀ a ∈ middle, p a) (hback : ∀ a ∈ back, ¬p a) :
    (front ++ (middle ++ back)).filter (p ·) = middle ∧
      (front ++ (middle ++ back)).filter (¬p ·) = front ++ back := by
  have hnone {l : List α} (hl : ∀ a ∈ l, ¬p a) : l.filter (p ·) = [] ∧ l.filter (¬p ·) = l :=
    ⟨by simpa using hl, by simpa using hl⟩
  have hall : middle.filter (p ·) = middle ∧ middle.filter (¬p ·) = [] :=
    ⟨by simpa using hmiddle, by simpa using hmiddle⟩
  simp only [List.filter_append, hnone hfront, hnone hback, hall, List.nil_append, List.append_nil,
    and_self]

/-- At one token of a text the one reading reports what the other one does, besides what
is missing. -/
theorem filter_advance (options : Options)
    (htokens : Token.ofText text ++ [Token.endOf text] = past ++ token :: rest) :
    let state := (State.start.run options past).1
    let problems := (state.advance { options with trailingComma := false } token).2
    problems.filter (· ∈ trailings text) = trailing text token ∧
      problems.filter (· ∉ trailings text) =
        (state.advance { options with trailingComma := true } token).2 := by
  intro state problems
  obtain ⟨own, others, htrue, hfalse, hown, hmet, hothers⟩ := state.advance_trailing options token
  have hmissing : state.trailing token = trailing text token := (trailing_eq htokens).symm
  have htoken : token ∈ Token.ofText text ++ [Token.endOf text] := by simp [htokens]
  rw [htrue, show problems = _ from hfalse, hmissing]
  refine filter_middle ?_ ?_ ?_
  · intro problem hproblem hmem
    obtain ⟨other, -, hother⟩ := List.mem_flatMap.1 hmem
    have hstructural := (isMetOn_trailing text other problem hother).1
    rw [hown problem hproblem] at hstructural
    contradiction
  · intro problem hproblem
    exact (mem_trailings_iff htoken (isMetOn_trailing text token problem hproblem).2).2 hproblem
  · intro problem hproblem hmem
    have hmem := (mem_trailings_iff htoken (hmet problem hproblem).2).1 hmem
    rw [hothers (hmissing ▸ List.ne_nil_of_mem hmem)] at hproblem
    contradiction

theorem filter_run (options : Options)
    (htokens : Token.ofText text ++ [Token.endOf text] = past ++ rest) :
    let state := (State.start.run options past).1
    let problems := (state.run { options with trailingComma := false } rest).2
    problems.filter (· ∈ trailings text) = rest.flatMap (trailing text) ∧
      problems.filter (· ∉ trailings text) =
        (state.run { options with trailingComma := true } rest).2 := by
  induction rest generalizing past with
  | nil => exact ⟨rfl, rfl⟩
  | cons token rest ih =>
    intro state problems
    have hnext (others : Options) :
        (state.advance others token).1 = (State.start.run options (past ++ [token])).1 := by
      rw [State.fst_advance others options, State.run_append]
      rfl
    obtain ⟨hhere, hhereOthers⟩ := filter_advance options htokens
    have hsplit : Token.ofText text ++ [Token.endOf text] = past ++ [token] ++ rest := by
      simp [htokens]
    obtain ⟨hlater, hlaterOthers⟩ := ih hsplit
    rw [← hnext { options with trailingComma := false }] at hlater hlaterOthers
    constructor
    · rw [List.flatMap_cons, ← hhere, ← hlater, ← List.filter_append]
      rfl
    · rw [State.run_cons, Move.after_snd, hnext, ← hnext { options with trailingComma := false },
        ← hhereOthers, ← hlaterOthers, ← List.filter_append]
      rfl

/-! ## Comments and empty documents in a reading -/

/-- A token alone is a problem as a comment only where these are forbidden. -/
theorem filter_problems_token (token : Token) :
    (token.problems true).filter (·.kind ≠ .commentForbidden) = token.problems false := by
  unfold Token.problems
  cases token.fault <;> cases token.kind <;> rfl

/-- No move depends on what is thought of comments. -/
theorem State.step_forbidComments (options : Options) (forbidComments : Bool) (state : State)
    (token : Token) :
    state.step { options with forbidComments := forbidComments } token =
      state.step options token := by
  cases state with
  | within level phase outer => cases phase <;> rfl
  | _ => rfl

theorem filter_advance_comments (options : Options) (state : State) (token : Token) :
    (state.advance { options with forbidComments := true } token).2.filter
        (·.kind ≠ .commentForbidden) =
      (state.advance { options with forbidComments := false } token).2 := by
  have hstep : (state.step options token).2.filter (·.kind ≠ .commentForbidden) =
      (state.step options token).2 := by
    refine List.filter_eq_self.2 fun problem hproblem => ?_
    have hstructural := (isMetOn_step options state token problem hproblem).1
    rw [decide_eq_true_eq]
    intro hkind
    rw [hkind] at hstructural
    contradiction
  unfold State.advance
  split
  · rfl
  split
  · rw [Move.after_snd, Move.after_snd, State.step_forbidComments options true,
      State.step_forbidComments options false, List.filter_append, filter_problems_token, hstep]
  · exact filter_problems_token token

theorem filter_run_comments (options : Options) (state : State) (tokens : List Token) :
    (state.run { options with forbidComments := true } tokens).2.filter
        (·.kind ≠ .commentForbidden) =
      (state.run { options with forbidComments := false } tokens).2 := by
  induction tokens generalizing state with
  | nil => rfl
  | cons token tokens ih =>
    rw [State.run_cons, State.run_cons, Move.after_snd, Move.after_snd, List.filter_append,
      filter_advance_comments, ih,
      State.fst_advance { options with forbidComments := true }
        { options with forbidComments := false }]

/-- Only the end of a text tells whether a document is empty. -/
theorem State.step_emptyDocument (options : Options) (emptyDocument : Bool) {state : State}
    {token : Token} (hopen : state ≠ .start ∨ token.kind ≠ .finish) :
    state.step { options with emptyDocument := emptyDocument } token =
      state.step options token := by
  cases state with
  | start =>
    have hkind : token.kind ≠ .finish := hopen.resolve_left fun hstart => hstart rfl
    simp [step, hkind]
  | within level phase outer => cases phase <;> rfl
  | _ => rfl

theorem State.run_emptyDocument (options : Options) (emptyDocument : Bool) (state : State)
    {tokens : List Token} (hfinish : ∀ token ∈ tokens, token.kind ≠ .finish) :
    state.run { options with emptyDocument := emptyDocument } tokens =
      state.run options tokens := by
  induction tokens generalizing state with
  | nil => rfl
  | cons token tokens ih =>
    obtain ⟨htoken, htokens⟩ := List.forall_mem_cons.1 hfinish
    have hadvance : state.advance { options with emptyDocument := emptyDocument } token =
        state.advance options token := by
      unfold advance
      rw [step_emptyDocument options emptyDocument (.inr htoken)]
    rw [run_cons, run_cons, hadvance, ih _ htokens]

/-- At the end of a text it is a problem that there was no significant token, if empty
documents are none that are welcome. -/
theorem advance_endOf (options : Options) (state : State) (text : List Char) :
    (state.advance { options with emptyDocument := false } (Token.endOf text)).2 =
      (state.advance { options with emptyDocument := true } (Token.endOf text)).2 ++
        if state = .start then [complain .valueExpected (Token.endOf text)] else [] := by
  by_cases hstart : state = .start
  · subst hstart
    rfl
  · rw [if_neg hstart, List.append_nil]
    unfold State.advance
    rw [State.step_emptyDocument options false (.inl hstart),
      State.step_emptyDocument options true (.inl hstart)]

/-! ## The problems of a text -/

/-- The options of a reading only take problems away, and leave the others in order.

* Where comments are welcome these are the problems of forbidden comments.
* Where trailing commas are, these are the problems of the brackets that directly follow a
  comma and close the container around them: of each bracket of an array a missing value, of
  each bracket of an object a missing name and a missing value, and nothing else.
* Where empty documents are, this is the missing value at the end of a text without a
  significant token. -/
theorem problems_of_options (options : Options) (text : List Char) :
    (ofText { options with forbidComments := false } text).problems =
        (ofText { options with forbidComments := true } text).problems.filter
          (·.kind ≠ .commentForbidden) ∧
      ((ofText { options with trailingComma := true } text).problems =
          (ofText { options with trailingComma := false } text).problems.filter
            (· ∉ trailings text) ∧
        (ofText { options with trailingComma := false } text).problems.filter
          (· ∈ trailings text) = trailings text) ∧
      (ofText { options with emptyDocument := false } text).problems =
        (ofText { options with emptyDocument := true } text).problems ++
          if Token.significant text = [] then [complain .valueExpected (Token.endOf text)]
          else [] := by
  have hrun (options : Options) : (ofText options text).problems =
      (State.start.run options (Token.ofText text ++ [Token.endOf text])).2 := by
    rw [ofText, ofTokens_eq_run]
  simp only [hrun]
  refine ⟨(filter_run_comments options .start _).symm, ?_, ?_⟩
  · have hsplit : Token.ofText text ++ [Token.endOf text] =
        [] ++ (Token.ofText text ++ [Token.endOf text]) := rfl
    obtain ⟨htrailings, hothers⟩ := filter_run options hsplit
    rw [List.flatMap_append, List.flatMap_singleton, trailing_endOf, List.append_nil] at htrailings
    exact ⟨hothers.symm, htrailings⟩
  · have htokens : ∀ token ∈ Token.ofText text, token.kind ≠ .finish :=
      fun _ htoken => (isSound_of_mem_tokens htoken).1
    have hstart := run_eq_start_iff options (Token.ofText text)
    rw [State.run_append, State.run_append, Move.after_snd, Move.after_snd,
      State.run_emptyDocument options false .start htokens,
      State.run_emptyDocument options true .start htokens, List.append_assoc]
    refine congrArg _ ?_
    rw [State.run_cons, State.run_cons, Move.after_snd, Move.after_snd, State.run_nil,
      State.run_nil, List.append_nil, List.append_nil, advance_endOf]
    exact congrArg _ (if_congr hstart rfl rfl)

end TaskFile.Document
