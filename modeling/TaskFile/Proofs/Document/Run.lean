import TaskFile.Document.Basic

/-!
# Runs of the reading state

A document is read by a fold over its tokens.  `State.run` is the same reading
by recursion on the tokens: the state that they lead to and the problems met on
the way.  `ofTokens_eq_run` says that it is the same, and `run_append` cuts a
run in two.
-/

namespace TaskFile.Document

/-! ## Problems along a move -/

@[simp] theorem Move.after_nil (move : Move) : move.after [] = move := rfl

@[simp] theorem Move.after_fst (problems : List Problem) (move : Move) :
    (move.after problems).1 = move.1 := rfl

@[simp] theorem Move.after_snd (problems : List Problem) (move : Move) :
    (move.after problems).2 = problems ++ move.2 := rfl

theorem Move.after_after (first second : List Problem) (move : Move) :
    (move.after second).after first = move.after (first ++ second) := by
  simp [Move.after]

/-! ## Problems of a token -/

/-- A token is no problem on its own when it has no fault, is not stray and is
no comment that is forbidden. -/
theorem problems_token_eq_nil_iff (forbidComments : Bool) (token : Token) :
    token.problems forbidComments = [] ↔
      token.fault = none ∧ token.kind ≠ .stray ∧
        (forbidComments = true → token.kind.isComment = false) := by
  unfold Token.problems
  cases token.fault with
  | some fault => simp
  | none =>
    cases forbidComments <;> cases token.kind <;> simp [Token.Kind.isComment]

/-! ## Runs -/

/-- The state after one more token of any kind, and the problems met on it. -/
def State.advance (options : Options) (state : State) (token : Token) : Move :=
  if state.isOver then (state, [])
  else if token.kind.isSignificant then
    (state.step options token).after (token.problems options.forbidComments)
  else (state, token.problems options.forbidComments)

/-- The state that tokens lead to from a given state, and the problems met on
them. -/
def State.run (options : Options) (state : State) : List Token → Move
  | [] => (state, [])
  | token :: tokens =>
    ((state.advance options token).1.run options tokens).after (state.advance options token).2

variable (options : Options)

/-- A significant token is read: its own problems come before those of the move. -/
theorem State.advance_eq_step {state : State} {token : Token} (hover : state.isOver = false)
    (hkind : token.kind.isSignificant = true) :
    state.advance options token =
      (state.step options token).after (token.problems options.forbidComments) := by
  simp [advance, hover, hkind]

/-- Of any other token only its own problems are met. -/
theorem State.advance_eq_self {state : State} {token : Token} (hover : state.isOver = false)
    (hkind : token.kind.isSignificant = false) :
    state.advance options token = (state, token.problems options.forbidComments) := by
  simp [advance, hover, hkind]

@[simp] theorem State.run_nil (state : State) : state.run options [] = (state, []) := rfl

theorem State.run_cons (state : State) (token : Token) (tokens : List Token) :
    state.run options (token :: tokens) =
      ((state.advance options token).1.run options tokens).after
        (state.advance options token).2 := rfl

/-- A run over the first tokens and then over the others. -/
theorem State.run_append (state : State) (first second : List Token) :
    state.run options (first ++ second) =
      ((state.run options first).1.run options second).after (state.run options first).2 := by
  induction first generalizing state with
  | nil => simp
  | cons token tokens ih =>
    rw [List.cons_append, run_cons, run_cons, ih, Move.after_after]
    simp

theorem Reading.append_list_append (problems : Array Problem) (first second : List Problem) :
    problems ++ first ++ second = problems ++ (first ++ second) := by
  apply Array.toList_inj.1
  simp

theorem Reading.take_eq_advance (reading : Reading) (token : Token) :
    reading.take options token =
      ⟨(reading.state.advance options token).1,
        reading.problems ++ (reading.state.advance options token).2⟩ := by
  unfold Reading.take State.advance
  split
  · simp
  split
  · simp [append_list_append]
  · simp

theorem Reading.foldl_take (reading : Reading) (tokens : List Token) :
    tokens.foldl (Reading.take options) reading =
      ⟨(reading.state.run options tokens).1,
        reading.problems ++ (reading.state.run options tokens).2⟩ := by
  induction tokens generalizing reading with
  | nil => simp
  | cons token tokens ih =>
    rw [List.foldl_cons, ih, Reading.take_eq_advance, State.run_cons]
    simp [append_list_append]

/-- Reading tokens as a document is a run from the start. -/
theorem ofTokens_eq_run (tokens : List Token) :
    ofTokens options tokens =
      ⟨(State.start.run options tokens).1.tree, (State.start.run options tokens).2⟩ := by
  simp [ofTokens, Reading.foldl_take, Reading.initial]

end TaskFile.Document
