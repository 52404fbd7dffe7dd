import TaskFile.Proofs.Document.Run
import TaskFile.Proofs.Tree.Alignment

/-!
# Readings that differ in offsets only

Two tokens are aligned when they have the same kind and value and their offsets
correspond, and two states when they differ in no more than that.  Aligned tokens
move aligned states to aligned states, with the same kinds of problems on tokens
that correspond (`aligned_step`).  So two readings of tokens that are aligned one
by one stay side by side to their ends (`aligned_run`), also where only some of the
problems are compared (`aligned_run_filter`).
-/

namespace TaskFile

/-- Tokens of the same kind and value, at offsets that correspond. -/
structure Token.Aligned (alignment : Alignment) (token token' : Token) : Prop where
  kind : token.kind = token'.kind
  string : token.string? = token'.string?
  number : token.kind = .number → token.text = token'.text
  span : Span.Aligned alignment token.span token'.span

/-- Problems of the same kind, at offsets that correspond. -/
structure Problem.Aligned (alignment : Alignment) (problem problem' : Problem) : Prop where
  kind : problem.kind = problem'.kind
  span : Span.Aligned alignment problem.span problem'.span

namespace Document

/-! ## States

In each of these the alignment stands for the offsets, and all else is the same. -/

structure Level.Aligned (alignment : Alignment) (level level' : Level) : Prop where
  shape : level.shape = level'.shape
  start : alignment.Start level.start level'.start
  children : Forest.Aligned alignment level.children level'.children

structure Key.Aligned (alignment : Alignment) (key key' : Key) : Prop where
  span : Span.Aligned alignment key.span key'.span
  name : key.name = key'.name

inductive Frame.Aligned (alignment : Alignment) : Frame → Frame → Prop where
  | element {level level'} (hlevel : Level.Aligned alignment level level') :
      Aligned alignment (.element level) (.element level')
  | member {level level' key key' colon colon'} (hlevel : Level.Aligned alignment level level')
      (hkey : Key.Aligned alignment key key') (hcolon : alignment.Start colon colon') :
      Aligned alignment (.member level key colon) (.member level' key' colon')

inductive Phase.Aligned (alignment : Alignment) : Phase → Phase → Prop where
  | first : Aligned alignment .first .first
  | next : Aligned alignment .next .next
  | comma : Aligned alignment .comma .comma
  | lost : Aligned alignment .lost .lost
  | key {key key'} (hkey : Key.Aligned alignment key key') :
      Aligned alignment (.key key) (.key key')
  | colon {key key' colon colon'} (hkey : Key.Aligned alignment key key')
      (hcolon : alignment.Start colon colon') :
      Aligned alignment (.colon key colon) (.colon key' colon')
  | stuck {key key' colon colon'} (hkey : Key.Aligned alignment key key')
      (hcolon : Option.Rel alignment.Start colon colon') :
      Aligned alignment (.stuck key colon) (.stuck key' colon')

inductive State.Aligned (alignment : Alignment) : State → State → Prop where
  | start : Aligned alignment .start .start
  | within {level level' phase phase' outer outer'} (hlevel : Level.Aligned alignment level level')
      (hphase : Phase.Aligned alignment phase phase')
      (houter : List.Forall₂ (Frame.Aligned alignment) outer outer') :
      Aligned alignment (.within level phase outer) (.within level' phase' outer')
  | root {node node'} (hnode : Node.Aligned alignment node node') :
      Aligned alignment (.root node) (.root node')
  | over {tree tree'} (htree : Option.Rel (Node.Aligned alignment) tree tree') :
      Aligned alignment (.over tree) (.over tree')

/-- Moves to aligned states, with aligned problems. -/
structure Move.Aligned (alignment : Alignment) (move move' : Move) : Prop where
  state : State.Aligned alignment move.1 move'.1
  problems : List.Forall₂ (Problem.Aligned alignment) move.2 move'.2

variable {alignment : Alignment} {token token' : Token} {level level' : Level}
  {outer outer' : List Frame} {key key' : Key}

/-! ## Problems -/

theorem aligned_complain (kind : Problem.Kind) (htoken : Token.Aligned alignment token token') :
    Problem.Aligned alignment (complain kind token) (complain kind token') :=
  ⟨rfl, htoken.span⟩

/-- A problem on tokens that correspond. -/
theorem aligned_singleton (kind : Problem.Kind) (htoken : Token.Aligned alignment token token') :
    List.Forall₂ (Problem.Aligned alignment) [complain kind token] [complain kind token'] :=
  .cons (aligned_complain kind htoken) .nil

theorem Move.Aligned.quiet {state state' : State} (hstate : State.Aligned alignment state state') :
    Move.Aligned alignment (state, []) (state', []) :=
  ⟨hstate, .nil⟩

theorem Move.Aligned.after {problems problems' : List Problem} {move move' : Move}
    (hmove : Move.Aligned alignment move move')
    (hproblems : List.Forall₂ (Problem.Aligned alignment) problems problems') :
    Move.Aligned alignment (move.after problems) (move'.after problems') :=
  ⟨hmove.state, List.rel_append hproblems hmove.problems⟩

/-- What a token with a fault of its own gives reason to report. -/
theorem aligned_problems (forbidComments : Bool) (htoken : Token.Aligned alignment token token')
    (hfault : token.fault = token'.fault) :
    List.Forall₂ (Problem.Aligned alignment) (token.problems forbidComments)
      (token'.problems forbidComments) := by
  unfold Token.problems
  rw [hfault, htoken.kind]
  apply List.rel_append
  · cases token'.fault with
    | none => exact .nil
    | some fault => exact aligned_singleton (.fault fault) htoken
  · split
    · exact aligned_singleton .commentForbidden htoken
    split
    · exact aligned_singleton .stray htoken
    · exact .nil

/-! ## Building trees -/

/-- A property with a value ends with it. -/
theorem Key.Aligned.property_some {colon colon' : Option Nat} {value value' : Node}
    (hkey : Key.Aligned alignment key key') (hcolon : Option.Rel alignment.Start colon colon')
    (hvalue : Node.Aligned alignment value value') (stop stop' : Nat) :
    Node.Aligned alignment (key.property colon (some value) stop)
      (key'.property colon' (some value') stop') where
  kind := .property hcolon
  span := ⟨hkey.span.start, alignment.stop_max hkey.span.start hvalue.span.stop⟩
  children := by
    rw [Key.property, Key.property, hkey.name]
    exact .cons (.other rfl) hkey.span .nil hvalue.toForest

/-- A property without a value ends where it is told to. -/
theorem Key.Aligned.property_none {colon colon' : Option Nat} {stop stop' : Nat}
    (hkey : Key.Aligned alignment key key') (hcolon : Option.Rel alignment.Start colon colon')
    (hstop : alignment.Stop stop stop') :
    Node.Aligned alignment (key.property colon none stop) (key'.property colon' none stop') where
  kind := .property hcolon
  span := ⟨hkey.span.start, alignment.stop_max hkey.span.start hstop⟩
  children := by
    rw [Key.property, Key.property, hkey.name]
    exact .cons (.other rfl) hkey.span .nil .nil

theorem Level.Aligned.push {node node' : Node} (hlevel : Level.Aligned alignment level level')
    (hnode : Node.Aligned alignment node node') :
    Level.Aligned alignment (level.push node) (level'.push node') :=
  ⟨hlevel.shape, hlevel.start, .push hnode hlevel.children⟩

theorem Level.Aligned.close {stop stop' : Nat} (hlevel : Level.Aligned alignment level level')
    (hstop : alignment.Stop stop stop') :
    Node.Aligned alignment (level.close stop) (level'.close stop') where
  kind := by
    rw [Level.close, Level.close, hlevel.shape]
    cases level'.shape <;> exact .other rfl
  span := ⟨hlevel.start, alignment.stop_max hlevel.start hstop⟩
  children := hlevel.children.reverse

theorem Frame.Aligned.put {frame frame' : Frame} {node node' : Node}
    (hframe : Frame.Aligned alignment frame frame') (hnode : Node.Aligned alignment node node') :
    Level.Aligned alignment (frame.put node) (frame'.put node') := by
  cases hframe with
  | element hlevel => exact hlevel.push hnode
  | member hlevel hkey hcolon => exact hlevel.push (hkey.property_some (.some hcolon) hnode 0 0)

theorem Frame.Aligned.shape {frame frame' : Frame} (hframe : Frame.Aligned alignment frame frame') :
    frame.level.shape = frame'.level.shape := by
  cases hframe with
  | element hlevel | member hlevel => exact hlevel.shape

/-! ## One move -/

theorem aligned_deliver {node node' : Node} (hnode : Node.Aligned alignment node node')
    (houter : List.Forall₂ (Frame.Aligned alignment) outer outer') :
    State.Aligned alignment (deliver node outer) (deliver node' outer') := by
  cases houter with
  | nil => exact .root hnode
  | cons hframe houter => exact .within (hframe.put hnode) .next houter

/-- The first token of a value, or a token that is none. -/
theorem Move.Aligned.getD {entered entered' : Option Move} {move move' : Move}
    (hentered : Option.Rel (Move.Aligned alignment) entered entered')
    (hmove : Move.Aligned alignment move move') :
    Move.Aligned alignment (entered.getD move) (entered'.getD move') := by
  cases hentered with
  | none => exact hmove
  | some hentered => exact hentered

section Moves

variable (htoken : Token.Aligned alignment token token')

include htoken

theorem isSeparator_eq (shape : Shape) : isSeparator shape token = isSeparator shape token' := by
  rw [isSeparator, isSeparator, htoken.kind]

/-- Two tokens are the same scalar, or none of them is one. -/
theorem aligned_scalar? :
    Option.Rel (fun found found' => Node.Kind.Aligned alignment found.1 found'.1 ∧
      List.Forall₂ (Problem.Aligned alignment) found.2 found'.2) (scalar? token)
      (scalar? token') := by
  unfold scalar?
  rw [htoken.kind, htoken.string]
  cases hkind : token'.kind with
  | string | yes | no | null => exact .some ⟨.other rfl, .nil⟩
  | number =>
    rw [htoken.number (htoken.kind.trans hkind)]
    dsimp only
    cases (Numeral.ofChars token'.text).value? with
    | some value => exact .some ⟨.other rfl, .nil⟩
    | none => exact .some ⟨.other rfl, aligned_singleton _ htoken⟩
  | _ => exact .none

variable (houter : List.Forall₂ (Frame.Aligned alignment) outer outer')

include houter

theorem aligned_unwind {node node' : Node} (hnode : Node.Aligned alignment node node') :
    Node.Aligned alignment (unwind token node outer).1 (unwind token' node' outer').1 ∧
      List.Forall₂ (Problem.Aligned alignment) (unwind token node outer).2
        (unwind token' node' outer').2 := by
  induction houter generalizing node node' with
  | nil => exact ⟨hnode, .nil⟩
  | cons hframe houter ih =>
    have hrest := ih ((hframe.put hnode).close htoken.span.stop)
    refine ⟨hrest.1, .cons ?_ hrest.2⟩
    rw [hframe.shape]
    exact aligned_complain _ htoken

theorem aligned_enter? :
    Option.Rel (Move.Aligned alignment) (enter? outer token) (enter? outer' token') := by
  have hscalar := aligned_scalar? htoken
  have hopen (shape : Shape) : Move.Aligned alignment
      (.within ⟨shape, token.start, .nil⟩ .first outer, [])
      (.within ⟨shape, token'.start, .nil⟩ .first outer', []) :=
    .quiet (.within ⟨rfl, htoken.span.start, .nil⟩ .first houter)
  unfold enter?
  rw [htoken.kind]
  split
  · exact .some (hopen .object)
  · exact .some (hopen .array)
  · generalize scalar? token = found, scalar? token' = found' at hscalar
    cases hscalar with
    | none => exact .none
    | some hfound =>
      exact .some ⟨aligned_deliver ⟨hfound.1, htoken.span, .nil⟩ houter, hfound.2⟩

variable (hlevel : Level.Aligned alignment level level')

include hlevel

theorem aligned_separate :
    Move.Aligned alignment (separate level outer token) (separate level' outer' token') := by
  have hclose := hlevel.close htoken.span.stop
  unfold separate
  rw [htoken.kind]
  split
  · exact .quiet (.within hlevel .comma houter)
  split
  · obtain ⟨hroot, hproblems⟩ := aligned_unwind htoken houter hclose
    rw [hlevel.shape]
    exact ⟨.over (.some hroot), .cons (aligned_complain _ htoken) hproblems⟩
  · exact .quiet (aligned_deliver hclose houter)

theorem aligned_skip :
    Move.Aligned alignment (skip level outer token) (skip level' outer' token') := by
  unfold skip
  rw [hlevel.shape, isSeparator_eq htoken]
  split
  · refine (aligned_separate htoken houter hlevel).after ?_
    split
    · exact aligned_singleton _ htoken
    · exact .nil
  · exact .quiet (.within hlevel .lost houter)

theorem aligned_abandon {colon colon' : Option Nat} (hkey : Key.Aligned alignment key key')
    (hcolon : Option.Rel alignment.Start colon colon') :
    Move.Aligned alignment (abandon level outer key colon token)
      (abandon level' outer' key' colon' token') := by
  have hstop : alignment.Stop (if token'.kind = .comma then token.start else token.stop)
      (if token'.kind = .comma then token'.start else token'.stop) := by
    split
    · exact alignment.stop_of_start htoken.span.start
    · exact htoken.span.stop
  unfold abandon
  rw [hlevel.shape, isSeparator_eq htoken, htoken.kind]
  split
  · exact aligned_separate htoken houter (hlevel.push (hkey.property_none hcolon hstop))
  · exact .quiet (.within hlevel (.stuck hkey hcolon) houter)

theorem aligned_child :
    Move.Aligned alignment (child level outer token) (child level' outer' token') := by
  have hskip (kind : Problem.Kind) : Move.Aligned alignment
      ((skip level outer token).after [complain kind token])
      ((skip level' outer' token').after [complain kind token']) :=
    (aligned_skip htoken houter hlevel).after (aligned_singleton kind htoken)
  unfold child
  rw [hlevel.shape]
  split
  · exact .getD (aligned_enter? htoken (.cons (.element hlevel) houter)) (hskip .valueExpected)
  rw [htoken.kind, htoken.string]
  split
  · exact .quiet (.within hlevel (.key ⟨htoken.span, rfl⟩) houter)
  · exact hskip .nameExpected

theorem aligned_proceed {phase phase' : Phase} (options : Options)
    (hphase : Phase.Aligned alignment phase phase') :
    Move.Aligned alignment (proceed options level phase outer token)
      (proceed options level' phase' outer' token') := by
  have hseparate := aligned_separate htoken houter hlevel
  have hchild := aligned_child htoken houter hlevel
  have hone (kind : Problem.Kind) := aligned_singleton kind htoken
  unfold proceed
  cases hphase with
  | first =>
    dsimp only
    rw [htoken.kind, hlevel.shape, isSeparator_eq htoken]
    split
    · exact hseparate.after (hone .valueExpected)
    split
    · exact hseparate
    · exact hchild
  | next =>
    dsimp only
    rw [hlevel.shape, isSeparator_eq htoken]
    split
    · exact hseparate
    · exact hchild.after (hone .commaExpected)
  | comma =>
    dsimp only
    rw [htoken.kind, hlevel.shape]
    split
    · exact hseparate
    · exact hchild
  | lost => exact aligned_skip htoken houter hlevel
  | key hkey =>
    dsimp only
    rw [htoken.kind]
    split
    · exact .quiet (.within hlevel (.colon hkey htoken.span.start) houter)
    · exact (aligned_abandon htoken houter hlevel hkey .none).after (hone .colonExpected)
  | colon hkey hcolon =>
    have hmember := aligned_enter? htoken (.cons (.member hlevel hkey hcolon) houter)
    have habandon := aligned_abandon htoken houter hlevel hkey (.some hcolon)
    exact .getD hmember (habandon.after (hone .valueExpected))
  | stuck hkey hcolon => exact aligned_abandon htoken houter hlevel hkey hcolon

end Moves

variable {state state' : State}

/-- Aligned tokens move aligned states to aligned states. -/
theorem aligned_step (options : Options) (htoken : Token.Aligned alignment token token')
    (hstate : State.Aligned alignment state state') :
    Move.Aligned alignment (state.step options token) (state'.step options token') := by
  have hone (kind : Problem.Kind) := aligned_singleton kind htoken
  unfold State.step
  cases hstate with
  | start =>
    dsimp only
    rw [htoken.kind]
    split
    · refine ⟨.over .none, ?_⟩
      dsimp only
      split
      · exact .nil
      · exact hone .valueExpected
    · exact .getD (aligned_enter? htoken .nil) ⟨.over .none, hone .valueExpected⟩
  | within hlevel hphase houter => exact aligned_proceed htoken houter hlevel options hphase
  | root hnode =>
    refine ⟨.over (.some hnode), ?_⟩
    dsimp only
    rw [htoken.kind]
    split
    · exact .nil
    · exact hone .endExpected
  | «over» htree => exact .quiet (.over htree)

/-! ## Runs -/

theorem State.Aligned.isOver_eq (hstate : State.Aligned alignment state state') :
    state.isOver = state'.isOver := by
  cases hstate <;> rfl

theorem State.Aligned.tree (hstate : State.Aligned alignment state state') :
    Option.Rel (Node.Aligned alignment) state.tree state'.tree := by
  cases hstate with
  | start | within => exact .none
  | root hnode => exact .some hnode
  | «over» htree => exact htree

section Keep

/- Problems of some kinds only are compared. -/
variable (keep : Problem.Kind → Bool)

/-- The problems of aligned lists that are kept are aligned. -/
theorem aligned_filter {problems problems' : List Problem}
    (hproblems : List.Forall₂ (Problem.Aligned alignment) problems problems') :
    List.Forall₂ (Problem.Aligned alignment) (problems.filter (keep ·.kind))
      (problems'.filter (keep ·.kind)) := by
  refine List.rel_filter (fun {problem problem'} hproblem => ?_) hproblems
  show keep problem.kind = true ↔ keep problem'.kind = true
  rw [hproblem.kind]

theorem aligned_advance (options : Options) (htoken : Token.Aligned alignment token token')
    (hproblems : List.Forall₂ (Problem.Aligned alignment)
      ((token.problems options.forbidComments).filter (keep ·.kind))
      ((token'.problems options.forbidComments).filter (keep ·.kind)))
    (hstate : State.Aligned alignment state state') :
    State.Aligned alignment (state.advance options token).1 (state'.advance options token').1 ∧
      List.Forall₂ (Problem.Aligned alignment)
        ((state.advance options token).2.filter (keep ·.kind))
        ((state'.advance options token').2.filter (keep ·.kind)) := by
  have hstep := aligned_step options htoken hstate
  unfold State.advance
  rw [hstate.isOver_eq, htoken.kind]
  split
  · exact ⟨hstate, .nil⟩
  split
  · rw [Move.after_snd, Move.after_snd, List.filter_append, List.filter_append]
    exact ⟨hstep.state, List.rel_append hproblems (aligned_filter keep hstep.problems)⟩
  · exact ⟨hstate, hproblems⟩

/-- Readings of tokens that are aligned one by one, with those of their own problems that
are compared, stay aligned. -/
theorem aligned_run_filter {tokens tokens' : List Token} (options : Options)
    (htokens : List.Forall₂ (fun token token' => Token.Aligned alignment token token' ∧
      List.Forall₂ (Problem.Aligned alignment)
        ((token.problems options.forbidComments).filter (keep ·.kind))
        ((token'.problems options.forbidComments).filter (keep ·.kind))) tokens tokens')
    (hstate : State.Aligned alignment state state') :
    State.Aligned alignment (state.run options tokens).1 (state'.run options tokens').1 ∧
      List.Forall₂ (Problem.Aligned alignment)
        ((state.run options tokens).2.filter (keep ·.kind))
        ((state'.run options tokens').2.filter (keep ·.kind)) := by
  induction htokens generalizing state state' with
  | nil => exact ⟨hstate, .nil⟩
  | cons htoken _ ih =>
    obtain ⟨hnext, hproblems⟩ := aligned_advance keep options htoken.1 htoken.2 hstate
    obtain ⟨hend, hrest⟩ := ih hnext
    simp only [State.run_cons, Move.after_fst, Move.after_snd, List.filter_append]
    exact ⟨hend, List.rel_append hproblems hrest⟩

end Keep

/-- Readings of tokens that are aligned one by one, with the same faults, stay
aligned. -/
theorem aligned_run {tokens tokens' : List Token} (options : Options)
    (htokens : List.Forall₂ (fun token token' => Token.Aligned alignment token token' ∧
      token.fault = token'.fault) tokens tokens')
    (hstate : State.Aligned alignment state state') :
    Move.Aligned alignment (state.run options tokens) (state'.run options tokens') := by
  have hproblems := htokens.imp fun _ _ htoken => And.intro htoken.1
    (aligned_filter (fun _ => true)
      (aligned_problems options.forbidComments htoken.1 htoken.2))
  obtain ⟨hend, hrun⟩ := aligned_run_filter (fun _ => true) options hproblems hstate
  simp only [List.filter_true] at hrun
  exact ⟨hend, hrun⟩

end Document

end TaskFile
