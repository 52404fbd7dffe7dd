import TaskFile.Proofs.Document.Extent
import TaskFile.Proofs.Document.Report
import Mathlib.Data.List.Chain

/-!
# Containers that are never closed

Where a text ends inside containers, each of them is closed there and reported as open.
`problems_ofText_unclosed` says that these problems come after all others, the innermost
container first, and that the containers are those on the way from the root along the
last children, down to where the text broke off.

* `exists_front_advance`: the problems of one token are some that are not about open
  containers, and then one for each container that is open at the end.
* `Node.IsLastIn` is one step of the way inwards, and `AreOpen` describes the containers
  together with their problems.
* `exists_areOpen_unwind`: closing the containers around a node adds them in front.
-/

namespace TaskFile

open Text

/-- A node is the last child of another one, or the value of its last property. -/
def Node.IsLastIn (inner outer : Node) : Prop :=
  ∃ last, outer.children.toList.getLast? = some last ∧
    (inner = last ∨ last.value? = some inner)

namespace Document

variable {token : Token} {level : Level} {outer : List Frame}

/-! ## Problems that are not about open containers -/

theorem Meets.ne_unclosed {problem : Problem} (hmeets : Meets token problem) (shape : Shape) :
    problem.kind ≠ shape.unclosed := by
  cases hmeets with
  | @misplaced kind hkind =>
    rintro rfl
    cases shape <;> contradiction
  | numeral => cases shape <;> exact Problem.Kind.noConfusion

/-- What a token alone gives reason to report is not about containers. -/
theorem ne_unclosed_of_mem_problems {forbidComments : Bool} {problem : Problem}
    (hproblem : problem ∈ token.problems forbidComments) (shape : Shape) :
    problem.kind ≠ shape.unclosed := by
  intro hkind
  have hstructural := isStructural_of_mem_problems hproblem
  rw [hkind, isStructural_unclosed] at hstructural
  contradiction

/-- At one token the open containers are reported last, and only at the end of the
text. -/
theorem exists_front_advance (options : Options) (state : State) (token : Token) :
    ∃ front, (state.advance options token).2 = front ++ unclosed token state.levels ∧
      ∀ problem ∈ front, ∀ shape : Shape, problem.kind ≠ shape.unclosed := by
  cases hover : state.isOver with
  | true =>
    cases state with
    | «over» tree => exact ⟨[], by simp [State.advance, State.isOver, State.levels], by simp⟩
    | _ => contradiction
  | false =>
    cases hkind : token.kind.isSignificant with
    | true =>
      obtain ⟨met, hproblems, hmet⟩ := reports_step options state token
      refine ⟨token.problems options.forbidComments ++ met, ?_, ?_⟩
      · rw [State.advance_eq_step options hover hkind, Move.after_snd, hproblems,
          List.append_assoc]
      · exact List.forall_mem_append.2 ⟨fun _ hproblem => ne_unclosed_of_mem_problems hproblem,
          fun problem hproblem => (hmet problem hproblem).ne_unclosed⟩
    | false =>
      have hfinish : token.kind ≠ .finish := by
        intro hfinish
        rw [hfinish] at hkind
        contradiction
      refine ⟨token.problems options.forbidComments, ?_,
        fun _ hproblem => ne_unclosed_of_mem_problems hproblem⟩
      rw [State.advance_eq_self options hover hkind, unclosed_eq_nil hfinish, List.append_nil]

/-- Before the end of a text no container is reported as open. -/
theorem ne_unclosed_of_mem_run (options : Options) {state : State} {tokens : List Token}
    (htokens : ∀ token ∈ tokens, token.kind ≠ .finish) :
    ∀ problem ∈ (state.run options tokens).2, ∀ shape : Shape,
      problem.kind ≠ shape.unclosed := by
  induction tokens generalizing state with
  | nil => exact List.forall_mem_nil _
  | cons token tokens ih =>
    obtain ⟨htoken, htokens⟩ := List.forall_mem_cons.1 htokens
    obtain ⟨front, hfront, hnone⟩ := exists_front_advance options state token
    rw [unclosed_eq_nil htoken, List.append_nil] at hfront
    rw [State.run_cons, Move.after_snd, hfront]
    exact List.forall_mem_append.2 ⟨hnone, ih htokens⟩

/-! ## Open containers -/

/-- What is reported of a container that is never closed. -/
inductive Lacks : Node.Kind → Problem.Kind → Prop where
  | brace : Lacks .object .braceExpected
  | bracket : Lacks .array .bracketExpected

theorem lacks_unclosed (shape : Shape) : Lacks shape.kind shape.unclosed := by
  cases shape with
  | object => exact .brace
  | array => exact .bracket

/-- Containers that reach to the end of a text, each the last thing in the one before it,
and problems that report them, the innermost first. -/
structure AreOpen (text : List Char) (containers : List Node) (problems : List Problem) :
    Prop where
  nested : containers.IsChain fun outer inner => inner.IsLastIn outer
  stop : ∀ container ∈ containers, container.span.stop = width text
  problems : List.Forall₂ (fun container problem =>
    Lacks container.kind problem.kind ∧ problem.span = .empty (width text))
      containers.reverse problems

theorem areOpen_nil (text : List Char) : AreOpen text [] [] := ⟨.nil, by simp, .nil⟩

variable {text : List Char}

/-- A container that is closed at the end of a text. -/
theorem stop_close (hstart : level.start ≤ width text) :
    (level.close (width text)).span.stop = width text :=
  Nat.max_eq_right hstart

/-- One more container around the others. -/
theorem AreOpen.cons {containers : List Node} {problems : List Problem}
    (hopen : AreOpen text containers problems) (hstart : level.start ≤ width text)
    (hlast : ∀ inner ∈ containers.head?, inner.IsLastIn (level.close (width text))) :
    AreOpen text (level.close (width text) :: containers)
      (problems ++ [complain level.shape.unclosed (Token.endOf text)]) where
  nested := List.isChain_cons.2 ⟨hlast, hopen.nested⟩
  stop := List.forall_mem_cons.2 ⟨stop_close hstart, hopen.stop⟩
  problems := by
    rw [List.reverse_cons]
    exact List.rel_append hopen.problems (.cons ⟨lacks_unclosed level.shape, rfl⟩ .nil)

/-- A value is the last thing in a container that it has just been put in. -/
theorem isLastIn_close_put (frame : Frame) (node : Node) (stop : Nat) :
    node.IsLastIn ((frame.put node).close stop) := by
  have hlast {level : Level} {last : Node} :
      ((level.push last).close stop).children.toList.getLast? = some last := by
    simp [Level.close, Level.push]
  cases frame with
  | element level => exact ⟨node, hlast, .inl rfl⟩
  | member level key colon => exact ⟨_, hlast, .inr rfl⟩

/-- The end of the text closes the containers around a node, which come in front of it. -/
theorem exists_areOpen_unwind {node : Node} {containers : List Node} {problems : List Problem}
    (hopen : AreOpen text (node :: containers) problems)
    (houter : ∀ frame ∈ outer, frame.level.start ≤ width text) :
    ∃ others, AreOpen text ((unwind (Token.endOf text) node outer).1 :: others)
      (problems ++ (unwind (Token.endOf text) node outer).2) := by
  induction outer generalizing node containers problems with
  | nil => exact ⟨containers, by simpa [unwind] using hopen⟩
  | cons frame outer ih =>
    obtain ⟨hframe, houter⟩ := List.forall_mem_cons.1 houter
    have hlast : ∀ inner ∈ (node :: containers).head?,
        inner.IsLastIn ((frame.put node).close (width text)) := by
      intro inner hinner
      obtain rfl := Option.some.inj hinner
      exact isLastIn_close_put frame node (width text)
    have hput := hopen.cons (by rwa [Frame.put_start]) hlast
    obtain ⟨others, hothers⟩ := ih hput houter
    rw [Frame.put_shape, List.append_assoc] at hothers
    exact ⟨others, hothers⟩

/-! ## Whole documents -/

/-- What the end of a text does where a container is open. -/
theorem fst_advance_endOf (options : Options) (level : Level) (phase : Phase) (outer : List Frame)
    (text : List Char) :
    ((State.within level phase outer).advance options (Token.endOf text)).1 =
      .over (some (unwind (Token.endOf text)
        ((level.settle phase (Token.endOf text)).close (width text)) outer).1) := by
  have hseparator : isSeparator level.shape (Token.endOf text) = true :=
    isSeparator_iff.2 (.inr (.inr rfl))
  rw [State.advance_eq_step options rfl rfl, Move.after_fst]
  exact fst_proceed_of_isSeparator hseparator options phase

/-- The containers that are open before the end of a text are closed and reported there. -/
theorem exists_areOpen_advance (options : Options) {state : State}
    (hstate : state.IsFit (fun _ => True) (width text)) :
    ∃ containers,
      (∀ root ∈ containers.head?,
        (state.advance options (Token.endOf text)).1.tree = some root) ∧
      AreOpen text containers (unclosed (Token.endOf text) state.levels) := by
  cases state with
  | within level phase outer =>
    obtain ⟨hphase, houter⟩ := hstate
    have hstart : (level.settle phase (Token.endOf text)).start ≤ width text := by
      rw [Level.settle_start]
      exact Nat.le_of_lt hphase.start_lt
    have hframes : ∀ frame ∈ outer, frame.level.start ≤ width text := fun frame hframe =>
      Nat.le_of_lt (Nat.lt_trans (houter.start_lt frame hframe) hphase.start_lt)
    have hopen := (areOpen_nil text).cons hstart (by simp)
    obtain ⟨others, hothers⟩ := exists_areOpen_unwind hopen hframes
    rw [Level.settle_shape, snd_unwind] at hothers
    rw [fst_advance_endOf, unclosed_of_finish rfl, State.levels, List.map_cons, List.map_map]
    refine ⟨_ :: others, ?_, hothers⟩
    intro root hroot
    exact hroot
  | start | root | «over» =>
    refine ⟨[], by simp, ?_⟩
    show AreOpen text [] (unclosed (Token.endOf text) [])
    rw [unclosed_nil]
    exact areOpen_nil text

/-- The problems of open containers come last.  They are on the end of the text, one for
each of some containers that all reach to the end: the root, if there is one at all, and
inside each container its last child or the value of its last property.  The innermost
container is reported first and the root last. -/
theorem problems_ofText_unclosed (options : Options) (text : List Char) :
    ∃ others closing containers, (ofText options text).problems = others ++ closing ∧
      (∀ problem ∈ others,
        problem.kind ≠ .braceExpected ∧ problem.kind ≠ .bracketExpected) ∧
      (∀ root ∈ containers.head?, (ofText options text).tree = some root) ∧
      AreOpen text containers closing := by
  have htokens : ∀ token ∈ Token.ofText text, token.kind ≠ .finish := fun token htoken => by
    obtain ⟨c, cs, hform⟩ := (Token.covers_ofText text).exists_form htoken
    exact Lexeme.kind_ne_finish_of_form hform
  have hbefore : ∀ problem ∈ (State.start.run options (Token.ofText text)).2,
      ∀ shape : Shape, problem.kind ≠ shape.unclosed := ne_unclosed_of_mem_run options htokens
  have hfit : (State.start.run options (Token.ofText text)).1.IsFit (fun _ => True) (width text) :=
    isFit_run (fun _ _ => ⟨trivial, trivial⟩) options (Token.covers_ofText text)
      (List.Subset.refl _)
  obtain ⟨front, hfront, hnone⟩ := exists_front_advance options
    (State.start.run options (Token.ofText text)).1 (Token.endOf text)
  obtain ⟨containers, hroot, hopen⟩ := exists_areOpen_advance options hfit
  have hothers := List.forall_mem_append.2 ⟨hbefore, hnone⟩
  refine ⟨(State.start.run options (Token.ofText text)).2 ++ front, _, containers, ?_,
    fun problem hproblem => ⟨hothers problem hproblem .object, hothers problem hproblem .array⟩,
    ?_, hopen⟩
  · rw [ofText, ofTokens_eq_run, State.run_append, State.run_cons, State.run_nil, Move.after_snd,
      Move.after_snd, hfront, List.append_nil, List.append_assoc]
  · rw [ofText, ofTokens_eq_run, State.run_append, State.run_cons, State.run_nil, Move.after_fst,
      Move.after_fst]
    exact hroot

example : (ofText default "[\x7b\"a\": [1".toList).problems =
    [⟨.bracketExpected, ⟨9, 9⟩⟩, ⟨.braceExpected, ⟨9, 9⟩⟩, ⟨.bracketExpected, ⟨9, 9⟩⟩] := by
  decide +kernel

end Document

end TaskFile
