import TaskFile.Proofs.Document.Acceptance
import Mathlib.Data.List.Induction

/-!
# Moves without a problem

`Quiet` lists the moves of a reading that meets no problem and has not come to the end:
a value starts where one is asked for, a key, its colon, a comma between children and
the end of a container.  There is no skipping among them, and no property without a
value.

* `quiet_of_step` says that every move without a problem is listed, and `step_of_quiet`
  that every listed move is made.
* `Reaches` says where tokens lead by such moves, with comments and white space passed
  over.  This is what a run without problems does (`reaches_iff_run`).
* `ofText_eq_iff`: a document has a tree and no problem just when its tokens lead from
  the start to the finished tree.
-/

namespace TaskFile.Document

/-! ## The moves -/

/-- The moves at a token before the end that meet no problem. -/
inductive Quiet (options : Options) (token : Token) : State → State → Prop where
  | enter {state outer next} (hasks : State.Asks state outer)
      (henter : enter? outer token = some (next, [])) : Quiet options token state next
  | name {level phase outer} (hphase : phase = .first ∨ phase = .comma)
      (hshape : level.shape = .object) (hkind : token.kind = .string) :
      Quiet options token (.within level phase outer)
        (.within level (.key ⟨token.span, token.string?.getD ""⟩) outer)
  | colon {level key outer} (hkind : token.kind = .colon) :
      Quiet options token (.within level (.key key) outer)
        (.within level (.colon key token.start) outer)
  | comma {level outer} (hkind : token.kind = .comma) :
      Quiet options token (.within level .next outer) (.within level .comma outer)
  | close {level phase outer}
      (hphase : phase = .first ∨ phase = .next ∨ phase = .comma ∧ options.trailingComma = true)
      (hkind : token.kind = level.shape.closer) :
      Quiet options token (.within level phase outer)
        (deliver (level.close token.stop) outer)

variable {options : Options} {token : Token} {level : Level} {outer : List Frame}

/-- Every listed move is made. -/
theorem step_of_quiet {state next : State} (hquiet : Quiet options token state next) :
    state.step options token = (next, []) := by
  cases hquiet with
  | enter hasks henter => exact step_of_asks options hasks henter
  | name hphase hshape hkind => exact proceed_key options hphase hshape hkind rfl
  | colon hkind => simp [State.step, proceed, hkind]
  | @comma level outer hkind =>
    have hseparator : isSeparator level.shape token = true := isSeparator_iff.2 (.inl hkind)
    simp [State.step, proceed, hseparator, separate_comma hkind]
  | close hphase hkind => exact proceed_closer hphase hkind

/-- Where nothing but a value is no problem, there is one. -/
theorem exists_of_getD_enter? {fallback : Move} (hfallback : fallback.2 ≠ [])
    (hproblems : ((enter? outer token).getD fallback).2 = []) :
    ∃ next, enter? outer token = some (next, []) := by
  cases henter : enter? outer token with
  | none => exact absurd (by simpa [henter] using hproblems) hfallback
  | some move =>
    obtain ⟨next, problems⟩ := move
    obtain rfl : problems = [] := by simpa [henter] using hproblems
    exact ⟨next, rfl⟩

/-- The first token of a child. -/
theorem quiet_child {phase : Phase} (hphase : phase = .first ∨ phase = .comma)
    (hproblems : (child level outer token).2 = []) :
    Quiet options token (.within level phase outer) (child level outer token).1 := by
  unfold child at hproblems ⊢
  split
  · rename_i hshape
    rw [hshape] at hproblems
    obtain ⟨next, henter⟩ := exists_of_getD_enter? (by simp) hproblems
    rw [henter]
    exact .enter (.element hphase hshape) henter
  · rename_i hshape
    rw [hshape] at hproblems
    split
    · rename_i hkind
      exact .name hphase hshape hkind
    · rename_i hkind
      simp [hkind] at hproblems

/-- Every move without a problem is listed, as long as no token was skipped and more
follows. -/
theorem quiet_of_step {state : State} (hstate : state.IsSound) (hfinish : token.kind ≠ .finish)
    (hproblems : (state.step options token).2 = []) :
    Quiet options token state (state.step options token).1 := by
  cases state with
  | start =>
    simp only [State.step, if_neg hfinish] at hproblems ⊢
    obtain ⟨next, henter⟩ := exists_of_getD_enter? (by simp) hproblems
    rw [henter]
    exact .enter .start henter
  | within level phase outer =>
    simp only [State.step] at hproblems ⊢
    cases phase with
    | first =>
      by_cases hseparator : isSeparator level.shape token = true
      · rcases isSeparator_iff.1 hseparator with hkind | hkind | hkind
        · simp [proceed, hkind] at hproblems
        · rw [proceed_closer (.inl rfl) hkind]
          exact .close (.inl rfl) hkind
        · contradiction
      · rw [proceed_eq_child options (.inl rfl) (by simpa using hseparator)] at hproblems ⊢
        exact quiet_child (.inl rfl) hproblems
    | next =>
      by_cases hseparator : isSeparator level.shape token = true
      · simp only [proceed, if_pos hseparator]
        rcases isSeparator_iff.1 hseparator with hkind | hkind | hkind
        · rw [separate_comma hkind]
          exact .comma hkind
        · rw [separate_closer hkind]
          exact .close (.inr (.inl rfl)) hkind
        · contradiction
      · simp [proceed, hseparator] at hproblems
    | comma =>
      simp only [proceed] at hproblems ⊢
      split
      · rename_i hcloser
        simp only [Bool.and_eq_true, decide_eq_true_eq] at hcloser
        obtain ⟨hkind, htrailing⟩ := hcloser
        rw [separate_closer hkind]
        exact .close (.inr (.inr ⟨rfl, htrailing⟩)) hkind
      · rename_i hcloser
        rw [if_neg hcloser] at hproblems
        exact quiet_child (.inr rfl) hproblems
    | key key =>
      simp only [proceed] at hproblems ⊢
      split
      · rename_i hkind
        exact .colon hkind
      · rename_i hkind
        simp [hkind] at hproblems
    | colon key colon =>
      simp only [proceed] at hproblems ⊢
      obtain ⟨next, henter⟩ := exists_of_getD_enter? (by simp) hproblems
      rw [henter]
      exact .enter .member henter
    | lost => contradiction
    | stuck key colon => contradiction
  | root node => simp [State.step, hfinish] at hproblems
  | «over» tree => contradiction

theorem State.Asks.isSound {state : State} (hasks : State.Asks state outer) : state.IsSound := by
  cases hasks with
  | start => trivial
  | element hphase => rcases hphase with rfl | rfl <;> trivial
  | member => trivial

/-- A listed move skips no token and is not the last one. -/
theorem Quiet.isSound {state next : State} (hquiet : Quiet options token state next) :
    next.IsSound := by
  cases hquiet with
  | enter hasks henter =>
    rcases enter?_eq_some henter with ⟨kind, -, hnext⟩ | ⟨shape, -, hmove⟩
    · simp only at hnext
      rw [hnext]
      exact isSound_deliver _ _
    · rw [(Prod.mk.inj hmove).1]
      trivial
  | name | colon | comma => trivial
  | close => exact isSound_deliver _ _

/-! ## Readings without a problem -/

/-- Where tokens lead from a state without a problem. -/
inductive Reaches (options : Options) (first : State) : List Token → State → Prop where
  | nil : Reaches options first [] first
  | skip {tokens token state} (hreaches : Reaches options first tokens state)
      (halone : token.problems options.forbidComments = [])
      (hkind : token.kind.isSignificant = false) :
      Reaches options first (tokens ++ [token]) state
  | move {tokens token state next} (hreaches : Reaches options first tokens state)
      (halone : token.problems options.forbidComments = [])
      (hkind : token.kind.isSignificant = true) (hquiet : Quiet options token state next) :
      Reaches options first (tokens ++ [token]) next

variable {first next : State} {tokens : List Token}

theorem Reaches.isSound (hfirst : first.IsSound) (hreaches : Reaches options first tokens next) :
    next.IsSound := by
  induction hreaches with
  | nil => exact hfirst
  | skip _ _ _ ih => exact ih
  | move _ _ _ hquiet _ => exact hquiet.isSound

/-- No token of a reading is a problem on its own. -/
theorem Reaches.problems_eq_nil (hreaches : Reaches options first tokens next) :
    ∀ token ∈ tokens, token.problems options.forbidComments = [] := by
  induction hreaches with
  | nil => simp
  | skip _ halone _ ih => exact List.forall_mem_append.2 ⟨ih, List.forall_mem_singleton.2 halone⟩
  | move _ halone _ _ ih => exact List.forall_mem_append.2 ⟨ih, List.forall_mem_singleton.2 halone⟩

/-- One more token without a problem. -/
theorem advance_eq_iff {state : State} (hstate : state.IsSound) (hfinish : token.kind ≠ .finish) :
    state.advance options token = (next, []) ↔
      token.problems options.forbidComments = [] ∧
        ((token.kind.isSignificant = false ∧ next = state) ∨
          token.kind.isSignificant = true ∧ Quiet options token state next) := by
  have hover := isOver_eq_false hstate
  cases hkind : token.kind.isSignificant with
  | true =>
    rw [State.advance_eq_step options hover hkind]
    simp only [Bool.true_eq_false, false_and, false_or, true_and]
    constructor
    · intro hmove
      obtain ⟨hnext, hproblems⟩ := Prod.mk.inj hmove
      obtain ⟨halone, hstep⟩ := List.append_eq_nil_iff.1 hproblems
      refine ⟨halone, ?_⟩
      rw [← hnext]
      exact quiet_of_step hstate hfinish hstep
    · intro hmove
      obtain ⟨halone, hquiet⟩ := hmove
      rw [step_of_quiet hquiet, halone]
      rfl
  | false =>
    rw [State.advance_eq_self options hover hkind]
    simp only [Prod.mk.injEq, Bool.false_eq_true, false_and, or_false, true_and]
    rw [and_comm, eq_comm (a := next)]

theorem reaches_nil_iff : Reaches options first [] next ↔ next = first := by
  constructor
  · intro hreaches
    generalize htokens : ([] : List Token) = tokens at hreaches
    cases hreaches with
    | nil => rfl
    | skip => simp at htokens
    | move => simp at htokens
  · rintro rfl
    exact .nil

/-- A reading is one of all tokens but the last one, and then of that. -/
theorem reaches_concat_iff :
    Reaches options first (tokens ++ [token]) next ↔
      ∃ state, Reaches options first tokens state ∧ token.problems options.forbidComments = [] ∧
        ((token.kind.isSignificant = false ∧ next = state) ∨
          token.kind.isSignificant = true ∧ Quiet options token state next) := by
  constructor
  · intro hreaches
    generalize htokens : tokens ++ [token] = all at hreaches
    cases hreaches with
    | nil => simp at htokens
    | skip hreaches halone hkind =>
      obtain ⟨rfl, htoken⟩ := List.append_inj' htokens rfl
      obtain rfl := List.singleton_inj.1 htoken
      exact ⟨next, hreaches, halone, .inl ⟨hkind, rfl⟩⟩
    | @move _ _ state _ hreaches halone hkind hquiet =>
      obtain ⟨rfl, htoken⟩ := List.append_inj' htokens rfl
      obtain rfl := List.singleton_inj.1 htoken
      exact ⟨state, hreaches, halone, .inr ⟨hkind, hquiet⟩⟩
  · intro hreaches
    obtain ⟨state, hreaches, halone, ⟨hkind, rfl⟩ | ⟨hkind, hquiet⟩⟩ := hreaches
    · exact .skip hreaches halone hkind
    · exact .move hreaches halone hkind hquiet

/-- Readings without a problem are the runs without one. -/
theorem reaches_iff_run (hfirst : first.IsSound)
    (hfinish : ∀ token ∈ tokens, token.kind ≠ .finish) :
    Reaches options first tokens next ↔ first.run options tokens = (next, []) := by
  induction tokens using List.reverseRecOn generalizing next with
  | nil =>
    rw [reaches_nil_iff, State.run_nil]
    simp [eq_comm]
  | append_singleton tokens token ih =>
    obtain ⟨hfinish, hlast⟩ := List.forall_mem_append.1 hfinish
    have hlast : token.kind ≠ .finish := hlast token List.mem_cons_self
    rw [reaches_concat_iff, State.run_append]
    constructor
    · intro hreaches
      obtain ⟨state, hreaches, htoken⟩ := hreaches
      rw [(ih hfinish).1 hreaches, Move.after_nil, State.run_cons,
        (advance_eq_iff (hreaches.isSound hfirst) hlast).2 htoken]
      rfl
    · intro hrun
      obtain ⟨hnext, hproblems⟩ := Prod.mk.inj hrun
      obtain ⟨hfront, hback⟩ := List.append_eq_nil_iff.1 hproblems
      rw [State.run_cons, Move.after_snd, State.run_nil, List.append_nil] at hback
      rw [State.run_cons, Move.after_fst, State.run_nil] at hnext
      have hreaches := (ih hfinish).2 (Prod.ext rfl hfront)
      exact ⟨_, hreaches, (advance_eq_iff (hreaches.isSound hfirst) hlast).1 (Prod.ext hnext hback)⟩

/-- The end is no problem only where nothing or all was read. -/
theorem cases_of_finish {state : State} {finish : Token} (hstate : state.IsSound)
    (hkind : finish.kind = .finish) (hproblems : (state.advance options finish).2 = []) :
    state = .start ∨ ∃ root, state = .root root := by
  have hsignificant : finish.kind.isSignificant = true := by rw [hkind]; rfl
  rw [State.advance_eq_step options (isOver_eq_false hstate) hsignificant] at hproblems
  cases state with
  | start => exact .inl rfl
  | within level phase outer =>
    exact absurd (List.append_eq_nil_iff.1 hproblems).2 (proceed_finish_ne_nil hstate hkind)
  | root node => exact .inr ⟨node, rfl⟩
  | «over» tree => contradiction

section Run

variable (hfirst : first.IsSound) (hfinish : ∀ token ∈ tokens, token.kind ≠ .finish) {stop : Nat}

include hfirst hfinish

/-- A run to the end without a problem leads to where nothing or all was read. -/
theorem cases_of_run (hrun : (first.run options (tokens ++ [Token.atEnd stop])).2 = []) :
    Reaches options first tokens .start ∨ ∃ root, Reaches options first tokens (.root root) := by
  rw [State.run_append, State.run_cons, State.run_nil] at hrun
  obtain ⟨hfront, hback⟩ := List.append_eq_nil_iff.1 hrun
  rw [Move.after_snd, List.append_nil] at hback
  have hreaches : Reaches options first tokens (first.run options tokens).1 :=
    (reaches_iff_run hfirst hfinish).2 (Prod.ext rfl hfront)
  rcases cases_of_finish (hreaches.isSound hfirst) rfl hback with hnext | ⟨root, hnext⟩
  · exact .inl (hnext ▸ hreaches)
  · exact .inr ⟨root, hnext ▸ hreaches⟩

/-- A run goes on from what was reached. -/
theorem run_of_reaches (hreaches : Reaches options first tokens next) (others : List Token) :
    first.run options (tokens ++ others) = next.run options others := by
  rw [State.run_append, (reaches_iff_run hfirst hfinish).1 hreaches, Move.after_nil]

end Run

/-- A document has a tree and no problem just when its tokens lead to that tree. -/
theorem ofText_eq_iff {text : List Char} {root : Node} :
    ofText options text = ⟨some root, []⟩ ↔
      Reaches options .start (Token.ofText text) (.root root) := by
  have hstart : State.IsSound .start := trivial
  have hfinish : ∀ token ∈ Token.ofText text, token.kind ≠ .finish :=
    fun _ htoken => (isSound_of_mem_tokens htoken).1
  rw [ofText, ofTokens_eq_run, Token.endOf]
  constructor
  · intro hdocument
    obtain ⟨htree, hproblems⟩ := Document.mk.inj hdocument
    rcases cases_of_run hstart hfinish hproblems with hreaches | ⟨node, hreaches⟩
    · rw [run_of_reaches hstart hfinish hreaches] at htree
      contradiction
    · rw [run_of_reaches hstart hfinish hreaches] at htree
      obtain rfl : node = root := Option.some.inj htree
      exact hreaches
  · intro hreaches
    rw [run_of_reaches hstart hfinish hreaches]
    rfl

end TaskFile.Document
