import TaskFile.Proofs.Document.Embedding
import TaskFile.Proofs.Document.Options
import TaskFile.Proofs.Token.Printed

/-!
# Reading a text part by part

`State.scan` reads what is left of a text, from a state and an offset on.  White space makes
no difference to it (`State.run_printed`), and so it takes a text apart in places where
tokens of white space do not end (`State.scan_append`).

* `scan_punctuation` and `scan_lineEnd` take a character and the end of a line off the front.
* `run_value` reads a text that is a value on its own, wherever a value is asked for.
* `run_next` reads a child that has no comma before it.
-/

namespace TaskFile.Document

open Text

variable {options : Options} {state next : State} {offset : Nat} {text front rest : List Char}
  {tokens : List Token} {token : Token} {level : Level}

/-! ## Reading what is printed -/

/-- White space is passed over. -/
theorem State.advance_white (options : Options) (state : State)
    (hkind : token.kind.isWhite = true) (hfault : token.fault = none) :
    state.advance options token = (state, []) := by
  obtain ⟨⟨kind, text, fault⟩, start⟩ := token
  subst hfault
  unfold advance
  cases kind <;> first | contradiction | (split <;> rfl)

theorem State.run_filter_white (options : Options) (state : State)
    (htokens : ∀ token ∈ tokens, token.kind.isWhite = true → token.fault = none) :
    state.run options (tokens.filter (!·.kind.isWhite)) = state.run options tokens := by
  induction tokens generalizing state with
  | nil => rfl
  | cons token tokens ih =>
    obtain ⟨htoken, htokens⟩ := List.forall_mem_cons.1 htokens
    cases hwhite : token.kind.isWhite with
    | true =>
      rw [List.filter_cons_of_neg (by simp [hwhite]), ih _ htokens, run_cons,
        state.advance_white options hwhite (htoken hwhite), Move.after_nil]
    | false =>
      rw [List.filter_cons_of_pos (by simp [hwhite]), run_cons, run_cons, ih _ htokens]

/-- What is not printed makes no difference. -/
theorem State.run_printed (options : Options) (state : State) (remainder : Remainder) :
    state.run options remainder.printed = state.run options remainder.tokens :=
  state.run_filter_white options fun token htoken hwhite => by
    obtain ⟨c, cs, hform⟩ := (Token.covers_tokens remainder).exists_form htoken
    exact hform.fault_of_isWhite hwhite

/-- Reading what is left of a text, from a state and an offset on. -/
def State.scan (options : Options) (state : State) (offset : Nat) (text : List Char) : Move :=
  state.run options
    ((Remainder.mk offset text).printed ++ [Token.atEnd (offset + width text)])

theorem ofText_eq_scan (options : Options) (text : List Char) :
    ofText options text =
      ⟨(State.start.scan options 0 text).1.tree, (State.start.scan options 0 text).2⟩ := by
  rw [ofText, ofTokens_eq_run, State.scan, State.run_append, State.run_append, State.run_printed,
    Nat.zero_add]
  rfl

/-- Reading what is left part by part. -/
theorem State.scan_append (state : State)
    (htokens : (Remainder.mk offset (front ++ rest)).printed =
      tokens ++ (Remainder.mk (offset + width front) rest).printed) :
    state.scan options offset (front ++ rest) =
      ((state.run options tokens).1.scan options (offset + width front) rest).after
        (state.run options tokens).2 := by
  rw [scan, htokens, List.append_assoc, run_append, width_append, ← Nat.add_assoc]
  rfl

/-- A token of punctuation is taken off the front. -/
theorem scan_punctuation {d : Char} {kind : Token.Kind} {problems : List Problem}
    (hd : Lexeme.punctuation? d = some kind) (hover : state.isOver = false)
    (hstep : state.step options ⟨⟨kind, [d], none⟩, offset⟩ = (next, problems))
    (rest : List Char) :
    state.scan options offset (d :: rest) =
      (next.scan options (offset + width [d]) rest).after problems := by
  have hmem := Lexeme.mem_of_punctuation? hd
  have hkind : kind.isSignificant = true := by cases kind <;> first | rfl | contradiction
  have halone : Token.problems options.forbidComments ⟨⟨kind, [d], none⟩, offset⟩ = [] := by
    cases kind <;> first | rfl | contradiction
  have hadvance : state.advance options ⟨⟨kind, [d], none⟩, offset⟩ = (next, problems) := by
    rw [State.advance_eq_step options hover hkind, halone, hstep, Move.after_nil]
  have hprinted : (Remainder.mk offset ([d] ++ rest)).printed =
      [⟨⟨kind, [d], none⟩, offset⟩] ++ (Remainder.mk (offset + width [d]) rest).printed :=
    Remainder.printed_punctuation hd offset rest
  rw [← List.singleton_append, state.scan_append hprinted, State.run_cons, hadvance]
  simp

/-- The end of a line is passed over. -/
theorem scan_lineEnd (state : State) (lineEnd : LineEnd) (offset : Nat) (rest : List Char) :
    state.scan options offset (lineEnd.chars ++ rest) =
      state.scan options (offset + width lineEnd.chars) rest := by
  have hprinted : (Remainder.mk offset (lineEnd.chars ++ rest)).printed =
      [] ++ (Remainder.mk (offset + width lineEnd.chars) rest).printed := by
    cases lineEnd with
    | feed | carriage => exact Remainder.printed_lineBreak rfl offset rest
    | both =>
      exact (Remainder.printed_lineBreak rfl offset ('\n' :: rest)).trans
        (Remainder.printed_lineBreak rfl _ rest)
  rw [state.scan_append hprinted]
  rfl

/-! ## Values -/

/-- A text that is a value on its own: it has a tree and no problem. -/
def IsValue (options : Options) (text : List Char) : Prop :=
  (ofText options text).tree.isSome = true ∧ (ofText options text).problems = []

instance (options : Options) : DecidablePred (IsValue options) :=
  fun _ => inferInstanceAs (Decidable (_ ∧ _))

/-- The tokens of a value lead to its tree. -/
theorem IsValue.reaches (hvalue : IsValue options text) :
    ∃ root, (ofText options text).tree = some root ∧
      Reaches options .start (Token.ofText text) (.root root) := by
  obtain ⟨root, htree⟩ := Option.isSome_iff_exists.1 hvalue.1
  have hdocument : ofText options text = ⟨some root, []⟩ :=
    congrArg₂ Document.mk htree hvalue.2
  exact ⟨root, htree, ofText_eq_iff.1 hdocument⟩

/-- Where a document may not be empty, a text without a problem is a value. -/
theorem isValue_iff (hempty : options.emptyDocument = false) :
    IsValue options text ↔ (ofText options text).problems = [] := by
  refine ⟨And.right, fun hproblems => ⟨?_, hproblems⟩⟩
  have hstart : State.IsSound .start := trivial
  have hfinish : ∀ token ∈ Token.ofText text, token.kind ≠ .finish :=
    fun _ htoken => (isSound_of_mem_tokens htoken).1
  have hrun : (State.start.run options (Token.ofText text ++ [Token.endOf text])).2 = [] := by
    rwa [ofText, ofTokens_eq_run] at hproblems
  rcases cases_of_run hstart hfinish hrun with hreaches | ⟨root, hreaches⟩
  · rw [run_of_reaches hstart hfinish hreaches] at hrun
    obtain ⟨forbidComments, trailingComma, emptyDocument⟩ := options
    subst hempty
    contradiction
  · rw [ofText_eq_iff.2 hreaches]
    rfl

/-! ## Where a child starts -/

/-- The first significant token among tokens, if it is no separator and nothing is a problem
before it. -/
def StartsAt (options : Options) (tokens : List Token) (first : Token) : Prop :=
  ∃ front others, tokens = front ++ first :: others ∧
    (∀ token ∈ front, token.kind.isSignificant = false ∧
      token.problems options.forbidComments = []) ∧
    first.kind.isSignificant = true ∧ first.problems options.forbidComments = [] ∧
    ∀ shape, isSeparator shape first = false

/-- The tokens of a value start with a token that is no separator. -/
theorem exists_startsAt (hfinish : ∀ token ∈ tokens, token.kind ≠ .finish) {root : Node}
    (hrun : State.start.run options tokens = (.root root, [])) :
    ∃ first, StartsAt options tokens first := by
  have hstart : State.IsSound .start := trivial
  induction tokens with
  | nil => nomatch (Prod.mk.inj hrun).1
  | cons token tokens ih =>
    obtain ⟨htoken, htokens⟩ := List.forall_mem_cons.1 hfinish
    obtain ⟨hnext, hproblems⟩ := Prod.mk.inj hrun
    obtain ⟨hhere, hlater⟩ := List.append_eq_nil_iff.1 hproblems
    have hadvance : State.start.advance options token =
        ((State.start.advance options token).1, []) := Prod.ext rfl hhere
    obtain ⟨halone, ⟨hkind, hsame⟩ | ⟨hkind, hquiet⟩⟩ :=
      (advance_eq_iff hstart htoken).1 hadvance
    · rw [hsame] at hnext hlater
      obtain ⟨first, front, others, rfl, hfront, hfirst⟩ := ih htokens (Prod.ext hnext hlater)
      exact ⟨first, token :: front, others, rfl, List.forall_mem_cons.2 ⟨⟨hkind, halone⟩, hfront⟩,
        hfirst⟩
    · refine ⟨token, [], tokens, rfl, by simp, hkind, halone, fun shape => ?_⟩
      generalize (State.start.advance options token).1 = next at hquiet
      cases hquiet with
      | enter _ henter => exact isSeparator_of_enter? henter shape

/-- A child without a comma before it is read as one with a comma, and reported. -/
theorem run_next {first : Token} (htokens : StartsAt options tokens first) (level : Level)
    (outer : List Frame) :
    (State.within level .next outer).run options tokens =
      ((State.within level .comma outer).run options tokens).after
        [complain .commaExpected first] := by
  obtain ⟨front, others, rfl, hfront, hkind, halone, hseparator⟩ := htokens
  induction front with
  | nil =>
    have hcomma : proceed options level .comma outer first = child level outer first :=
      proceed_eq_child options (.inr rfl) (hseparator level.shape)
    have hnext : proceed options level .next outer first =
        (child level outer first).after [complain .commaExpected first] := by
      simp [proceed, hseparator]
    have hadvance (phase : Phase) : (State.within level phase outer).advance options first =
        proceed options level phase outer first := by
      rw [State.advance_eq_step options rfl hkind, halone, Move.after_nil]
      rfl
    simp [State.run_cons, hadvance, hcomma, hnext, Move.after_after]
  | cons token front ih =>
    obtain ⟨⟨hkind, halone⟩, hfront⟩ := List.forall_mem_cons.1 hfront
    have hpass (phase : Phase) : (State.within level phase outer).advance options token =
        (.within level phase outer, []) := by
      rw [State.advance_eq_self options rfl hkind, halone]
    rw [List.cons_append, State.run_cons, State.run_cons, hpass, hpass, Move.after_nil,
      Move.after_nil, ih hfront]

theorem StartsAt.append {first : Token} (htokens : StartsAt options tokens first)
    (more : List Token) : StartsAt options (tokens ++ more) first := by
  obtain ⟨front, others, rfl, hfirst⟩ := htokens
  exact ⟨front, others ++ more, by simp, hfirst⟩

/-- The tokens of a value lead to its tree wherever a value is asked for. -/
theorem run_value {value : List Char} (hvalue : IsValue options value) (offset : Nat) :
    ∃ root, (ofText options value).tree = some root ∧
      (∀ token ∈ (Remainder.mk offset value).printed, token.fault = none) ∧
      (∃ first, StartsAt options (Remainder.mk offset value).printed first) ∧
      ∀ {state outer}, State.Asks state outer →
        state.run options (Remainder.mk offset value).printed =
          (deliver (root.shift offset) outer, []) := by
  obtain ⟨root, htree, hreaches⟩ := hvalue.reaches
  have hshift := reaches_shift hreaches offset
  have hfinish : ∀ token ∈ (Remainder.mk offset value).tokens, token.kind ≠ .finish :=
    fun _ => ne_finish_of_mem_tokens
  have hprinted : ∀ token ∈ (Remainder.mk offset value).printed,
      token ∈ (Remainder.mk offset value).tokens := fun _ htoken => (List.mem_filter.1 htoken).1
  have hstart : State.IsSound .start := trivial
  have hrun : State.start.run options (Remainder.mk offset value).printed =
      (.root (root.shift offset), []) := by
    rw [State.run_printed]
    exact (reaches_iff_run hstart hfinish).1 hshift
  refine ⟨root, htree, fun token htoken => ?_, ?_, fun hasks => ?_⟩
  · exact fault_eq_none_of_problems (hshift.problems_eq_nil token (hprinted token htoken))
  · exact exists_startsAt (fun token htoken => hfinish token (hprinted token htoken)) hrun
  · rw [State.run_printed]
    exact (reaches_iff_run hasks.isSound hfinish).1 (reaches_deliver hasks hshift)

end TaskFile.Document
