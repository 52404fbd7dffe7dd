import TaskFile.Proofs.Document.Extent
import TaskFile.Proofs.Document.Growth
import TaskFile.Proofs.Document.Report
import TaskFile.Proofs.Number.Grammar
import TaskFile.Proofs.Token.Literal

/-!
# Numbers in a text

Where a token of a text starts like a number, it is the longest number there, be it one that
breaks off (`Lexeme.IsNumberAt`).  The token is at fault when it breaks off behind its point
or its exponent marker.  The document takes the value of a number by rules of its own, and
there a number behind whose marker no digit stands has none.  `isNumberAt_and_isNumberNode`
puts the two side by side.

* `exists_token_of_number`: every number in a tree was taken from a token of which all
  problems are reported.
* `exists_scalar?_of_numberFormat`: a number without a value is reported only where there is
  one.
-/

namespace TaskFile

open Text

/-! ## Tokens -/

/-- The longest number at the front of a text, be it one that breaks off, with what is wrong
with it. -/
structure Lexeme.IsNumberAt (text : List Char) (lexeme : Lexeme) : Prop where
  kind : lexeme.kind = .number
  number : Numeral.IsNumber 0 lexeme.text
  front : lexeme.text <+: text
  longest : ∀ other, Numeral.IsNumber 0 other → other <+: text → other <+: lexeme.text
  openNumber : lexeme.fault = some .openNumber ↔
    Numeral.LacksPlaces lexeme.text ∨ Numeral.LacksPower lexeme.text
  faultless : lexeme.fault = none ↔ Numeral.IsNumber 1 lexeme.text

/-- A numeral is at fault when it breaks off. -/
theorem Lexeme.fault_ofNumeral (numeral : Numeral) :
    ((ofNumeral numeral).fault = some .openNumber ↔ numeral.isCutOff = true) ∧
      ((ofNumeral numeral).fault = none ↔ numeral.isCutOff = false) := by
  unfold ofNumeral
  cases numeral.isCutOff <;> simp

theorem Lexeme.isNumberAt_first {c : Char} {cs : List Char} (hstart : Numeral.startsAt c cs) :
    (first c cs).IsNumberAt (c :: cs) := by
  have hproper := Numeral.isProper_ofChars hstart
  have hfault := fault_ofNumeral (Numeral.ofChars (c :: cs))
  rw [first_of_startsAt hstart]
  exact {
    kind := rfl
    number := hproper.isNumber (Numeral.hasDigits_zero _)
    front := Numeral.chars_ofChars_prefix _
    longest := fun other hother hfront => hother.prefix_ofChars hfront
    openNumber := hfault.1.trans (Numeral.isCutOff_iff hproper)
    faultless := hfault.2.trans (Numeral.isNumber_one_iff hproper).symm }

namespace Document

variable {options : Options} {token : Token} {level : Level} {outer : List Frame}

/-! ## Scalars and their problems -/

/-- A move at a scalar with some problems reports these, or else it finishes nothing. -/
def Takes (own : List Problem) (state : State) (move : Move) : Prop :=
  own ⊆ move.2 ∨ ∀ Q, state.All Q → move.1.All Q

theorem Takes.after {own : List Problem} {state : State} {move : Move}
    (htakes : Takes own state move) (problems : List Problem) :
    Takes own state (move.after problems) :=
  htakes.imp_left fun hown => List.subset_append_of_subset_right problems hown

/-- A number as a scalar, and its problem when it has no value. -/
theorem scalar?_of_number (hkind : token.kind = .number) :
    scalar? token = some (.number ((Numeral.ofChars token.text).value?.getD .zero),
      if (Numeral.ofChars token.text).value? = none then [complain .numberFormat token]
      else []) := by
  simp only [scalar?, hkind]
  cases (Numeral.ofChars token.text).value? <;> rfl

section Scalar

variable {kind : Node.Kind} {own : List Problem} (hscalar : scalar? token = some (kind, own))

include hscalar

theorem isSeparator_of_scalar? (shape : Shape) : isSeparator shape token = false := by
  have henter : enter? [] token = some _ := enter?_of_scalar? hscalar
  exact isSeparator_of_enter? henter shape

theorem takes_enter? (state : State) (outer : List Frame) (move : Move) :
    Takes own state ((enter? outer token).getD move) := by
  rw [enter?_of_scalar? hscalar]
  exact .inl (List.Subset.refl own)

theorem takes_skip (phase : Phase) :
    Takes own (.within level phase outer) (skip level outer token) := by
  rw [skip, if_neg (by simp [isSeparator_of_scalar? hscalar])]
  exact .inr fun _ hall => hall

theorem takes_abandon (phase : Phase) (key : Key) (colon : Option Nat) :
    Takes own (.within level phase outer) (abandon level outer key colon token) := by
  rw [abandon, if_neg (by simp [isSeparator_of_scalar? hscalar])]
  exact .inr fun _ hall => hall

theorem takes_child (phase : Phase) :
    Takes own (.within level phase outer) (child level outer token) := by
  have hskip : Takes own (.within level phase outer) (skip level outer token) :=
    takes_skip hscalar phase
  unfold child
  split
  · exact takes_enter? hscalar _ _ _
  split
  · exact .inr fun _ hall => hall
  · exact hskip.after _

theorem takes_proceed (options : Options) (phase : Phase) :
    Takes own (.within level phase outer) (proceed options level phase outer token) := by
  have hseparator := isSeparator_of_scalar? hscalar level.shape
  have hchild (phase : Phase) : Takes own (.within level phase outer) (child level outer token) :=
    takes_child hscalar phase
  cases phase with
  | first =>
    rw [proceed_eq_child options (.inl rfl) hseparator]
    exact hchild .first
  | next =>
    show Takes own _ (if isSeparator level.shape token then _ else _)
    rw [if_neg (by simp [hseparator])]
    exact (hchild .next).after _
  | comma =>
    rw [proceed_eq_child options (.inr rfl) hseparator]
    exact hchild .comma
  | lost => exact takes_skip hscalar .lost
  | key key =>
    show Takes own _ (if token.kind = .colon then _ else _)
    split
    · exact .inr fun _ hall => hall
    · exact (takes_abandon hscalar _ key none).after _
  | colon key colon => exact takes_enter? hscalar _ _ _
  | stuck key colon => exact takes_abandon hscalar _ key colon

/-- Whatever a reading waits for, a scalar is taken with its problems or finishes nothing. -/
theorem takes_step (options : Options) (state : State) :
    Takes own state (state.step options token) := by
  cases state with
  | start =>
    show Takes own _ (if token.kind = .finish then _ else _)
    split
    · exact .inr fun _ _ => nofun
    · exact takes_enter? hscalar _ _ _
  | within level phase outer => exact takes_proceed hscalar options phase
  | root node =>
    refine .inr fun Q hall other hother => ?_
    obtain rfl := Option.some.inj hother
    exact hall
  | «over» tree => exact .inr fun _ hall => hall

end Scalar

/-! ## Numbers in a tree -/

/-- A number was taken from one of some tokens, and the problems of the token and of its
value are among those reported. -/
def IsTaken (options : Options) (given : List Token) (reported : List Problem)
    (node : Node) : Prop :=
  ∀ value, node.kind = .number value → ∃ token ∈ given, ∃ own, node.span = token.span ∧
    scalar? token = some (node.kind, own) ∧ token.problems options.forbidComments ++ own ⊆ reported

variable {given tokens : List Token} {reported : List Problem} {state : State}

theorem IsTaken.mono {more : List Problem} {node : Node}
    (hnode : IsTaken options given reported node) (hmore : reported ⊆ more) :
    IsTaken options given more node := by
  intro value hkind
  obtain ⟨token, htoken, own, hspan, hscalar, hproblems⟩ := hnode value hkind
  exact ⟨token, htoken, own, hspan, hscalar, List.Subset.trans hproblems hmore⟩

/-- A move finishes no number but the one that its token is. -/
theorem all_isTaken_leads {next : State} (hleads : Leads token state next)
    (hstate : state.All (IsTaken options given reported))
    (hscalar : ∀ kind own, scalar? token = some (kind, own) →
      IsTaken options given reported ⟨kind, token.span, .nil⟩) :
    next.All (IsTaken options given reported) := by
  refine all_leads ?property ?key hscalar ?container hleads hstate
  case property =>
    intro node hproperty value hkind
    rw [hkind] at hproperty
    contradiction
  case key => exact fun name span value hkind => Node.Kind.noConfusion hkind
  case container =>
    intro level stop value hkind
    have hshape : level.shape.kind = .number value := hkind
    cases hkind : level.shape <;> rw [hkind] at hshape <;> contradiction

/-- A move that finishes a number reports the problem of its value. -/
theorem all_isTaken_step (htoken : token ∈ given)
    (hstate : state.All (IsTaken options given reported))
    (hproblems : token.problems options.forbidComments ++ (state.step options token).2 ⊆ reported) :
    (state.step options token).1.All (IsTaken options given reported) := by
  obtain ⟨halone, hmet⟩ := List.append_subset.1 hproblems
  have hleads := leads_step options state token
  cases hscalar : scalar? token with
  | none =>
    refine all_isTaken_leads hleads hstate fun kind own hkind => ?_
    rw [hscalar] at hkind
    contradiction
  | some scalar =>
    obtain ⟨kind, own⟩ := scalar
    rcases takes_step hscalar options state with hown | hkept
    · refine all_isTaken_leads hleads hstate fun kind' own' hkind => ?_
      rw [hscalar] at hkind
      obtain ⟨rfl, rfl⟩ := Prod.mk.inj (Option.some.inj hkind)
      have hreported := List.append_subset.2 ⟨halone, List.Subset.trans hown hmet⟩
      exact fun value _ => ⟨token, htoken, own, rfl, hscalar, hreported⟩
    · exact hkept _ hstate

/-- The numbers that are finished after a token are taken from the token or were before. -/
theorem all_isTaken_advance (htoken : token ∈ given)
    (hstate : state.All (IsTaken options given reported)) :
    (state.advance options token).1.All
      (IsTaken options given (reported ++ (state.advance options token).2)) := by
  have hbefore : state.All (IsTaken options given (reported ++ (state.advance options token).2)) :=
    hstate.imp fun _ hnode => hnode.mono (List.subset_append_left _ _)
  cases hover : state.isOver with
  | true =>
    have hsame : (state.advance options token).1 = state := by simp [State.advance, hover]
    rw [hsame]
    exact hbefore
  | false =>
    cases hkind : token.kind.isSignificant with
    | false =>
      rw [(State.advance_of_isSignificant_eq_false options state hkind).1]
      exact hbefore
    | true =>
      rw [State.advance_eq_step options hover hkind] at hbefore ⊢
      exact all_isTaken_step htoken hbefore (List.subset_append_right _ _)

theorem all_isTaken_run (htokens : tokens ⊆ given)
    (hstate : state.All (IsTaken options given reported)) :
    (state.run options tokens).1.All
      (IsTaken options given (reported ++ (state.run options tokens).2)) := by
  induction tokens generalizing state reported with
  | nil =>
    rw [State.run_nil, List.append_nil]
    exact hstate
  | cons token tokens ih =>
    obtain ⟨htoken, htokens⟩ := List.cons_subset.1 htokens
    have hnext := ih htokens (all_isTaken_advance htoken hstate)
    rw [State.run_cons, Move.after_snd, ← List.append_assoc]
    exact hnext

variable {text : List Char} {root node : Node} {number : Nat} {above : Option Nat}

/-- Every number in a tree was taken from a token, and all its problems are reported. -/
theorem exists_token_of_number {value : Binary64} (hroot : (ofText options text).tree = some root)
    (hhas : root.Has number above node) (hkind : node.kind = .number value) :
    ∃ token ∈ Token.ofText text ++ [Token.endOf text], ∃ own, node.span = token.span ∧
      scalar? token = some (node.kind, own) ∧
      token.problems options.forbidComments ++ own ⊆ (ofText options text).problems := by
  have hinitial : State.start.All
      (IsTaken options (Token.ofText text ++ [Token.endOf text]) []) := trivial
  have hfinal := all_isTaken_run (List.Subset.refl _) hinitial
  rw [ofText, ofTokens_eq_run] at hroot ⊢
  have htaken := (Forest.Has.of_all hhas (Node.all_toForest.2 (hfinal.tree hroot))).1
  exact htaken value hkind

/-- A number without a value is reported only on such a number. -/
theorem exists_scalar?_of_numberFormat {span : Span}
    (hproblem : ⟨.numberFormat, span⟩ ∈ (ofText options text).problems) :
    ∃ token ∈ Token.ofText text ++ [Token.endOf text], span = token.span ∧
      ∃ kind, scalar? token = some (kind, [complain .numberFormat token]) := by
  rw [ofText, ofTokens_eq_run] at hproblem
  obtain ⟨token, htoken, state, hproblem⟩ := exists_advance_of_mem_run options hproblem
  rcases cases_of_mem_advance hproblem with hown | hmeets | hopen
  · have hstructural := isStructural_of_mem_problems hown
    contradiction
  · cases hmeets with
    | misplaced hkind => contradiction
    | numeral hscalar => exact ⟨token, htoken, rfl, _, hscalar⟩
  · obtain ⟨shape, hopen⟩ := exists_shape_of_mem_unclosed hopen
    have hshape : shape.unclosed = .numberFormat := (congrArg Problem.kind hopen).symm
    cases shape <;> contradiction

theorem exists_number_of_standsFor {kind : Node.Kind} (hstands : token.StandsFor kind)
    (hkind : token.kind = .number) : ∃ value, kind = .number value := by
  unfold Token.StandsFor at hstands
  split at hstands <;> simp_all

/-- A node that starts where a number does is a number. -/
theorem exists_number_of_start (hroot : (ofText options text).tree = some root)
    (hhas : root.Has number above node) (htoken : token ∈ Token.ofText text)
    (hkind : token.kind = .number) (hstart : node.span.start = token.start) :
    ∃ value, node.kind = .number value := by
  have honly {other : Token} (hother : other ∈ Token.ofText text)
      (hotherStart : other.start = node.span.start) : other.kind = .number := by
    rw [← hkind]
    exact congrArg (·.kind) (Token.eq_of_start_eq (List.mem_append_left _ hother)
      (List.mem_append_left _ htoken) (hotherStart.trans hstart))
  have hfit := (hhas.isFit (rootFits_ofText hroot).all).1
  obtain ⟨hbounded, hbelow⟩ :=
    Forest.Has.of_all hhas (Node.all_toForest.2 (isBounded_ofText hroot))
  obtain ⟨kind, span, children⟩ := node
  cases kind with
  | object | array =>
    obtain ⟨opener, hopener, hopenerKind, hopenerStart⟩ := hbounded.opened
    have hnumber := honly hopener hopenerStart
    rw [hopenerKind] at hnumber
    contradiction
  | property colon =>
    obtain ⟨name, nameSpan, siblings, rfl, hname⟩ := hfit.schema.exists_key
    obtain ⟨key, hkey, hkeySpan, hkeyKind, -⟩ := hbelow.1
    have hkeyStart : key.start = nameSpan.start := congrArg Span.start hkeySpan
    have hnumber := honly hkey (hkeyStart.trans hname)
    rw [hkeyKind] at hnumber
    contradiction
  | number value => exact ⟨value, rfl⟩
  | string | boolean | null =>
    obtain ⟨scalar, hscalar, hspan, hstands⟩ := hbounded
    have hscalarStart : scalar.start = span.start := congrArg Span.start hspan
    exact exists_number_of_standsFor hstands (honly hscalar hscalarStart)

/-- What a document makes of a number that is a node: its value, which is zero when no digit
follows the exponent marker, and two problems in that case, of the document and of the
token. -/
structure IsNumberNode (document : Document) (token : Token) (node : Node) : Prop where
  span : node.span = token.span
  kind : node.kind = .number ((Numeral.ofChars token.text).value?.getD .zero)
  numberFormat : ⟨.numberFormat, token.span⟩ ∈ document.problems ↔ Numeral.LacksPower token.text
  zero : Numeral.LacksPower token.text → node.kind = .number .zero
  openNumber : Numeral.LacksPower token.text → ⟨.fault .openNumber, token.span⟩ ∈ document.problems

/-- A node that starts where a number does is the number. -/
theorem isNumberNode_of_isNumberAt {rest : List Char} (hnumber : token.toLexeme.IsNumberAt rest)
    (htoken : token ∈ Token.ofText text) (hroot : (ofText options text).tree = some root)
    (hhas : root.Has number above node) (hstart : node.span.start = token.start) :
    (ofText options text).IsNumberNode token node := by
  have hmem : token ∈ Token.ofText text ++ [Token.endOf text] := List.mem_append_left _ htoken
  have hsame {other : Token} (hother : other ∈ Token.ofText text ++ [Token.endOf text])
      (hotherStart : other.start = token.start) : other = token :=
    Token.eq_of_start_eq hother hmem hotherStart
  have hscalar := scalar?_of_number hnumber.kind
  have hvalue := Numeral.value?_ofChars_eq_none_iff hnumber.number
  obtain ⟨value, hkind⟩ := exists_number_of_start hroot hhas htoken hnumber.kind hstart
  obtain ⟨other, hother, own, hspan, hown, hproblems⟩ := exists_token_of_number hroot hhas hkind
  obtain rfl := hsame hother ((congrArg Span.start hspan).symm.trans hstart)
  rw [hscalar] at hown
  obtain ⟨hnode, rfl⟩ := Prod.mk.inj (Option.some.inj hown)
  obtain ⟨halone, hmet⟩ := List.append_subset.1 hproblems
  refine ⟨hspan, hnode.symm, ⟨fun hproblem => ?_, fun hlacks => ?_⟩, fun hlacks => ?_,
    fun hlacks => ?_⟩
  · obtain ⟨third, hthird, hthirdSpan, kind, hreported⟩ :=
      exists_scalar?_of_numberFormat hproblem
    obtain rfl := hsame hthird (congrArg Span.start hthirdSpan).symm
    by_contra hlacks
    rw [hscalar, if_neg (mt hvalue.1 hlacks)] at hreported
    exact List.cons_ne_nil _ _ (Prod.mk.inj (Option.some.inj hreported)).2.symm
  · rw [if_pos (hvalue.2 hlacks)] at hmet
    exact hmet List.mem_cons_self
  · rw [← hnode, hvalue.2 hlacks]
    rfl
  · refine halone (List.mem_append_left _ ?_)
    rw [hnumber.openNumber.2 (.inr hlacks)]
    exact List.mem_singleton_self _

/-- A token that starts at a digit, or at a minus sign before one, is the longest number there.
It may break off behind its point or its exponent marker, which is then its fault, and it is a
number of JSON when it has none.

Of a node that starts there the document reports that it has no value exactly when the token
breaks off behind the marker.  Its value is zero then, and the fault is reported too. -/
theorem isNumberAt_and_isNumberNode {before cs : List Char} {c : Char}
    (htoken : token ∈ Token.ofText (before ++ c :: cs)) (hstart : token.start = width before)
    (hnumber : Numeral.startsAt c cs) :
    token.toLexeme.IsNumberAt (c :: cs) ∧
      ∀ (options : Options) (root node : Node) (number : Nat) (above : Option Nat),
        (ofText options (before ++ c :: cs)).tree = some root → root.Has number above node →
          node.span.start = token.start →
          (ofText options (before ++ c :: cs)).IsNumberNode token node := by
  have hfirst : token.toLexeme.IsNumberAt (c :: cs) := by
    rw [Token.toLexeme_eq_first htoken hstart]
    exact Lexeme.isNumberAt_first hnumber
  exact ⟨hfirst, fun options root node number above hroot hhas =>
    isNumberNode_of_isNumberAt hfirst htoken hroot hhas⟩

/-- Both the point and the marker lack a digit. -/
theorem isNumberAt_and_isNumberNode_cutOff :
    ∃ token ∈ Token.ofText ("[".toList ++ '-' :: "1.e+]".toList), token.start = 1 ∧
      Numeral.startsAt '-' "1.e+]".toList ∧ token.toLexeme.IsNumberAt "-1.e+]".toList ∧
      ∃ root node, (ofText default "[-1.e+]".toList).tree = some root ∧
        root.Has 1 (some 0) node ∧ node.span.start = 1 ∧
        (ofText default "[-1.e+]".toList).IsNumberNode token node := by
  have htoken : (⟨⟨.number, "-1.e+".toList, some .openNumber⟩, 1⟩ : Token) ∈
      Token.ofText ("[".toList ++ '-' :: "1.e+]".toList) := by decide +kernel
  have hnumber : Numeral.startsAt '-' "1.e+]".toList := .inr ⟨rfl, rfl⟩
  have hroot : (ofText default ("[".toList ++ '-' :: "1.e+]".toList)).tree =
      some ⟨.array, ⟨0, 7⟩, .cons (.number .zero) ⟨1, 6⟩ .nil .nil⟩ := by decide +kernel
  have hhas : Node.Has ⟨.array, ⟨0, 7⟩, .cons (.number .zero) ⟨1, 6⟩ .nil .nil⟩ 1 (some 0)
      ⟨.number .zero, ⟨1, 6⟩, .nil⟩ := Forest.Has.child .here
  obtain ⟨hfirst, hnode⟩ := isNumberAt_and_isNumberNode htoken rfl hnumber
  exact ⟨_, htoken, rfl, hnumber, hfirst, _, _, hroot, hhas, rfl,
    hnode default _ _ _ _ hroot hhas rfl⟩

end Document

end TaskFile
