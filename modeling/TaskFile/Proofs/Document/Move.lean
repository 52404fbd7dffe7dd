import TaskFile.Proofs.Document.Run
import TaskFile.Proofs.Document.Grammar
import TaskFile.Proofs.Token.Stream

/-!
# The moves of the reading state

What a single move can do.

* `enter?_of_scalar?`, `enter?_opener` and `enter?_eq_none` say when a token
  starts a value and where that leads.
* `separate_comma`, `separate_closer`, `proceed_closer` and `proceed_eq_child` say what
  a separator does in a container, and that any other token is the first one of a
  child.
* `State.Asks` lists the states that ask for a value, and `step_of_asks` says that they
  take its first token.
* `Leads` lists the states that a significant token can lead to, one
  constructor for each thing that can happen to the innermost container, and
  `leads_step` says that every move is listed.  The problems that are met do
  not appear in it, and neither do the options, which only affect those.
* `fst_proceed_of_isSeparator` says that a separator separates whatever the container
  waits for.  So nothing is read after the end of the text, whatever was open there
  (`isOver_advance`).
* `holds_run_ofText` is the induction over a whole text: what every listed move
  keeps holds at the end.
-/

namespace TaskFile.Document

/-! ## Starting a value -/

/-- A token that is a scalar is a value on its own. -/
theorem enter?_of_scalar? {outer : List Frame} {token : Token} {kind : Node.Kind}
    {problems : List Problem} (hscalar : scalar? token = some (kind, problems)) :
    enter? outer token = some (deliver ⟨kind, token.span, .nil⟩ outer, problems) := by
  unfold enter?
  split
  · rename_i hkind
    simp [scalar?, hkind] at hscalar
  · rename_i hkind
    simp [scalar?, hkind] at hscalar
  · simp [hscalar]

/-- A token that opens a container leads into it. -/
theorem enter?_opener {outer : List Frame} {token : Token} {shape : Shape}
    (hkind : token.kind = shape.opener) :
    enter? outer token = some (.within ⟨shape, token.start, .nil⟩ .first outer, []) := by
  cases shape <;> simp [enter?, hkind, Shape.opener]

/-- Only literals are scalars. -/
theorem scalar?_eq_none {token : Token} (hliteral : token.kind.isLiteral = false) :
    scalar? token = none := by
  unfold scalar?
  split <;> simp_all [Token.Kind.isLiteral]

theorem isLiteral_of_scalar? {token : Token} {kind : Node.Kind} {problems : List Problem}
    (hscalar : scalar? token = some (kind, problems)) : token.kind.isLiteral = true := by
  cases hliteral : token.kind.isLiteral with
  | true => rfl
  | false =>
    rw [scalar?_eq_none hliteral] at hscalar
    contradiction

/-- A scalar token becomes a scalar node. -/
theorem isScalar_of_scalar? {token : Token} {kind : Node.Kind} {problems : List Problem}
    (hscalar : scalar? token = some (kind, problems)) : kind.isScalar = true := by
  unfold scalar? at hscalar
  split at hscalar
  · obtain ⟨rfl, -⟩ := Prod.mk.inj (Option.some.inj hscalar)
    rfl
  · split at hscalar
    · obtain ⟨rfl, -⟩ := Prod.mk.inj (Option.some.inj hscalar)
      rfl
    · obtain ⟨rfl, -⟩ := Prod.mk.inj (Option.some.inj hscalar)
      rfl
  · obtain ⟨rfl, -⟩ := Prod.mk.inj (Option.some.inj hscalar)
    rfl
  · obtain ⟨rfl, -⟩ := Prod.mk.inj (Option.some.inj hscalar)
    rfl
  · obtain ⟨rfl, -⟩ := Prod.mk.inj (Option.some.inj hscalar)
    rfl
  · contradiction

/-- No other token starts a value. -/
theorem enter?_eq_none {outer : List Frame} {token : Token}
    (hliteral : token.kind.isLiteral = false)
    (hopener : ∀ shape : Shape, token.kind ≠ shape.opener) :
    enter? outer token = none := by
  have hobject := hopener .object
  have harray := hopener .array
  simp only [Shape.opener] at hobject harray
  unfold enter?
  split
  · contradiction
  · contradiction
  · simp [scalar?_eq_none hliteral]

/-- Where the first token of a value leads: to the finished value, or into a
container. -/
theorem enter?_eq_some {outer : List Frame} {token : Token} {move : Move}
    (hmove : enter? outer token = some move) :
    (∃ kind, scalar? token = some (kind, move.2) ∧
        move.1 = deliver ⟨kind, token.span, .nil⟩ outer) ∨
      ∃ shape : Shape, token.kind = shape.opener ∧
        move = (.within ⟨shape, token.start, .nil⟩ .first outer, []) := by
  unfold enter? at hmove
  split at hmove
  · rename_i hkind
    exact .inr ⟨.object, hkind, (Option.some.inj hmove).symm⟩
  · rename_i hkind
    exact .inr ⟨.array, hkind, (Option.some.inj hmove).symm⟩
  · obtain ⟨⟨kind, problems⟩, hscalar, rfl⟩ := Option.map_eq_some_iff.1 hmove
    exact .inl ⟨kind, hscalar, rfl⟩

/-! ## Separators -/

section Separators

variable {token : Token} {level : Level} {outer : List Frame}

theorem isSeparator_iff {shape : Shape} :
    isSeparator shape token = true ↔
      token.kind = .comma ∨ token.kind = shape.closer ∨ token.kind = .finish := by
  simp [isSeparator, or_assoc]

theorem closer_ne_comma (shape : Shape) : shape.closer ≠ .comma := by
  cases shape <;> simp [Shape.closer]

theorem closer_ne_finish (shape : Shape) : shape.closer ≠ .finish := by
  cases shape <;> simp [Shape.closer]

theorem isLiteral_of_isSeparator {shape : Shape} (hseparator : isSeparator shape token = true) :
    token.kind.isLiteral = false := by
  rcases isSeparator_iff.1 hseparator with hkind | hkind | hkind
  · rw [hkind]
    rfl
  · rw [hkind]
    cases shape <;> rfl
  · rw [hkind]
    rfl

theorem ne_opener_of_isSeparator {shape : Shape} (hseparator : isSeparator shape token = true)
    (other : Shape) : token.kind ≠ other.opener := by
  rcases isSeparator_iff.1 hseparator with hkind | hkind | hkind
  · rw [hkind]
    cases other <;> simp [Shape.opener]
  · rw [hkind]
    cases shape <;> cases other <;> simp [Shape.opener, Shape.closer]
  · rw [hkind]
    cases other <;> simp [Shape.opener]

/-- No separator of any container starts a value. -/
theorem enter?_of_isSeparator {shape : Shape} (hseparator : isSeparator shape token = true) :
    enter? outer token = none :=
  enter?_eq_none (isLiteral_of_isSeparator hseparator) (ne_opener_of_isSeparator hseparator)

theorem ne_string_of_isSeparator {shape : Shape} (hseparator : isSeparator shape token = true) :
    token.kind ≠ .string := by
  intro hkind
  have hliteral := isLiteral_of_isSeparator hseparator
  rw [hkind] at hliteral
  contradiction

/-- A separator is not the first token of a value. -/
theorem isSeparator_of_enter? {move : Move} (henter : enter? outer token = some move)
    (shape : Shape) : isSeparator shape token = false := by
  cases hseparator : isSeparator shape token with
  | false => rfl
  | true =>
    rw [enter?_of_isSeparator hseparator] at henter
    contradiction

theorem isSeparator_of_closer (hkind : token.kind = level.shape.closer) :
    isSeparator level.shape token = true :=
  isSeparator_iff.2 (.inr (.inl hkind))

/-- The closing token finishes the container. -/
theorem separate_closer (hkind : token.kind = level.shape.closer) :
    separate level outer token = (deliver (level.close token.stop) outer, []) := by
  simp [separate, hkind, closer_ne_comma, closer_ne_finish]

theorem separate_comma (hkind : token.kind = .comma) :
    separate level outer token = (.within level .comma outer, []) := by
  simp [separate, hkind]

/-- A token that is no separator is the first one of a child, where a child may
start. -/
theorem proceed_eq_child (options : Options) {phase : Phase}
    (hphase : phase = .first ∨ phase = .comma)
    (hseparator : isSeparator level.shape token = false) :
    proceed options level phase outer token = child level outer token := by
  have hcomma : token.kind ≠ .comma := by
    intro hkind
    rw [isSeparator_iff.2 (.inl hkind)] at hseparator
    contradiction
  have hcloser : token.kind ≠ level.shape.closer := by
    intro hkind
    rw [isSeparator_of_closer hkind] at hseparator
    contradiction
  rcases hphase with rfl | rfl
  · simp [proceed, hcomma, hseparator]
  · simp [proceed, hcloser]

/-- A string is a key where a child of an object may start. -/
theorem proceed_key (options : Options) {phase : Phase} {name : String}
    (hphase : phase = .first ∨ phase = .comma) (hshape : level.shape = .object)
    (hkind : token.kind = .string) (hname : token.string?.getD "" = name) :
    proceed options level phase outer token =
      (.within level (.key ⟨token.span, name⟩) outer, []) := by
  have hseparator : isSeparator level.shape token = false := by
    simp [isSeparator, hkind, hshape, Shape.closer]
  rw [proceed_eq_child options hphase hseparator, child, hshape]
  simp [hkind, hname]

/-- The closing token finishes a container where it may end. -/
theorem proceed_closer {options : Options} {phase : Phase}
    (hphase : phase = .first ∨ phase = .next ∨ phase = .comma ∧ options.trailingComma = true)
    (hkind : token.kind = level.shape.closer) :
    proceed options level phase outer token = (deliver (level.close token.stop) outer, []) := by
  have hseparator : isSeparator level.shape token = true := isSeparator_of_closer hkind
  rcases hphase with rfl | rfl | ⟨rfl, htrailing⟩
  · have hcomma : token.kind ≠ .comma := hkind ▸ closer_ne_comma _
    simp [proceed, hcomma, hseparator, separate_closer hkind]
  · simp [proceed, hseparator, separate_closer hkind]
  · simp [proceed, hkind, htrailing, separate_closer hkind]

end Separators

/-! ## Waiting for a value -/

/-- A state that asks for a value, to be put in the given containers. -/
inductive State.Asks : State → List Frame → Prop where
  | start : Asks .start []
  | element {level phase outer} (hphase : phase = .first ∨ phase = .comma)
      (hshape : level.shape = .array) :
      Asks (.within level phase outer) (.element level :: outer)
  | member {level key colon outer} :
      Asks (.within level (.colon key colon) outer) (.member level key colon :: outer)

/-- The first token of a value is taken where one is asked for. -/
theorem step_of_asks (options : Options) {token : Token} {state : State} {outer : List Frame}
    {move : Move} (hasks : State.Asks state outer) (henter : enter? outer token = some move) :
    state.step options token = move := by
  have hseparator := isSeparator_of_enter? henter
  cases hasks with
  | start =>
    have hfinish : token.kind ≠ .finish := by
      intro hkind
      have hends : isSeparator .array token = true := isSeparator_iff.2 (.inr (.inr hkind))
      rw [hseparator] at hends
      contradiction
    simp [State.step, hfinish, henter]
  | @element level phase outer hphase hshape =>
    rw [State.step, proceed_eq_child options hphase (hseparator _), child, hshape]
    simp [henter]
  | member => simp [State.step, proceed, henter]

/-! ## All moves -/

/-- The key of a property that is not finished, and its colon. -/
def Phase.key? : Phase → Option (Key × Option Nat)
  | .key name => some (name, none)
  | .colon name place => some (name, some place)
  | .stuck name place => some (name, place)
  | _ => none

/-- The innermost container once a property without a value has been finished
at a token. -/
def Level.settle (level : Level) (phase : Phase) (token : Token) : Level :=
  match phase.key? with
  | some (key, colon) =>
    level.push (key.property colon none (if token.kind = .comma then token.start else token.stop))
  | none => level

theorem Level.settle_of_key? {level : Level} {phase : Phase} {token : Token} {key : Key}
    {colon : Option Nat} (hkey : phase.key? = some (key, colon)) :
    level.settle phase token = level.push (key.property colon none
      (if token.kind = .comma then token.start else token.stop)) := by
  simp [settle, hkey]

theorem Level.settle_of_key?_eq_none {level : Level} {phase : Phase} {token : Token}
    (hkey : phase.key? = none) : level.settle phase token = level := by
  simp [settle, hkey]

/-- The states that a significant token can lead to. -/
inductive Leads (token : Token) : State → State → Prop where
  | nothing : Leads token .start (.over none)
  | value {move} (henter : enter? [] token = some move) : Leads token .start move.1
  | comma {level phase outer} (hkind : token.kind = .comma) :
      Leads token (.within level phase outer) (.within (level.settle phase token) .comma outer)
  | close {level phase outer} (hkind : token.kind = level.shape.closer) :
      Leads token (.within level phase outer)
        (deliver ((level.settle phase token).close token.stop) outer)
  | finish {level phase outer} (hkind : token.kind = .finish) :
      Leads token (.within level phase outer)
        (.over (some (unwind token ((level.settle phase token).close token.stop) outer).1))
  | element {level phase outer move} (hkey : phase.key? = none) (hshape : level.shape = .array)
      (henter : enter? (.element level :: outer) token = some move) :
      Leads token (.within level phase outer) move.1
  | name {level phase outer} (hkey : phase.key? = none) (hshape : level.shape = .object)
      (hkind : token.kind = .string) :
      Leads token (.within level phase outer)
        (.within level (.key ⟨token.span, token.string?.getD ""⟩) outer)
  | colon {level key outer} (hkind : token.kind = .colon) :
      Leads token (.within level (.key key) outer) (.within level (.colon key token.start) outer)
  | member {level key colon outer move}
      (henter : enter? (.member level key colon :: outer) token = some move) :
      Leads token (.within level (.colon key colon) outer) move.1
  | lost {level phase outer} (hkey : phase.key? = none) :
      Leads token (.within level phase outer) (.within level .lost outer)
  | stuck {level phase key colon outer} (hkey : phase.key? = some (key, colon)) :
      Leads token (.within level phase outer) (.within level (.stuck key colon) outer)
  | root {node} : Leads token (.root node) (.over (some node))
  | over {tree} : Leads token (.over tree) (.over tree)

variable {token : Token} {level : Level} {outer : List Frame}

/-- A separator ends the innermost container or goes on after a comma, once
what was unfinished in it is finished. -/
theorem leads_separate {phase : Phase} {separated : Level}
    (hseparator : isSeparator level.shape token = true)
    (hseparated : separated = level.settle phase token) :
    Leads token (.within level phase outer) (separate separated outer token).1 := by
  subst hseparated
  unfold separate
  rcases isSeparator_iff.1 hseparator with hkind | hkind | hkind
  · rw [if_pos hkind]
    exact .comma hkind
  · rw [if_neg (by rw [hkind]; exact closer_ne_comma _),
      if_neg (by rw [hkind]; exact closer_ne_finish _)]
    exact .close hkind
  · rw [if_neg (by rw [hkind]; simp), if_pos hkind]
    exact .finish hkind

theorem leads_skip {phase : Phase} (hkey : phase.key? = none) :
    Leads token (.within level phase outer) (skip level outer token).1 := by
  unfold skip
  split
  · rename_i hseparator
    exact leads_separate hseparator (Level.settle_of_key?_eq_none hkey).symm
  · exact .lost hkey

theorem leads_child {phase : Phase} (hkey : phase.key? = none) :
    Leads token (.within level phase outer) (child level outer token).1 := by
  unfold child
  split
  · rename_i hshape
    cases henter : enter? (.element level :: outer) token with
    | some move => exact .element hkey hshape henter
    | none => exact leads_skip hkey
  · rename_i hshape
    split
    · rename_i hkind
      exact .name hkey hshape hkind
    · exact leads_skip hkey

theorem leads_abandon {phase : Phase} {key : Key} {colon : Option Nat}
    (hkey : phase.key? = some (key, colon)) :
    Leads token (.within level phase outer) (abandon level outer key colon token).1 := by
  unfold abandon
  split
  · rename_i hseparator
    exact leads_separate hseparator (Level.settle_of_key? hkey).symm
  · exact .stuck hkey

theorem leads_proceed (options : Options) (phase : Phase) :
    Leads token (.within level phase outer) (proceed options level phase outer token).1 := by
  unfold proceed
  cases phase with
  | first =>
    dsimp only
    split
    · rename_i hkind
      exact leads_separate (isSeparator_iff.2 (.inl hkind)) rfl
    split
    · rename_i hseparator
      exact leads_separate hseparator rfl
    · exact leads_child rfl
  | next =>
    dsimp only
    split
    · rename_i hseparator
      exact leads_separate hseparator rfl
    · exact leads_child rfl
  | comma =>
    dsimp only
    split
    · rename_i hcloser
      simp only [Bool.and_eq_true, decide_eq_true_eq] at hcloser
      exact leads_separate (isSeparator_iff.2 (.inr (.inl hcloser.1))) rfl
    · exact leads_child rfl
  | lost => exact leads_skip rfl
  | key key =>
    dsimp only
    split
    · rename_i hkind
      exact .colon hkind
    · exact leads_abandon rfl
  | colon key colon =>
    dsimp only
    cases henter : enter? (.member level key colon :: outer) token with
    | some move => exact .member henter
    | none => exact leads_abandon rfl
  | stuck key colon => exact leads_abandon rfl

/-- Every move is one of those listed. -/
theorem leads_step (options : Options) (state : State) (token : Token) :
    Leads token state (state.step options token).1 := by
  unfold State.step
  cases state with
  | start =>
    dsimp only
    split
    · exact .nothing
    · cases henter : enter? [] token with
      | some move => exact .value henter
      | none => exact .nothing
  | within level phase outer => exact leads_proceed options phase
  | root node => exact .root
  | «over» tree => exact .over

/-! ## Separators in any phase -/

section AnyPhase

variable (hseparator : isSeparator level.shape token = true)

include hseparator

theorem fst_skip_of_isSeparator :
    (skip level outer token).1 = (separate level outer token).1 := by
  rw [skip, if_pos hseparator, Move.after_fst]

/-- A separator where a child should start is skipped, and then it separates. -/
theorem fst_child_of_isSeparator :
    (child level outer token).1 = (separate level outer token).1 := by
  have hskip : (skip level outer token).1 = (separate level outer token).1 :=
    fst_skip_of_isSeparator hseparator
  unfold child
  split
  · rw [enter?_of_isSeparator hseparator]
    exact hskip
  · rw [if_neg (ne_string_of_isSeparator hseparator)]
    exact hskip

theorem fst_abandon_of_isSeparator {phase : Phase} {key : Key} {colon : Option Nat}
    (hkey : phase.key? = some (key, colon)) :
    (abandon level outer key colon token).1 =
      (separate (level.settle phase token) outer token).1 := by
  rw [abandon, if_pos hseparator, Level.settle_of_key? hkey]

/-- Whatever a container waits for, at a separator it goes on or ends, once what was
unfinished in it is finished. -/
theorem fst_proceed_of_isSeparator (options : Options) (phase : Phase) :
    (proceed options level phase outer token).1 =
      (separate (level.settle phase token) outer token).1 := by
  cases phase with
  | first =>
    show (if token.kind = .comma then _ else if isSeparator level.shape token then _ else _ :
      Move).1 = _
    rw [if_pos hseparator]
    split <;> rfl
  | next =>
    show (if isSeparator level.shape token then _ else _ : Move).1 = _
    rw [if_pos hseparator]
    rfl
  | comma =>
    show (if _ then _ else _ : Move).1 = _
    split
    · rfl
    · exact fst_child_of_isSeparator hseparator
  | lost => exact fst_skip_of_isSeparator hseparator
  | key key =>
    have hcolon : token.kind ≠ .colon := by
      rcases isSeparator_iff.1 hseparator with hkind | hkind | hkind
      · simp [hkind]
      · rw [hkind]
        cases level.shape <;> simp [Shape.closer]
      · simp [hkind]
    show (if token.kind = .colon then _ else _ : Move).1 = _
    rw [if_neg hcolon]
    exact fst_abandon_of_isSeparator hseparator rfl
  | colon key colon =>
    show ((enter? _ token).getD _).1 = _
    rw [enter?_of_isSeparator hseparator]
    exact fst_abandon_of_isSeparator hseparator rfl
  | stuck key colon => exact fst_abandon_of_isSeparator hseparator rfl

end AnyPhase

/-! ## The end of the text -/

section End

variable (options : Options) (hkind : token.kind = .finish) (level : Level) (outer : List Frame)

include hkind

/-- The end of the text ends every open container. -/
theorem isOver_separate : (separate level outer token).1.isOver = true := by
  simp [separate, hkind, State.isOver]

theorem isOver_proceed (phase : Phase) :
    (proceed options level phase outer token).1.isOver = true := by
  rw [fst_proceed_of_isSeparator (isSeparator_iff.2 (.inr (.inr hkind)))]
  exact isOver_separate hkind _ outer

/-- Nothing is read behind the end. -/
theorem isOver_advance (state : State) : (state.advance options token).1.isOver = true := by
  unfold State.advance
  split
  · assumption
  rw [if_pos (by rw [hkind]; rfl)]
  cases state with
  | start => simp [State.step, hkind, State.isOver]
  | within level phase outer => exact isOver_proceed options hkind level outer phase
  | root node => rfl
  | «over» tree => rfl

end End

/-! ## Invariants of a reading -/

section Invariants

/- A property of states at the offset that the reading has come to, which stays
when nothing but trivia follows and which every move at one of the given tokens
keeps. -/
variable (Holds : Nat → State → Prop) {given : List Token}
  (hmono : ∀ {state first second}, first ≤ second → Holds first state → Holds second state)
  (hstep : ∀ {state next reached token}, token ∈ given → reached ≤ token.start →
    Holds reached state → Leads token state next → Holds token.stop next)

include hmono hstep

theorem holds_advance (options : Options) {state : State} {token : Token}
    (htoken : token ∈ given) (hstate : Holds token.start state) :
    Holds token.stop (state.advance options token).1 := by
  have hle : token.start ≤ token.stop := Nat.le_add_right _ _
  unfold State.advance
  split
  · exact hmono hle hstate
  split
  · exact hstep htoken (Nat.le_refl _) hstate (leads_step options state token)
  · exact hmono hle hstate

theorem holds_run (options : Options) {state : State} {offset : Nat} {tokens : List Token}
    {text : List Char} (hcovers : Token.Covers offset tokens text) (hgiven : tokens ⊆ given)
    (hstate : Holds offset state) :
    Holds (offset + Text.width text) (state.run options tokens).1 := by
  induction hcovers generalizing state with
  | nil => exact hstate
  | @cons lexeme offset c cs tokens rest hform htail ih =>
    have hnext := holds_advance Holds hmono hstep options (hgiven List.mem_cons_self) hstate
    have hrest := ih (fun _ h => hgiven (List.mem_cons_of_mem _ h)) hnext
    rw [State.run_cons, Move.after_fst, Text.width_append, ← Nat.add_assoc]
    exact hrest

end Invariants

/-- A property of states that every move at a token of a text keeps holds at the
end of the text. -/
theorem holds_run_ofText (options : Options) (text : List Char) (Holds : Nat → State → Prop)
    (hmono : ∀ {state first second}, first ≤ second → Holds first state → Holds second state)
    (hstep : ∀ {state next reached token}, token ∈ Token.ofText text ++ [Token.endOf text] →
      reached ≤ token.start → Holds reached state → Leads token state next →
      Holds token.stop next)
    (hstart : Holds 0 .start) :
    Holds (Text.width text)
      (State.start.run options (Token.ofText text ++ [Token.endOf text])).1 := by
  have htokens := holds_run Holds hmono hstep options (Token.covers_ofText text)
    (fun _ h => List.mem_append_left _ h) hstart
  rw [Nat.zero_add] at htokens
  rw [State.run_append, Move.after_fst]
  have hend : Token.endOf text ∈ Token.ofText text ++ [Token.endOf text] := by simp
  exact holds_advance Holds hmono hstep options hend htokens

end TaskFile.Document
