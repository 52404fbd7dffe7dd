import TaskFile.Proofs.Document.Move
import TaskFile.Proofs.Token.Stream

/-!
# Documents without problems

A text is read without a problem exactly when its tokens are sound on their
own and their kinds make up one value of the grammar
(`problems_ofText_eq_nil_iff`).

`State.Completes` describes the tokens that a state still asks for: the rest of
the innermost container and of every container around it.  One move takes one
token off that description, or it meets a problem and the description allows no
such token (`agrees_step`).  A run over a whole document follows by induction
on the tokens.
-/

namespace TaskFile.Document

/-! ## What a state asks for -/

/-- What may follow in a container, from a phase on up to its closing token. -/
def Tail (trailingComma : Bool) (shape : Shape) : Phase → List Token.Kind → Prop
  | .first, kinds => AfterOpener trailingComma shape kinds
  | .next, kinds => AfterItem trailingComma shape kinds
  | .comma, kinds => AfterComma trailingComma shape kinds
  | .key _, kinds =>
    ∃ value others, kinds = .colon :: value ++ others ∧ Derives trailingComma .value value ∧
      AfterItem trailingComma shape others
  | .colon _ _, kinds =>
    ∃ value others, kinds = value ++ others ∧ Derives trailingComma .value value ∧
      AfterItem trailingComma shape others
  | .lost, _ | .stuck _ _, _ => False

/-- What may follow once a value is finished inside the given containers. -/
def Closes (trailingComma : Bool) : List Frame → List Token.Kind → Prop
  | [], kinds => kinds = []
  | frame :: outer, kinds =>
    ∃ tail rest, kinds = tail ++ frame.level.shape.closer :: rest ∧
      AfterItem trailingComma frame.level.shape tail ∧ Closes trailingComma outer rest

/-- The kinds of tokens that complete a document from a state on. -/
def State.Completes (options : Options) : State → List Token.Kind → Prop
  | .start, kinds =>
    Derives options.trailingComma .value kinds ∨ options.emptyDocument = true ∧ kinds = []
  | .within level phase outer, kinds =>
    ∃ tail rest, kinds = tail ++ level.shape.closer :: rest ∧
      Tail options.trailingComma level.shape phase tail ∧ Closes options.trailingComma outer rest
  | .root _, kinds => kinds = []
  | .over _, _ => False

/-- No token has been skipped, and more may follow. -/
def State.IsSound : State → Prop
  | .within _ .lost _ | .within _ (.stuck _ _) _ | .over _ => False
  | _ => True

variable {options : Options} {level : Level} {outer : List Frame} {token : Token}

/-- A finished value is followed by the rest of the containers around it. -/
theorem completes_deliver (node : Node) (outer : List Frame) (kinds : List Token.Kind) :
    State.Completes options (deliver node outer) kinds ↔
      Closes options.trailingComma outer kinds := by
  cases outer with
  | nil => rfl
  | cons frame outer => cases frame <;> rfl

theorem isSound_deliver (node : Node) (outer : List Frame) : (deliver node outer).IsSound := by
  cases outer <;> simp [deliver, State.IsSound]

/-! ## One move -/

/-- A move agrees with a description of the tokens to come: it meets no problem
and leaves the description of the others, or it meets one and no token of this
kind is described. -/
def Agrees (options : Options) (Described : List Token.Kind → Prop) (kind : Token.Kind)
    (move : Move) : Prop :=
  (move.2 = [] ∧ move.1.IsSound ∧
      ∀ rest, move.1.Completes options rest ↔ Described (kind :: rest)) ∨
    move.2 ≠ [] ∧ ∀ rest, ¬Described (kind :: rest)

/-- A token is sound when it is no number that has no value. -/
def IsSound (token : Token) : Prop :=
  token.kind = .number → (Numeral.ofChars token.text).value?.isSome = true

theorem exists_scalar?_of_isLiteral (hsound : IsSound token)
    (hliteral : token.kind.isLiteral = true) : ∃ kind, scalar? token = some (kind, []) := by
  unfold scalar?
  split
  · exact ⟨_, rfl⟩
  · rename_i hkind
    obtain ⟨value, hvalue⟩ := Option.isSome_iff_exists.1 (hsound hkind)
    exact ⟨.number value, by simp [hvalue]⟩
  · exact ⟨_, rfl⟩
  · exact ⟨_, rfl⟩
  · exact ⟨_, rfl⟩
  · simp_all [Token.Kind.isLiteral]

/-- A value is asked for, and then the rest of the given containers. -/
def Awaits (trailingComma : Bool) (outer : List Frame) (kinds : List Token.Kind) : Prop :=
  ∃ value rest, kinds = value ++ rest ∧ Derives trailingComma .value value ∧
    Closes trailingComma outer rest

/-- The first token of a value agrees with a value being asked for. -/
theorem agrees_enter? (hsound : IsSound token) {move : Move}
    (hmove : enter? outer token = some move) :
    Agrees options (Awaits options.trailingComma outer) token.kind move := by
  by_cases hliteral : token.kind.isLiteral = true
  · obtain ⟨kind, hscalar⟩ := exists_scalar?_of_isLiteral hsound hliteral
    rw [enter?_of_scalar? hscalar] at hmove
    obtain rfl := Option.some.inj hmove
    refine .inl ⟨rfl, isSound_deliver _ _, fun rest => ?_⟩
    rw [completes_deliver, Awaits, exists_value_cons_iff]
    constructor
    · exact fun hrest => .inl ⟨hliteral, hrest⟩
    · intro hkinds
      rcases hkinds with ⟨-, hrest⟩ | ⟨shape, -, -, hkind, -⟩
      · exact hrest
      · cases shape <;> simp [hkind, Shape.opener, Token.Kind.isLiteral] at hliteral
  · rcases enter?_eq_some hmove with ⟨kind, hscalar, -⟩ | ⟨shape, hkind, rfl⟩
    · rw [scalar?_eq_none (by simpa using hliteral)] at hscalar
      contradiction
    · refine .inl ⟨rfl, trivial, fun rest => ?_⟩
      rw [Awaits, exists_value_cons_iff, hkind]
      constructor
      · intro hkinds
        obtain ⟨inner, after, hrest, hinner, hafter⟩ := hkinds
        exact .inr ⟨shape, inner, after, rfl, hrest, hinner, hafter⟩
      · intro hkinds
        rcases hkinds with ⟨hkind', -⟩ | ⟨shape', inner, after, hshape, hrest, hinner, hafter⟩
        · exact absurd (hkind ▸ hkind') hliteral
        · obtain rfl := Shape.opener_inj.1 hshape
          exact ⟨inner, after, hrest, hinner, hafter⟩

/-- A token that starts no value is not asked for where a value is. -/
theorem not_awaits_of_enter?_eq_none (hsound : IsSound token) (hnone : enter? outer token = none)
    (rest : List Token.Kind) : ¬Awaits options.trailingComma outer (token.kind :: rest) := by
  rw [Awaits, exists_value_cons_iff]
  intro hkinds
  rcases hkinds with ⟨hliteral, -⟩ | ⟨shape, -, -, hkind, -⟩
  · obtain ⟨kind, hscalar⟩ := exists_scalar?_of_isLiteral hsound hliteral
    rw [enter?_of_scalar? hscalar] at hnone
    contradiction
  · rw [enter?_opener hkind] at hnone
    contradiction

/-! ## What each phase asks for -/

/-- Children are asked for, the closing token of the container, and then the
rest of the given containers. -/
def AwaitsItems (trailingComma : Bool) (level : Level) (outer : List Frame)
    (kinds : List Token.Kind) : Prop :=
  ∃ items rest, kinds = items ++ level.shape.closer :: rest ∧
    Derives trailingComma (.items level.shape) items ∧ Closes trailingComma outer rest

theorem completes_first_iff {kinds : List Token.Kind} :
    State.Completes options (.within level .first outer) kinds ↔
      (∃ rest, kinds = level.shape.closer :: rest ∧ Closes options.trailingComma outer rest) ∨
        AwaitsItems options.trailingComma level outer kinds := by
  constructor
  · intro hkinds
    obtain ⟨tail, rest, rfl, rfl | hitems, hrest⟩ := hkinds
    · exact .inl ⟨rest, rfl, hrest⟩
    · exact .inr ⟨tail, rest, rfl, hitems, hrest⟩
  · intro hkinds
    rcases hkinds with ⟨rest, rfl, hrest⟩ | ⟨items, rest, rfl, hitems, hrest⟩
    · exact ⟨[], rest, rfl, .inl rfl, hrest⟩
    · exact ⟨items, rest, rfl, .inr hitems, hrest⟩

theorem completes_comma_iff {kinds : List Token.Kind} :
    State.Completes options (.within level .comma outer) kinds ↔
      (options.trailingComma = true ∧
        ∃ rest, kinds = level.shape.closer :: rest ∧ Closes options.trailingComma outer rest) ∨
        AwaitsItems options.trailingComma level outer kinds := by
  constructor
  · intro hkinds
    obtain ⟨tail, rest, rfl, hitems | ⟨hallowed, rfl⟩, hrest⟩ := hkinds
    · exact .inr ⟨tail, rest, rfl, hitems, hrest⟩
    · exact .inl ⟨hallowed, rest, rfl, hrest⟩
  · intro hkinds
    rcases hkinds with ⟨hallowed, rest, rfl, hrest⟩ | ⟨items, rest, rfl, hitems, hrest⟩
    · exact ⟨[], rest, rfl, .inr ⟨hallowed, rfl⟩, hrest⟩
    · exact ⟨items, rest, rfl, .inl hitems, hrest⟩

theorem completes_next_iff {kinds : List Token.Kind} :
    State.Completes options (.within level .next outer) kinds ↔
      (∃ rest, kinds = level.shape.closer :: rest ∧ Closes options.trailingComma outer rest) ∨
        ∃ rest, kinds = .comma :: rest ∧
          State.Completes options (.within level .comma outer) rest := by
  constructor
  · intro hkinds
    obtain ⟨tail, rest, rfl, rfl | ⟨others, rfl, hothers⟩, hrest⟩ := hkinds
    · exact .inl ⟨rest, rfl, hrest⟩
    · exact .inr ⟨_, rfl, others, rest, rfl, hothers, hrest⟩
  · intro hkinds
    rcases hkinds with ⟨rest, rfl, hrest⟩ | ⟨_, rfl, others, rest, rfl, hothers, hrest⟩
    · exact ⟨[], rest, rfl, .inl rfl, hrest⟩
    · exact ⟨.comma :: others, rest, rfl, .inr ⟨others, rfl, hothers⟩, hrest⟩

theorem completes_colon_iff {key : Key} {colon : Nat} {kinds : List Token.Kind} :
    State.Completes options (.within level (.colon key colon) outer) kinds ↔
      Awaits options.trailingComma (.member level key colon :: outer) kinds := by
  constructor
  · intro hkinds
    obtain ⟨tail, rest, rfl, ⟨value, others, rfl, hvalue, hothers⟩, hrest⟩ := hkinds
    exact ⟨value, others ++ level.shape.closer :: rest, by simp, hvalue, others, rest, rfl,
      hothers, hrest⟩
  · intro hkinds
    obtain ⟨value, after, rfl, hvalue, others, rest, rfl, hothers, hrest⟩ := hkinds
    exact ⟨value ++ others, rest, by simp [Frame.level], ⟨value, others, rfl, hvalue, hothers⟩,
      hrest⟩

theorem completes_key_iff (key : Key) (colon : Nat) {kinds : List Token.Kind} :
    State.Completes options (.within level (.key key) outer) kinds ↔
      ∃ rest, kinds = .colon :: rest ∧
        State.Completes options (.within level (.colon key colon) outer) rest := by
  constructor
  · intro hkinds
    obtain ⟨tail, rest, rfl, ⟨value, others, rfl, hvalue, hothers⟩, hrest⟩ := hkinds
    exact ⟨_, rfl, value ++ others, rest, rfl, ⟨value, others, rfl, hvalue, hothers⟩, hrest⟩
  · intro hkinds
    obtain ⟨_, rfl, tail, rest, rfl, ⟨value, others, rfl, hvalue, hothers⟩, hrest⟩ := hkinds
    exact ⟨.colon :: value ++ others, rest, by simp, ⟨value, others, rfl, hvalue, hothers⟩, hrest⟩

/-- The children of an array begin with a value. -/
theorem awaitsItems_array_iff (hshape : level.shape = .array) {trailingComma : Bool}
    {kinds : List Token.Kind} :
    AwaitsItems trailingComma level outer kinds ↔
      Awaits trailingComma (.element level :: outer) kinds := by
  simp only [AwaitsItems, hshape, derives_items_iff, derives_element_iff]
  constructor
  · intro hkinds
    obtain ⟨_, rest, rfl, ⟨item, others, rfl, hitem, hothers⟩, hrest⟩ := hkinds
    refine ⟨item, others ++ Shape.array.closer :: rest, by simp, hitem, others, rest, ?_⟩
    simpa [Frame.level, hshape] using ⟨hothers, hrest⟩
  · intro hkinds
    obtain ⟨item, _, rfl, hitem, others, rest, rfl, hothers, hrest⟩ := hkinds
    simp only [Frame.level, hshape] at hothers ⊢
    exact ⟨item ++ others, rest, by simp, ⟨item, others, rfl, hitem, hothers⟩, hrest⟩

/-- The children of an object begin with a key. -/
theorem awaitsItems_object_iff (hshape : level.shape = .object) (key : Key)
    {kinds : List Token.Kind} :
    AwaitsItems options.trailingComma level outer kinds ↔
      ∃ rest, kinds = .string :: rest ∧
        State.Completes options (.within level (.key key) outer) rest := by
  simp only [AwaitsItems, State.Completes, Tail, hshape, derives_items_iff, derives_member_iff]
  constructor
  · intro hkinds
    obtain ⟨_, rest, rfl, ⟨_, others, rfl, ⟨value, rfl, hvalue⟩, hothers⟩, hrest⟩ := hkinds
    exact ⟨_, rfl, .colon :: value ++ others, rest, rfl, ⟨value, others, rfl, hvalue, hothers⟩,
      hrest⟩
  · intro hkinds
    obtain ⟨_, rfl, _, rest, rfl, ⟨value, others, rfl, hvalue, hothers⟩, hrest⟩ := hkinds
    exact ⟨.string :: .colon :: value ++ others, rest, by simp,
      ⟨_, others, rfl, ⟨value, rfl, hvalue⟩, hothers⟩, hrest⟩

/-! ## Moves inside a container -/

theorem agrees_congr {First Second : List Token.Kind → Prop} {kind : Token.Kind} {move : Move}
    (hsame : ∀ rest, First (kind :: rest) ↔ Second (kind :: rest))
    (hagrees : Agrees options First kind move) : Agrees options Second kind move := by
  rcases hagrees with ⟨hproblems, hsound, hrest⟩ | ⟨hproblems, hrest⟩
  · exact .inl ⟨hproblems, hsound, fun rest => (hrest rest).trans (hsame rest)⟩
  · exact .inr ⟨hproblems, fun rest => fun h => hrest rest ((hsame rest).2 h)⟩

theorem agrees_child (hsound : IsSound token) :
    Agrees options (AwaitsItems options.trailingComma level outer) token.kind
      (child level outer token) := by
  unfold child
  split
  · rename_i hshape
    cases henter : enter? (.element level :: outer) token with
    | some move =>
      exact agrees_congr (fun _ => (awaitsItems_array_iff hshape).symm)
        (agrees_enter? hsound henter)
    | none =>
      refine .inr ⟨by simp, fun rest => ?_⟩
      rw [awaitsItems_array_iff hshape]
      exact not_awaits_of_enter?_eq_none hsound henter rest
  · rename_i hshape
    split
    · rename_i hkind
      refine .inl ⟨rfl, trivial, fun rest => ?_⟩
      rw [awaitsItems_object_iff hshape ⟨token.span, token.string?.getD ""⟩, hkind]
      constructor
      · exact fun hrest => ⟨rest, rfl, hrest⟩
      · intro hkinds
        obtain ⟨rest', hrest', hcompletes⟩ := hkinds
        obtain rfl := (List.cons.inj hrest').2
        exact hcompletes
    · rename_i hkind
      refine .inr ⟨by simp, fun rest => ?_⟩
      rw [awaitsItems_object_iff hshape ⟨token.span, ""⟩]
      intro hkinds
      obtain ⟨rest', hrest', -⟩ := hkinds
      exact hkind (List.cons.inj hrest').1

/-- A child does not begin with a separator. -/
theorem child_ne_nil_of_isSeparator (hseparator : isSeparator level.shape token = true) :
    (child level outer token).2 ≠ [] := by
  unfold child
  split
  · simp [enter?_of_isSeparator hseparator]
  · simp [ne_string_of_isSeparator hseparator]

theorem not_awaitsItems_of_isSeparator (hsound : IsSound token)
    (hseparator : isSeparator level.shape token = true) (rest : List Token.Kind) :
    ¬AwaitsItems options.trailingComma level outer (token.kind :: rest) := by
  have hagrees : Agrees options (AwaitsItems options.trailingComma level outer) token.kind
      (child level outer token) := agrees_child hsound
  rcases hagrees with ⟨hproblems, -⟩ | ⟨-, hrest⟩
  · exact absurd hproblems (child_ne_nil_of_isSeparator hseparator)
  · exact hrest rest

theorem separate_finish_ne_nil (hkind : token.kind = .finish) :
    (separate level outer token).2 ≠ [] := by
  simp [separate, hkind]

/-- The closing token agrees with a description that allows it and is followed
by the rest of the containers around. -/
theorem agrees_closer {Described : List Token.Kind → Prop}
    (hkind : token.kind = level.shape.closer)
    (hdescribed : ∀ rest, Closes options.trailingComma outer rest ↔
      Described (level.shape.closer :: rest)) :
    Agrees options Described token.kind (separate level outer token) := by
  rw [separate_closer hkind, hkind]
  exact .inl ⟨rfl, isSound_deliver _ _, fun rest =>
    (completes_deliver _ _ _).trans (hdescribed rest)⟩

theorem agrees_first (hsound : IsSound token) :
    Agrees options (State.Completes options (.within level .first outer)) token.kind
      (proceed options level .first outer token) := by
  simp only [proceed]
  split
  · rename_i hkind
    have hseparator : isSeparator level.shape token = true := isSeparator_iff.2 (.inl hkind)
    refine .inr ⟨by simp, fun rest => ?_⟩
    rw [completes_first_iff]
    intro hkinds
    rcases hkinds with ⟨rest', hrest', -⟩ | hitems
    · exact closer_ne_comma _ ((List.cons.inj hrest').1.symm.trans hkind)
    · exact not_awaitsItems_of_isSeparator hsound hseparator rest hitems
  split
  · rename_i hcomma hseparator
    rcases isSeparator_iff.1 hseparator with hkind | hkind | hkind
    · contradiction
    · refine agrees_closer hkind fun rest => ?_
      rw [completes_first_iff, ← hkind]
      constructor
      · exact fun hrest => .inl ⟨rest, rfl, hrest⟩
      · intro hkinds
        rcases hkinds with ⟨rest', hrest', hcloses⟩ | hitems
        · obtain rfl := (List.cons.inj hrest').2
          exact hcloses
        · exact absurd hitems (not_awaitsItems_of_isSeparator hsound hseparator rest)
    · refine .inr ⟨separate_finish_ne_nil hkind, fun rest => ?_⟩
      rw [completes_first_iff]
      intro hkinds
      rcases hkinds with ⟨rest', hrest', -⟩ | hitems
      · exact closer_ne_finish _ ((List.cons.inj hrest').1.symm.trans hkind)
      · exact not_awaitsItems_of_isSeparator hsound hseparator rest hitems
  · rename_i hcomma hseparator
    refine agrees_congr (fun rest => ?_) (agrees_child hsound)
    rw [completes_first_iff]
    constructor
    · exact .inr
    · intro hkinds
      rcases hkinds with ⟨rest', hrest', -⟩ | hitems
      · exact absurd (isSeparator_of_closer (List.cons.inj hrest').1) hseparator
      · exact hitems

theorem agrees_next :
    Agrees options (State.Completes options (.within level .next outer)) token.kind
      (proceed options level .next outer token) := by
  simp only [proceed]
  split
  · rename_i hseparator
    rcases isSeparator_iff.1 hseparator with hkind | hkind | hkind
    · rw [separate_comma hkind, hkind]
      refine .inl ⟨rfl, trivial, fun rest => ?_⟩
      rw [completes_next_iff]
      constructor
      · exact fun hrest => .inr ⟨rest, rfl, hrest⟩
      · intro hkinds
        rcases hkinds with ⟨rest', hrest', -⟩ | ⟨rest', hrest', hcompletes⟩
        · exact absurd (List.cons.inj hrest').1.symm (closer_ne_comma _)
        · obtain rfl := (List.cons.inj hrest').2
          exact hcompletes
    · refine agrees_closer hkind fun rest => ?_
      rw [completes_next_iff]
      constructor
      · exact fun hrest => .inl ⟨rest, rfl, hrest⟩
      · intro hkinds
        rcases hkinds with ⟨rest', hrest', hcloses⟩ | ⟨rest', hrest', -⟩
        · obtain rfl := (List.cons.inj hrest').2
          exact hcloses
        · exact absurd (List.cons.inj hrest').1 (closer_ne_comma _)
    · refine .inr ⟨separate_finish_ne_nil hkind, fun rest => ?_⟩
      rw [completes_next_iff, hkind]
      intro hkinds
      rcases hkinds with ⟨rest', hrest', -⟩ | ⟨rest', hrest', -⟩
      · exact closer_ne_finish _ (List.cons.inj hrest').1.symm
      · simp at hrest'
  · rename_i hseparator
    refine .inr ⟨by simp, fun rest => ?_⟩
    rw [completes_next_iff]
    intro hkinds
    rcases hkinds with ⟨rest', hrest', -⟩ | ⟨rest', hrest', -⟩
    · exact hseparator (isSeparator_of_closer (List.cons.inj hrest').1)
    · exact hseparator (isSeparator_iff.2 (.inl (List.cons.inj hrest').1))

theorem agrees_comma (hsound : IsSound token) :
    Agrees options (State.Completes options (.within level .comma outer)) token.kind
      (proceed options level .comma outer token) := by
  simp only [proceed]
  split
  · rename_i hcloser
    simp only [Bool.and_eq_true, decide_eq_true_eq] at hcloser
    obtain ⟨hkind, hallowed⟩ := hcloser
    refine agrees_closer hkind fun rest => ?_
    rw [completes_comma_iff, ← hkind]
    constructor
    · exact fun hrest => .inl ⟨hallowed, rest, rfl, hrest⟩
    · intro hkinds
      rcases hkinds with ⟨-, rest', hrest', hcloses⟩ | hitems
      · obtain rfl := (List.cons.inj hrest').2
        exact hcloses
      · exact absurd hitems
          (not_awaitsItems_of_isSeparator hsound (isSeparator_of_closer hkind) rest)
  · rename_i hcloser
    refine agrees_congr (fun rest => ?_) (agrees_child hsound)
    rw [completes_comma_iff]
    constructor
    · exact .inr
    · intro hkinds
      rcases hkinds with ⟨hallowed, rest', hrest', -⟩ | hitems
      · exact absurd (by simp [(List.cons.inj hrest').1, hallowed]) hcloser
      · exact hitems

theorem agrees_key {key : Key} :
    Agrees options (State.Completes options (.within level (.key key) outer)) token.kind
      (proceed options level (.key key) outer token) := by
  simp only [proceed]
  split
  · rename_i hkind
    refine .inl ⟨rfl, trivial, fun rest => ?_⟩
    rw [completes_key_iff key token.start, hkind]
    constructor
    · exact fun hrest => ⟨rest, rfl, hrest⟩
    · intro hkinds
      obtain ⟨rest', hrest', hcompletes⟩ := hkinds
      obtain rfl := (List.cons.inj hrest').2
      exact hcompletes
  · rename_i hkind
    refine .inr ⟨by simp, fun rest => ?_⟩
    rw [completes_key_iff key token.start]
    intro hkinds
    obtain ⟨rest', hrest', -⟩ := hkinds
    exact hkind (List.cons.inj hrest').1

theorem agrees_colon (hsound : IsSound token) {key : Key} {colon : Nat} :
    Agrees options (State.Completes options (.within level (.colon key colon) outer)) token.kind
      (proceed options level (.colon key colon) outer token) := by
  simp only [proceed]
  cases henter : enter? (.member level key colon :: outer) token with
  | some move =>
    exact agrees_congr (fun _ => completes_colon_iff.symm) (agrees_enter? hsound henter)
  | none =>
    refine .inr ⟨by simp, fun rest => ?_⟩
    rw [completes_colon_iff]
    exact not_awaits_of_enter?_eq_none hsound henter rest

/-! ## Moves of a document -/

theorem completes_start_cons_iff {kind : Token.Kind} {rest : List Token.Kind} :
    State.Completes options .start (kind :: rest) ↔
      Awaits options.trailingComma [] (kind :: rest) := by
  constructor
  · intro hkinds
    rcases hkinds with hvalue | ⟨-, hrest⟩
    · exact ⟨kind :: rest, [], by simp, hvalue, rfl⟩
    · contradiction
  · intro hkinds
    obtain ⟨value, after, hsplit, hvalue, rfl⟩ := hkinds
    rw [hsplit, List.append_nil]
    exact .inl hvalue

/-- Every move on a sound token before the end agrees with what its state asks
for. -/
theorem agrees_step {state : State} (hstate : state.IsSound) (hsound : IsSound token)
    (hfinish : token.kind ≠ .finish) :
    Agrees options (state.Completes options) token.kind (state.step options token) := by
  unfold State.step
  cases state with
  | start =>
    simp only [hfinish, if_false]
    cases henter : enter? [] token with
    | some move =>
      exact agrees_congr (fun _ => completes_start_cons_iff.symm) (agrees_enter? hsound henter)
    | none =>
      refine .inr ⟨by simp, fun rest => ?_⟩
      rw [completes_start_cons_iff]
      exact not_awaits_of_enter?_eq_none hsound henter rest
  | within level phase outer =>
    cases phase with
    | first => exact agrees_first hsound
    | next => exact agrees_next
    | comma => exact agrees_comma hsound
    | key key => exact agrees_key
    | colon key colon => exact agrees_colon hsound
    | lost => exact absurd hstate id
    | stuck key colon => exact absurd hstate id
  | root node => exact .inr ⟨by simp [hfinish], fun rest => by simp [State.Completes]⟩
  | «over» tree => exact absurd hstate id

/-- Inside a container the end of the document is a problem. -/
theorem proceed_finish_ne_nil {phase : Phase} (hstate : (State.within level phase outer).IsSound)
    (hkind : token.kind = .finish) : (proceed options level phase outer token).2 ≠ [] := by
  have hseparator : isSeparator level.shape token = true := isSeparator_iff.2 (.inr (.inr hkind))
  cases phase with
  | first => simpa [proceed, hkind, hseparator] using separate_finish_ne_nil hkind
  | next => simpa [proceed, hseparator] using separate_finish_ne_nil hkind
  | comma =>
    have hcloser : token.kind ≠ level.shape.closer := hkind ▸ (closer_ne_finish _).symm
    simpa [proceed, hcloser] using child_ne_nil_of_isSeparator hseparator
  | key key => simp [proceed, hkind]
  | colon key colon =>
    simp [proceed, enter?_of_isSeparator hseparator]
  | lost => exact absurd hstate id
  | stuck key colon => exact absurd hstate id

/-- The end is no problem exactly when the state asks for nothing more. -/
theorem step_finish_eq_nil_iff (options : Options) {state : State} (hstate : state.IsSound)
    (hkind : token.kind = .finish) :
    (state.step options token).2 = [] ↔ state.Completes options [] := by
  cases state with
  | start =>
    have hvalue : ¬Derives options.trailingComma .value [] := by
      intro hvalue
      obtain ⟨kind, others, hcons, -⟩ := hvalue.exists_cons
      contradiction
    simp [State.step, State.Completes, hkind, hvalue]
  | within level phase outer =>
    have hproceed : (proceed options level phase outer token).2 ≠ [] :=
      proceed_finish_ne_nil hstate hkind
    simp [State.step, State.Completes, hproceed]
  | root node => simp [State.step, State.Completes, hkind]
  | «over» tree => exact absurd hstate id

/-! ## Whole documents -/

theorem fault_eq_none_of_problems {forbidComments : Bool}
    (halone : token.problems forbidComments = []) : token.fault = none :=
  ((problems_token_eq_nil_iff forbidComments token).1 halone).1

theorem isOver_eq_false {state : State} (hstate : state.IsSound) : state.isOver = false := by
  cases state with
  | «over» tree => exact absurd hstate id
  | _ => rfl

/-- A run to the end meets no problem exactly when no token is a problem on its
own and the significant ones complete the state. -/
theorem run_eq_nil_iff {tokens : List Token} {finish : Token} {state : State}
    (hkind : finish.kind = .finish) (hfinish : finish.problems options.forbidComments = [])
    (htokens : ∀ token ∈ tokens, token.kind ≠ .finish ∧ (token.fault = none → IsSound token))
    (hstate : state.IsSound) :
    (state.run options (tokens ++ [finish])).2 = [] ↔
      (∀ token ∈ tokens, token.problems options.forbidComments = []) ∧
        state.Completes options ((tokens.map (·.kind)).filter Token.Kind.isSignificant) := by
  induction tokens generalizing state with
  | nil =>
    have hstep := step_finish_eq_nil_iff options hstate hkind
    have hsignificant : finish.kind.isSignificant = true := by
      rw [hkind]
      rfl
    simp [State.run_cons, State.advance_eq_step options (isOver_eq_false hstate) hsignificant,
      hfinish, hstep]
  | cons token tokens ih =>
    obtain ⟨⟨hfirst, hsound⟩, hothers⟩ := List.forall_mem_cons.1 htokens
    rw [List.cons_append, State.run_cons, Move.after_snd, List.append_eq_nil_iff,
      List.forall_mem_cons]
    by_cases hsignificant : token.kind.isSignificant = true
    · rw [State.advance_eq_step options (isOver_eq_false hstate) hsignificant, Move.after_snd,
        Move.after_fst, List.append_eq_nil_iff, List.map_cons,
        List.filter_cons_of_pos hsignificant, and_assoc, and_assoc]
      refine and_congr_right fun halone => ?_
      rcases agrees_step hstate (hsound (fault_eq_none_of_problems halone)) hfirst with
        ⟨hproblems, hnext, hrest⟩ | ⟨hproblems, hrest⟩
      · rw [ih hothers hnext, hrest]
        exact and_iff_right hproblems
      · exact ⟨fun h => absurd h.1 hproblems, fun h => absurd h.2 (hrest _)⟩
    · rw [State.advance_eq_self options (isOver_eq_false hstate)
          (Bool.eq_false_iff.2 hsignificant), ih hothers hstate, List.map_cons,
        List.filter_cons_of_neg hsignificant, and_assoc]

/-- The kinds of the tokens of a text, without white space and comments. -/
def kindsOf (text : List Char) : List Token.Kind :=
  ((Token.ofText text).map (·.kind)).filter (!·.isTrivia)

/-- Every token of a text comes before the end, and a number among them names a
number unless it has a fault. -/
theorem isSound_of_mem_tokens {remainder : Remainder} {token : Token}
    (htoken : token ∈ remainder.tokens) :
    token.kind ≠ .finish ∧ (token.fault = none → IsSound token) := by
  obtain ⟨c, cs, hform⟩ := (Token.covers_tokens remainder).exists_form htoken
  exact ⟨Lexeme.kind_ne_finish_of_form hform, fun hfault hkind =>
    Lexeme.value?_isSome_of_form hform hkind hfault⟩

/-- Without stray tokens the significant kinds are all but the trivia. -/
theorem filter_isSignificant {tokens : List Token}
    (hstray : ∀ token ∈ tokens, token.kind ≠ .stray) :
    (tokens.map (·.kind)).filter Token.Kind.isSignificant =
      (tokens.map (·.kind)).filter (!·.isTrivia) := by
  apply List.filter_congr
  intro kind hkind
  obtain ⟨token, htoken, rfl⟩ := List.mem_map.1 hkind
  have hne := hstray token htoken
  cases h : token.kind <;> simp_all [Token.Kind.isSignificant, Token.Kind.isTrivia]

/-- A text is read without a problem exactly when no token has a fault or is
stray, no comment is forbidden, and what is left without white space and
comments is one value, or nothing where that is allowed. -/
theorem problems_ofText_eq_nil_iff (options : Options) (text : List Char) :
    (ofText options text).problems = [] ↔
      (∀ token ∈ Token.ofText text, token.fault = none ∧ token.kind ≠ .stray) ∧
        (options.forbidComments = true →
          ∀ token ∈ Token.ofText text, token.kind.isComment = false) ∧
        (Derives options.trailingComma .value (kindsOf text) ∨
          options.emptyDocument = true ∧ kindsOf text = []) := by
  have hrun : (State.start.run options (Token.ofText text ++ [Token.endOf text])).2 = [] ↔ _ :=
    run_eq_nil_iff rfl rfl (fun _ htoken => isSound_of_mem_tokens htoken) trivial
  rw [ofText, ofTokens_eq_run]
  refine hrun.trans ?_
  simp only [problems_token_eq_nil_iff]
  constructor
  · intro h
    have hstray : ∀ token ∈ Token.ofText text, token.kind ≠ .stray :=
      fun token htoken => (h.1 token htoken).2.1
    refine ⟨fun token htoken => ⟨(h.1 token htoken).1, hstray token htoken⟩,
      fun hforbid token htoken => (h.1 token htoken).2.2 hforbid, ?_⟩
    rw [kindsOf, ← filter_isSignificant hstray]
    exact h.2
  · intro h
    have hstray : ∀ token ∈ Token.ofText text, token.kind ≠ .stray :=
      fun token htoken => (h.1 token htoken).2
    refine ⟨fun token htoken => ⟨(h.1 token htoken).1, hstray token htoken,
      fun hforbid => h.2.1 hforbid token htoken⟩, ?_⟩
    rw [filter_isSignificant hstray]
    exact h.2.2

end TaskFile.Document
