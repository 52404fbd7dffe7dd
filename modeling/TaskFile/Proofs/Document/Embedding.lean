import TaskFile.Proofs.Document.Alignment
import TaskFile.Proofs.Document.Growth
import TaskFile.Proofs.Document.Decoding
import TaskFile.Proofs.Token.Insertion

/-!
# A document inside another one

The tokens of one document where another one asks for a value: they are read as they
are on their own, with the containers of the outer document around them
(`State.Inside`), and then the finished tree is delivered to these containers
(`reaches_deliver`).  When the text stands further back, so does the tree
(`reaches_shift`).
-/

namespace TaskFile

open Text

namespace Document

/-! ## Inside containers -/

/-- A state of a document of its own, and the same one inside the given containers. -/
inductive State.Inside (outer : List Frame) : State → State → Prop where
  | start {state} (hasks : State.Asks state outer) : Inside outer .start state
  | within {level phase inner} :
      Inside outer (.within level phase inner) (.within level phase (inner ++ outer))
  | root {node} : Inside outer (.root node) (deliver node outer)

variable {options : Options} {token : Token} {outer inner : List Frame} {node : Node}
  {state state' next : State} {tokens : List Token}

theorem inside_deliver (node : Node) (inner : List Frame) :
    State.Inside outer (deliver node inner) (deliver node (inner ++ outer)) := by
  cases inner with
  | nil => exact .root
  | cons frame inner => exact .within

/-- The first token of a value leads to the same, inside the containers. -/
theorem inside_enter? (outer : List Frame) (henter : enter? inner token = some (next, [])) :
    ∃ next', enter? (inner ++ outer) token = some (next', []) ∧ State.Inside outer next next' := by
  rcases enter?_eq_some henter with ⟨kind, hscalar, hnext⟩ | ⟨shape, hopener, hmove⟩
  · simp only at hnext hscalar
    rw [hnext]
    exact ⟨_, enter?_of_scalar? hscalar, inside_deliver _ _⟩
  · rw [(Prod.mk.inj hmove).1]
    exact ⟨_, enter?_opener hopener, .within⟩

/-- A move without a problem is made inside the containers as well. -/
theorem inside_quiet (hinside : State.Inside outer state state')
    (hquiet : Quiet options token state next) :
    ∃ next', Quiet options token state' next' ∧ State.Inside outer next next' := by
  cases hquiet with
  | enter hasks henter =>
    obtain ⟨next', henter', hnext⟩ := inside_enter? outer henter
    refine ⟨next', ?_, hnext⟩
    cases hinside with
    | start hasks' =>
      cases hasks
      exact .enter hasks' henter'
    | within =>
      cases hasks with
      | element hphase hshape => exact .enter (.element hphase hshape) henter'
      | member => exact .enter .member henter'
    | root => nomatch hasks
  | name hphase hshape hkind =>
    cases hinside
    exact ⟨_, .name hphase hshape hkind, .within⟩
  | colon hkind =>
    cases hinside
    exact ⟨_, .colon hkind, .within⟩
  | comma hkind =>
    cases hinside
    exact ⟨_, .comma hkind, .within⟩
  | close hphase hkind =>
    cases hinside
    exact ⟨_, .close hphase hkind, inside_deliver _ _⟩

theorem inside_reaches (hasks : State.Asks state outer)
    (hreaches : Reaches options .start tokens next) :
    ∃ next', Reaches options state tokens next' ∧ State.Inside outer next next' := by
  induction hreaches with
  | nil => exact ⟨state, .nil, .start hasks⟩
  | skip _ halone hkind ih =>
    obtain ⟨next', hreaches', hinside⟩ := ih
    exact ⟨next', .skip hreaches' halone hkind, hinside⟩
  | move _ halone hkind hquiet ih =>
    obtain ⟨last', hreaches', hinside⟩ := ih
    obtain ⟨next', hquiet', hnext⟩ := inside_quiet hinside hquiet
    exact ⟨next', .move hreaches' halone hkind hquiet', hnext⟩

/-- The tokens of a document lead to its tree wherever a value is asked for. -/
theorem reaches_deliver (hasks : State.Asks state outer)
    (hreaches : Reaches options .start tokens (.root node)) :
    Reaches options state tokens (deliver node outer) := by
  obtain ⟨next', hreaches', hinside⟩ := inside_reaches hasks hreaches
  cases hinside
  exact hreaches'

end Document

/-! ## Further back in a text -/

theorem Token.aligned_shift (distance : Nat) (token : Token) :
    Token.Aligned (.shift distance) token (token.shift distance) where
  kind := rfl
  string := rfl
  number := fun _ => rfl
  span := ⟨rfl, Nat.add_right_comm _ _ _⟩

namespace Document

/-- A text further back is read as at the front, and its tree stands further back. -/
theorem reaches_shift {text : List Char}
    (hreaches : Reaches options .start (Remainder.mk 0 text).tokens (.root node))
    (distance : Nat) :
    Reaches options .start (Remainder.mk distance text).tokens
      (.root (node.shift distance)) := by
  have hstart : State.IsSound .start := trivial
  have hrun := (reaches_iff_run hstart fun _ htoken => (isSound_of_mem_tokens htoken).1).1 hreaches
  have htokens : List.Forall₂ (fun token token' => Token.Aligned (.shift distance) token token' ∧
      token.fault = token'.fault) (Remainder.mk 0 text).tokens
      (Remainder.mk distance text).tokens := by
    rw [← Nat.zero_add distance, Remainder.tokens_shift, Nat.zero_add, List.forall₂_map_right_iff]
    exact List.forall₂_same.2 fun token _ => ⟨token.aligned_shift distance, rfl⟩
  have hmove := aligned_run options htokens (.start : State.Aligned (.shift distance) .start .start)
  rw [reaches_iff_run hstart fun _ htoken => (isSound_of_mem_tokens htoken).1]
  generalize State.start.run options (Remainder.mk distance text).tokens = move at hmove ⊢
  obtain ⟨next, problems⟩ := move
  rw [hrun] at hmove
  obtain ⟨hroot, hproblems⟩ := hmove
  dsimp only at hroot hproblems
  cases hroot with
  | root hnode =>
    obtain rfl := List.forall₂_nil_left_iff.1 hproblems
    rw [hnode.eq_shift]

/-! ## What is left of a text -/

theorem ne_finish_of_mem_tokens {remainder : Remainder} (hmem : token ∈ remainder.tokens) :
    token.kind ≠ .finish :=
  (isSound_of_mem_tokens hmem).1

/-- A document is read from the front of its text. -/
theorem ofText_eq_read (text : List Char) :
    ofText default text = ⟨(State.start.read 0 text).1.tree, (State.start.read 0 text).2⟩ := by
  rw [ofText, ofTokens_eq_run, State.read, Nat.zero_add]
  rfl

/-- Tokens without a problem are taken off the front. -/
theorem State.read_of_reaches {offset : Nat} {front rest : List Char} (hstate : state.IsSound)
    (hreaches : Reaches default state tokens next)
    (htokens : (Remainder.mk offset (front ++ rest)).tokens =
      tokens ++ (Remainder.mk (offset + width front) rest).tokens) :
    state.read offset (front ++ rest) = next.read (offset + width front) rest := by
  have hmem : tokens ⊆ (Remainder.mk offset (front ++ rest)).tokens :=
    htokens ▸ List.subset_append_left _ _
  rw [State.read, htokens, List.append_assoc,
    run_of_reaches hstate (fun _ htoken => ne_finish_of_mem_tokens (hmem htoken)) hreaches,
    width_append, ← Nat.add_assoc]
  rfl

/-- What is left without a problem leads to a finished tree. -/
theorem exists_root_of_read {offset : Nat} {text : List Char} (hstate : state.IsSound)
    (hread : (state.read offset text).2 = []) :
    ∃ root, Reaches default state (Remainder.mk offset text).tokens (.root root) ∧
      state.read offset text = (.over (some root), []) := by
  have hfinish : ∀ token ∈ (Remainder.mk offset text).tokens, token.kind ≠ .finish :=
    fun _ => ne_finish_of_mem_tokens
  rw [State.read] at hread ⊢
  rcases cases_of_run hstate hfinish hread with hreaches | ⟨root, hreaches⟩
  · rw [run_of_reaches hstate hfinish hreaches] at hread
    contradiction
  · rw [run_of_reaches hstate hfinish hreaches]
    exact ⟨root, hreaches, rfl⟩

/-- Whether what is left is read without a problem depends neither on the value that was
finished last nor on the offset. -/
theorem read_deliver_eq_nil (node' : Node) (distance : Nat) {offset : Nat} {text : List Char}
    (hread : ((deliver node outer).read offset text).2 = []) :
    ((deliver node' outer).read (offset + distance) text).2 = [] := by
  have hproblems (token : Token) :
      (token.shift distance).problems (default : Options).forbidComments = [] ↔
        token.problems (default : Options).forbidComments = [] := by
    rw [problems_token_eq_nil_iff, problems_token_eq_nil_iff]
    rfl
  rw [State.read, run_eq_nil_iff rfl rfl (fun _ => isSound_of_mem_tokens) (isSound_deliver _ _),
    completes_deliver] at hread ⊢
  rw [Remainder.tokens_shift, List.map_map, List.forall_mem_map]
  exact ⟨fun token htoken => (hproblems token).2 (hread.1 token htoken), hread.2⟩

end Document

end TaskFile
