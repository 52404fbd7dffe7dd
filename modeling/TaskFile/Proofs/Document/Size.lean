import TaskFile.Proofs.Document.Move
import TaskFile.Proofs.Document.Report
import TaskFile.Proofs.Document.Schema
import TaskFile.Proofs.Token.Line
import TaskFile.Proofs.Token.Literal
import TaskFile.Proofs.Tree.Arena
import Mathlib.Algebra.GroupWithZero.Nat

/-!
# How many nodes a text has

Nodes are numbered while a text is read, and numbers and offsets are stored in 32 bits.  A
text of fewer than 2^32 bytes needs no more (`isNarrow_ofText`).

`State.numbered` is how many numbers a state has given out.  A move gives out at most the
`Token.Kind.numbers` of its token (`numbered_leads`), so a run gives out at most the sum of
them.  Token by token this sum is not bounded by the bytes that were read: a key takes two
numbers, and the token of a key may be a single quote.  But such a quote ends its line, and
the line break behind it takes no number, so that all tokens of a text take at most one
number more than there are bytes (`numbers_tokens_le`).
-/

namespace TaskFile

open Text

/-- A number that 32 bits keep. -/
def IsWord (number : Nat) : Prop :=
  number < UInt32.size ∧ (UInt32.ofNat number).toNat = number

theorem isWord_of_lt {number : Nat} (hlt : number < UInt32.size) : IsWord number :=
  ⟨hlt, UInt32.toNat_ofNat_of_lt' hlt⟩

theorem IsWord.of_le {number bound : Nat} (hbound : IsWord bound) (hle : number ≤ bound) :
    IsWord number :=
  isWord_of_lt (Nat.lt_of_le_of_lt hle hbound.1)

/-! ## Sizes -/

theorem Node.size_eq (node : Node) : node.size = 1 + node.children.size := rfl

@[simp] theorem Forest.size_push (node : Node) (forest : Forest) :
    (forest.push node).size = node.size + forest.size := rfl

theorem Forest.size_reverseOnto (forest rest : Forest) :
    (forest.reverseOnto rest).size = forest.size + rest.size := by
  induction forest generalizing rest with
  | nil => simp [reverseOnto, size]
  | cons kind span children siblings _ ih =>
    rw [reverseOnto, ih]
    simp only [size]
    omega

@[simp] theorem Forest.size_reverse (forest : Forest) : forest.reverse.size = forest.size :=
  forest.size_reverseOnto .nil

namespace Document

/-- The open container and its finished children. -/
def Level.size (level : Level) : Nat := 1 + level.children.size

/-- The property that is not finished, with its key. -/
def Phase.size (phase : Phase) : Nat := if phase.key?.isSome then 2 else 0

def Frame.size : Frame → Nat
  | .element level => level.size
  | .member level _ _ => level.size + 2

/-- The nodes of a state, finished or not. -/
def State.size : State → Nat
  | .start => 0
  | .within level phase outer => level.size + phase.size + (outer.map Frame.size).sum
  | .root node => node.size
  | .over tree => (tree.map Node.size).getD 0

/-- The value of a property, which has a number before it is known whether there is one. -/
def Phase.reserved : Phase → Nat
  | .colon _ _ => 1
  | _ => 0

/-- The numbers that a state has given out: one for each of its nodes, and one for a value
that is to come next. -/
def State.numbered : State → Nat
  | .within level phase outer => (State.within level phase outer).size + phase.reserved
  | state => state.size

theorem State.size_within (level : Level) (phase : Phase) (outer : List Frame) :
    (State.within level phase outer).size =
      level.size + phase.size + (outer.map Frame.size).sum := rfl

theorem State.numbered_within (level : Level) (phase : Phase) (outer : List Frame) :
    (State.within level phase outer).numbered =
      level.size + phase.size + (outer.map Frame.size).sum + phase.reserved := rfl

theorem State.size_le_numbered (state : State) : state.size ≤ state.numbered := by
  cases state with
  | within level phase outer => exact Nat.le_add_right _ _
  | start | root | «over» => exact Nat.le_refl _

theorem Phase.size_of_key? {phase : Phase} {unfinished : Key × Option Nat}
    (hkey : phase.key? = some unfinished) : phase.size = 2 := by
  simp [size, hkey]

theorem Phase.size_of_key?_eq_none {phase : Phase} (hkey : phase.key? = none) :
    phase.size = 0 := by
  simp [size, hkey]

end Document

/-- The numbers that are given out at most at a token of a kind.  A string may be a key, which
makes a property as well. -/
def Token.Kind.numbers : Kind → Nat
  | .string => 2
  | .braceOpen | .bracketOpen | .number | .yes | .no | .null | .colon => 1
  | _ => 0

namespace Document

/-! ## One move -/

theorem Key.size_property (key : Key) (colon : Option Nat) (value : Option Node) (stop : Nat) :
    (key.property colon value stop).size = 2 + (value.map Node.size).getD 0 := by
  cases value with
  | none => rfl
  | some value =>
    simp only [Key.property, Node.size, Node.toForest, Forest.size, Forest.push, Option.map_some,
      Option.getD_some]
    omega

@[simp] theorem Level.size_push (level : Level) (node : Node) :
    (level.push node).size = level.size + node.size := by
  simp only [size, push, Forest.size_push]
  omega

@[simp] theorem Level.size_close (level : Level) (stop : Nat) :
    (level.close stop).size = level.size := by
  rw [Node.size_eq, close, Forest.size_reverse, size]

/-- An unfinished property keeps its nodes when it is finished. -/
@[simp] theorem Level.size_settle (level : Level) (phase : Phase) (token : Token) :
    (level.settle phase token).size = level.size + phase.size := by
  unfold settle Phase.size
  cases phase.key? with
  | none => rfl
  | some unfinished => simp [Key.size_property]

@[simp] theorem Frame.size_put (frame : Frame) (node : Node) :
    (frame.put node).size = frame.size + node.size := by
  cases frame with
  | element level => simp [put, size]
  | member level key colon =>
    simp only [put, size, Level.size_push, Key.size_property, Option.map_some, Option.getD_some]
    omega

@[simp] theorem size_deliver (node : Node) (outer : List Frame) :
    (deliver node outer).size = node.size + (outer.map Frame.size).sum := by
  cases outer with
  | nil => rfl
  | cons frame outer =>
    simp only [deliver, State.size, Frame.size_put, Phase.size, Phase.key?, Option.isSome_none,
      List.map_cons, List.sum_cons]
    simp
    omega

theorem numbered_deliver (node : Node) (outer : List Frame) :
    (deliver node outer).numbered = (deliver node outer).size := by
  cases outer <;> rfl

theorem size_unwind (finish : Token) (node : Node) (outer : List Frame) :
    (unwind finish node outer).1.size = node.size + (outer.map Frame.size).sum := by
  induction outer generalizing node with
  | nil => rfl
  | cons frame outer ih =>
    simp only [unwind, ih, Level.size_close, Frame.size_put, List.map_cons, List.sum_cons]
    omega

variable {token : Token}

/-- The first token of a value adds one node. -/
theorem numbered_enter? {outer : List Frame} {move : Move}
    (hmove : enter? outer token = some move) :
    move.1.size = 1 + (outer.map Frame.size).sum ∧ move.1.numbered = move.1.size ∧
      1 ≤ token.kind.numbers := by
  rcases enter?_eq_some hmove with ⟨kind, hscalar, hnext⟩ | ⟨shape, hkind, rfl⟩
  · have hliteral := isLiteral_of_scalar? hscalar
    rw [hnext, numbered_deliver, size_deliver]
    refine ⟨rfl, rfl, ?_⟩
    cases hkind : token.kind <;> simp_all [Token.Kind.isLiteral, Token.Kind.numbers]
  · refine ⟨by simp [State.size, Level.size, Phase.size, Phase.key?, Forest.size], rfl, ?_⟩
    rw [hkind]
    cases shape <;> exact Nat.le_refl 1

/-- A move drops no node and gives out no more numbers than its token has. -/
theorem numbered_leads {state next : State} (hleads : Leads token state next) :
    state.size ≤ next.size ∧ next.numbered ≤ state.numbered + token.kind.numbers := by
  cases hleads with
  | nothing => exact ⟨Nat.le_refl _, Nat.zero_le _⟩
  | value henter =>
    obtain ⟨hsize, hnumbered, hle⟩ := numbered_enter? henter
    rw [hnumbered, hsize]
    exact ⟨Nat.zero_le _, Nat.le_trans hle (Nat.le_add_left _ _)⟩
  | @comma level phase outer hkind =>
    have hcomma : Phase.size .comma = 0 := rfl
    have hreserved : Phase.reserved .comma = 0 := rfl
    rw [State.size_within, State.size_within, State.numbered_within, State.numbered_within,
      Level.size_settle]
    omega
  | @close level phase outer hkind =>
    rw [numbered_deliver, size_deliver, Level.size_close, Level.size_settle, State.size_within,
      State.numbered_within]
    omega
  | @finish level phase outer hkind =>
    have hsize (node : Node) : (State.over (some node)).size = node.size := rfl
    have hnumbered (node : Node) : (State.over (some node)).numbered = node.size := rfl
    rw [hnumbered, hsize, size_unwind, Level.size_close, Level.size_settle, State.size_within,
      State.numbered_within]
    omega
  | @element level phase outer move hkey hshape henter =>
    obtain ⟨hsize, hnumbered, hle⟩ := numbered_enter? henter
    rw [hnumbered, hsize, State.size_within, State.numbered_within,
      Phase.size_of_key?_eq_none hkey, List.map_cons, List.sum_cons]
    simp only [Frame.size]
    omega
  | @name level phase outer hkey hshape hkind =>
    have hname (key : Key) : Phase.size (.key key) = 2 := rfl
    have hreserved (key : Key) : Phase.reserved (.key key) = 0 := rfl
    have hstring : token.kind.numbers = 2 := by rw [hkind]; rfl
    rw [State.size_within, State.size_within, State.numbered_within, State.numbered_within, hname,
      hreserved, Phase.size_of_key?_eq_none hkey]
    omega
  | colon hkind =>
    have hcolon : token.kind.numbers = 1 := by rw [hkind]; rfl
    rw [hcolon]
    exact ⟨Nat.le_refl _, Nat.le_refl _⟩
  | @member level key colon outer move henter =>
    obtain ⟨hsize, hnumbered, hle⟩ := numbered_enter? henter
    have hcolon : Phase.size (.colon key colon) = 2 := rfl
    rw [hnumbered, hsize, State.size_within, State.numbered_within, hcolon, List.map_cons,
      List.sum_cons]
    simp only [Frame.size]
    omega
  | @lost level phase outer hkey =>
    have hlost : Phase.size .lost = 0 := rfl
    have hreserved : Phase.reserved .lost = 0 := rfl
    rw [State.size_within, State.size_within, State.numbered_within, State.numbered_within,
      Phase.size_of_key?_eq_none hkey]
    omega
  | @stuck level phase key colon outer hkey =>
    have hstuck : Phase.size (.stuck key colon) = 2 := rfl
    have hreserved : Phase.reserved (.stuck key colon) = 0 := rfl
    rw [State.size_within, State.size_within, State.numbered_within, State.numbered_within,
      Phase.size_of_key? hkey]
    omega
  | root => exact ⟨Nat.le_refl _, Nat.le_add_right _ _⟩
  | «over» => exact ⟨Nat.le_refl _, Nat.le_add_right _ _⟩

/-! ## Runs -/

theorem numbered_advance (options : Options) (state : State) (token : Token) :
    state.size ≤ (state.advance options token).1.size ∧
      (state.advance options token).1.numbered ≤ state.numbered + token.kind.numbers := by
  unfold State.advance
  split
  · exact ⟨Nat.le_refl _, Nat.le_add_right _ _⟩
  split
  · exact numbered_leads (leads_step options state token)
  · exact ⟨Nat.le_refl _, Nat.le_add_right _ _⟩

theorem numbered_run (options : Options) (state : State) (tokens : List Token) :
    state.size ≤ (state.run options tokens).1.size ∧
      (state.run options tokens).1.numbered ≤
        state.numbered + (tokens.map (·.kind.numbers)).sum := by
  induction tokens generalizing state with
  | nil => exact ⟨Nat.le_refl _, Nat.le_refl _⟩
  | cons token tokens ih =>
    have hhere := numbered_advance options state token
    have hrest := ih (state.advance options token).1
    rw [State.run_cons, Move.after_fst, List.map_cons, List.sum_cons]
    omega

end Document

/-! ## Numbers and bytes -/

/-- A string that is no more than its opening quote ends its line. -/
theorem Lexeme.endsLine_of_stringTail {cs : List Char} (hcs : (stringTail cs).1 = []) :
    EndsLine cs := by
  fun_cases stringTail cs with
  | case1 => exact .nil
  | case6 c cs hquote hend hescape hbreak => exact .of_isLineBreak hbreak cs
  | _ => simp_all [stringTail]

/-- A lexeme takes no more numbers than it has bytes, unless it is a quote at the end of a
line. -/
theorem Lexeme.numbers_first (c : Char) (cs : List Char) :
    (first c cs).kind.numbers ≤ width (first c cs).text ∨
      (first c cs).kind = .string ∧ (first c cs).text = ['"'] ∧ c = '"' ∧ EndsLine cs := by
  have hpos := width_pos (text_first_ne_nil c cs)
  have hform := form_first c cs
  generalize first c cs = lexeme at hform hpos
  cases hform with
  | string cs =>
    cases htail : (stringTail cs).1 with
    | nil => exact .inr ⟨rfl, rfl, rfl, endsLine_of_stringTail htail⟩
    | cons d tail =>
      have hquote : width ('"' :: d :: tail) = 1 + width (d :: tail) := rfl
      have htailPos : 0 < width (d :: tail) := width_pos (by simp)
      refine .inl ?_
      rw [hquote]
      exact Nat.add_le_add_left htailPos 1
  | punctuation hc =>
    refine .inl (Nat.le_trans ?_ hpos)
    have hmem := mem_of_punctuation? hc
    simp only [List.mem_cons, List.not_mem_nil, or_false] at hmem
    rcases hmem with rfl | rfl | rfl | rfl | rfl | rfl <;> simp [Token.Kind.numbers]
  | word _ cs =>
    refine .inl (Nat.le_trans ?_ hpos)
    rcases wordKind_cases (c :: cs.takeWhile isWordPart) with h | h | h | h <;>
      simp [h, Token.Kind.numbers]
  | number => exact .inl hpos
  | _ => exact .inl (Nat.zero_le _)

/-- The tokens of a text take at most one number more than it has bytes, and not even that
where a line ends. -/
theorem numbers_tokens_le (offset : Nat) (text : List Char) :
    (((Remainder.mk offset text).tokens.map (·.kind.numbers)).sum ≤ width text + 1) ∧
      (EndsLine text →
        ((Remainder.mk offset text).tokens.map (·.kind.numbers)).sum ≤ width text) := by
  induction hlength : text.length using Nat.strongRecOn generalizing offset text with
  | ind length ih =>
    cases text with
    | nil => simp
    | cons c cs =>
      obtain ⟨rest, hrest⟩ := Lexeme.text_first_prefix c cs
      obtain ⟨hle, hline⟩ := ih _ (hlength ▸ Lexeme.length_lt_of_first hrest)
        (offset + width (Lexeme.first c cs).text) rest rfl
      have hwidth : width (c :: cs) = width (Lexeme.first c cs).text + width rest := by
        rw [← hrest, width_append]
      simp only [Remainder.tokens_cons hrest, List.map_cons, List.sum_cons, hwidth]
      rcases Lexeme.numbers_first c cs with hnumbers | ⟨hkind, htext, rfl, hends⟩
      · refine ⟨by omega, fun hends => ?_⟩
        -- A line break makes up for the number that may be one too many behind it.
        have hbreak : (Lexeme.first c cs).kind.numbers = 0 := by
          rw [Lexeme.kind_first_of_isLineBreak (by cases hends <;> rfl) cs]
          rfl
        have hpos := width_pos (Lexeme.text_first_ne_nil c cs)
        omega
      · obtain rfl : rest = cs := by
          rw [htext] at hrest
          exact (List.cons.inj hrest).2
        have hquote : width (Lexeme.first '"' rest).text = 1 := by rw [htext]; rfl
        have hstring : (Lexeme.first '"' rest).kind.numbers = 2 := by rw [hkind]; rfl
        have hrestLine := hline hends
        exact ⟨by omega, nofun⟩

namespace Document

variable {options : Options} {text : List Char}

/-- Wherever a reading has come to, it has given out at most one number more than there are
bytes. -/
theorem numbered_run_le (options : Options) {past rest : List Token}
    (htokens : past ++ rest = Token.ofText text ++ [Token.endOf text]) :
    (State.start.run options past).1.numbered ≤ width text + 1 := by
  have hrun := (numbered_run options .start past).2
  have hstart : State.start.numbered = 0 := rfl
  have hall : (((Token.ofText text).map (·.kind.numbers)).sum ≤ width text + 1) :=
    (numbers_tokens_le 0 text).1
  have hsum := congrArg (fun tokens => (tokens.map (·.kind.numbers)).sum) htokens
  have hend : ([Token.endOf text].map (·.kind.numbers)).sum = 0 := rfl
  simp only [List.map_append, List.sum_append, hend] at hsum
  omega

/-- When everything has been read, the nodes are those of the tree. -/
theorem size_run_ofText (options : Options) (text : List Char) :
    (State.start.run options (Token.ofText text ++ [Token.endOf text])).1.size =
      ((ofText options text).tree.map Node.size).getD 0 := by
  have hover : (State.start.run options (Token.ofText text ++ [Token.endOf text])).1.isOver =
      true := by
    rw [State.run_append, Move.after_fst]
    exact isOver_advance options rfl _
  rw [ofText, ofTokens_eq_run]
  cases hstate : (State.start.run options (Token.ofText text ++ [Token.endOf text])).1 with
  | «over» tree => rfl
  | start | within | root =>
    rw [hstate] at hover
    contradiction

/-- No node is dropped on the way: all that there are anywhere in a reading are in the tree. -/
theorem size_run_le {past rest : List Token}
    (htokens : past ++ rest = Token.ofText text ++ [Token.endOf text]) :
    (State.start.run options past).1.size ≤ ((ofText options text).tree.map Node.size).getD 0 := by
  rw [← size_run_ofText, ← htokens, State.run_append, Move.after_fst]
  exact (numbered_run options _ rest).1

/-- A text has at most one node more than it has bytes. -/
theorem size_ofText_le {root : Node} (hroot : (ofText options text).tree = some root) :
    root.size ≤ width text + 1 := by
  have hsize := size_run_ofText options text
  rw [hroot, Option.map_some, Option.getD_some] at hsize
  rw [← hsize]
  exact Nat.le_trans (State.size_le_numbered _) (numbered_run_le options (List.append_nil _))

/-! ## 32 bits -/

/-- All numbers and offsets of a reading are words. -/
structure IsNarrow (options : Options) (text : List Char) : Prop where
  /-- The offsets between characters, up to the end. -/
  offset : ∀ before, before <+: text → IsWord (width before)
  token : ∀ token ∈ Token.ofText text ++ [Token.endOf text],
    IsWord token.start ∧ IsWord token.stop
  problem : ∀ problem ∈ (ofText options text).problems,
    IsWord problem.span.start ∧ IsWord problem.span.stop
  /-- Wherever the reading has come to, it has given out at most one number more than there
  are bytes, and the tree keeps all nodes that have been made. -/
  numbered : ∀ past, past <+: Token.ofText text ++ [Token.endOf text] →
    (State.start.run options past).1.numbered ≤ width text + 1 ∧
      (∀ number < (State.start.run options past).1.numbered, IsWord number) ∧
      (State.start.run options past).1.size ≤ ((ofText options text).tree.map Node.size).getD 0
  /-- The tree has at most one node more than there are bytes. -/
  size : ∀ root, (ofText options text).tree = some root → root.entries.length ≤ width text + 1
  entry : ∀ root, (ofText options text).tree = some root →
    ∀ (number : Nat) (entry : Entry), root.entries[number]? = some entry →
      IsWord number ∧ (∀ parent ∈ entry.parent, IsWord parent) ∧
        (∀ child ∈ entry.children, IsWord child) ∧
        IsWord entry.span.start ∧ IsWord entry.span.stop ∧
        ∀ colon, entry.kind = .property (some colon) → IsWord colon

variable {root : Node}

theorem isWord_entry (hwidth : IsWord (width text)) (hroot : (ofText options text).tree = some root)
    {number : Nat} {entry : Entry} (hentry : root.entries[number]? = some entry) :
    IsWord number ∧ (∀ parent ∈ entry.parent, IsWord parent) ∧
      (∀ child ∈ entry.children, IsWord child) ∧
      IsWord entry.span.start ∧ IsWord entry.span.stop ∧
      ∀ colon, entry.kind = .property (some colon) → IsWord colon := by
  have hformed := Node.wellFormed_entries (rootFits_ofText hroot).all
  have hmem := List.mem_of_getElem? hentry
  obtain ⟨-, hstart, hstop⟩ := hformed.spans entry hmem
  have hlength : root.entries.length ≤ width text + 1 := by
    rw [Node.entries, Forest.length_entries]
    exact size_ofText_le hroot
  have hnumber {other : Nat} (hlt : other < root.entries.length) : IsWord other :=
    hwidth.of_le (by omega)
  have hbound : number < root.entries.length := (List.getElem?_eq_some_iff.1 hentry).1
  refine ⟨hnumber hbound, fun parent hparent => ?_, fun child hchild => ?_,
    hwidth.of_le hstart.le_width, hwidth.of_le hstop.le_width, fun colon hkind => ?_⟩
  · exact hnumber (Nat.lt_trans (hformed.parent_lt number entry hentry parent hparent) hbound)
  · exact hnumber ((hformed.children entry hmem).2 child hchild)
  · obtain ⟨above, node, hhas, rfl⟩ := Node.getElem?_entries.1 hentry
    have hall := Forest.Has.of_all hhas (Node.all_toForest.2 (colonFits_ofText hroot))
    obtain ⟨key, values, -, hplace, -⟩ := hall.1 (some colon) hkind
    obtain ⟨before, after, htext, hcolon⟩ := (hplace colon rfl).1
    refine hwidth.of_le ?_
    rw [← hcolon, htext, width_append]
    exact Nat.le_add_right _ _

/-- **32 bits are enough.**  When a text has fewer than 2^32 bytes, all offsets, the bounds of
all spans and the numbers of all nodes are below 2^32, and there is at most one node more than
there are bytes. -/
theorem isNarrow_ofText (options : Options) (htext : width text < UInt32.size) :
    IsNarrow options text := by
  have hwidth := isWord_of_lt htext
  have htoken : ∀ token ∈ Token.ofText text ++ [Token.endOf text],
      IsWord token.start ∧ IsWord token.stop := fun token hmem =>
    ⟨hwidth.of_le (Token.isBoundary_start hmem).le_width,
      hwidth.of_le (Token.isBoundary_stop hmem).le_width⟩
  refine ⟨fun before hbefore => ?offset, htoken, fun problem hproblem => ?problem,
    fun past hpast => ?numbered, fun root hroot => ?size, fun root hroot number entry hentry =>
    isWord_entry hwidth hroot hentry⟩
  case offset =>
    obtain ⟨rest, rfl⟩ := hbefore
    refine hwidth.of_le ?_
    rw [width_append]
    exact Nat.le_add_right _ _
  case problem =>
    obtain ⟨token, hmem, hspan⟩ := exists_token_of_mem_problems hproblem
    rw [hspan]
    exact htoken token hmem
  case numbered =>
    obtain ⟨rest, htokens⟩ := hpast
    have hle := numbered_run_le options htokens
    exact ⟨hle, fun number hlt => hwidth.of_le (by omega), size_run_le htokens⟩
  case size =>
    rw [Node.entries, Forest.length_entries]
    exact size_ofText_le hroot

/-- A brace and a quote are two bytes and three nodes. -/
theorem isNarrow_ofText_unclosed :
    width "\x7b\"".toList = 2 ∧
      (∃ root, (ofText default "\x7b\"".toList).tree = some root ∧ root.entries.length = 3) ∧
      IsNarrow default "\x7b\"".toList := by
  refine ⟨by decide, ?_, isNarrow_ofText default (by decide)⟩
  have hlength : ((ofText default "\x7b\"".toList).tree.map fun root => root.entries.length) =
      some 3 := by decide +kernel
  exact Option.map_eq_some_iff.1 hlength

end Document

end TaskFile
