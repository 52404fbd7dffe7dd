import TaskFile.Proofs.Document.Alignment
import TaskFile.Proofs.Token.Skeleton

/-!
# The shape of a document

What is read off a text is decided by its skeleton, the kinds and texts of its
significant tokens.  Comments, white space and stray text only move it and add
problems of their own.

* `State.run_filter_isSignificant` drops all other tokens from a reading.
* `Token.aligned_significant` sets the significant tokens of two texts with the same
  skeleton side by side.  Offsets correspond where tokens with the same number start,
  and where something stops is left open: the end of an unfinished node depends on what
  is skipped.
* `Document.corresponds_of_skeleton_eq`: the trees of the two texts correspond entry by
  entry, and the problems of the document, without those of single tokens, are of the
  same kinds.
-/

namespace TaskFile

/-! ## Numbers of tokens -/

/-- Offsets where tokens with the same number start. -/
def Token.StartAlike (tokens tokens' : List Token) (offset offset' : Nat) : Prop :=
  ∃ (number : Nat) (token token' : Token), tokens[number]? = some token ∧
    tokens'[number]? = some token' ∧ offset = token.start ∧ offset' = token'.start

/-- Offsets correspond where tokens with the same number start, and all ends do. -/
def Alignment.ofTokens (tokens tokens' : List Token) : Alignment where
  Start := Token.StartAlike tokens tokens'
  Stop _ _ := True
  stop_of_start _ := trivial
  stop_max _ _ := trivial

namespace Token

variable {text text' : List Char}

/-- The tokens of a document that a reading heeds. -/
def heeded (text : List Char) : List Token := significant text ++ [endOf text]

theorem filter_tokens (text : List Char) :
    (ofText text ++ [endOf text]).filter (·.kind.isSignificant) = heeded text := by
  rw [List.filter_append]
  rfl

/-- What a string stands for is decided by its text. -/
theorem string?_eq {token token' : Token} (htoken : token ∈ heeded text)
    (htoken' : token' ∈ heeded text') (hkind : token.kind = token'.kind)
    (htext : token.text = token'.text) : token.string? = token'.string? := by
  by_cases hstring : token.kind = .string
  · have hform {text : List Char} {token : Token} (htoken : token ∈ heeded text)
        (hstring : token.kind = .string) : ∃ c cs, Lexeme.Form c cs token.toLexeme := by
      rcases List.mem_append.1 htoken with htoken | htoken
      · exact (covers_ofText text).exists_form (List.mem_filter.1 htoken).1
      · obtain rfl := List.mem_singleton.1 htoken
        contradiction
    obtain ⟨c, cs, hform₁⟩ := hform htoken hstring
    obtain ⟨c', cs', hform₂⟩ := hform htoken' (hkind.symm.trans hstring)
    exact Lexeme.string?_eq_of_form hform₁ hform₂ hkind htext
  · exact (if_neg hstring).trans (if_neg (hkind ▸ hstring)).symm

/-- The significant tokens of two texts with the same skeleton are aligned. -/
theorem aligned_significant (hskeleton : skeleton text = skeleton text') :
    List.Forall₂ (Token.Aligned (.ofTokens (heeded text) (heeded text'))) (heeded text)
      (heeded text') := by
  have hsame : (heeded text).map (fun token => (token.kind, token.text)) =
      (heeded text').map (fun token => (token.kind, token.text)) := by
    rw [heeded, heeded, List.map_append, List.map_append]
    exact congrArg (· ++ [(Kind.finish, [])]) hskeleton
  have hlength : (heeded text).length = (heeded text').length := by
    simpa using congrArg List.length hsame
  rw [List.forall₂_iff_zip]
  refine ⟨hlength, fun {token token'} hpair => ?_⟩
  obtain ⟨number, hpair⟩ := List.getElem?_of_mem hpair
  obtain ⟨htoken, htoken'⟩ := List.getElem?_zip_eq_some.1 hpair
  have hwords : (token.kind, token.text) = (token'.kind, token'.text) := by
    have hword := congrArg (·[number]?) hsame
    simpa [htoken, htoken'] using hword
  obtain ⟨hkind, htext⟩ := Prod.mk.inj hwords
  have hmem := List.mem_of_getElem? htoken
  have hmem' := List.mem_of_getElem? htoken'
  exact ⟨hkind, string?_eq hmem hmem' hkind htext, fun _ => htext,
    ⟨number, token, token', htoken, htoken', rfl, rfl⟩, trivial⟩

end Token

/-! ## Problems -/

/-- Whether a problem is one of the document, not of a single token. -/
def Problem.Kind.isStructural : Problem.Kind → Bool
  | .stray | .commentForbidden | .fault _ => false
  | _ => true

/-- A token alone gives no reason for problems of the document. -/
theorem Token.filter_isStructural_problems (forbidComments : Bool) (token : Token) :
    (token.problems forbidComments).filter (·.kind.isStructural) = [] := by
  unfold Token.problems
  rw [List.filter_append, List.append_eq_nil_iff]
  constructor
  · cases token.fault <;> rfl
  · split
    · rfl
    split <;> rfl

namespace Document

variable (options : Options)

/-! ## Readings -/

/-- A token that is not significant leaves the state as it is. -/
theorem State.advance_of_isSignificant_eq_false (state : State) {token : Token}
    (hkind : token.kind.isSignificant = false) :
    (state.advance options token).1 = state ∧
      (state.advance options token).2.filter (·.kind.isStructural) = [] := by
  have hproblems := token.filter_isStructural_problems options.forbidComments
  unfold advance
  split
  · exact ⟨rfl, rfl⟩
  · rw [if_neg (by simp [hkind])]
    exact ⟨rfl, hproblems⟩

/-- A reading goes through the states of its significant tokens, with their problems of
the document. -/
theorem State.run_filter_isSignificant (state : State) (tokens : List Token) :
    (state.run options tokens).1 =
        (state.run options (tokens.filter (·.kind.isSignificant))).1 ∧
      (state.run options tokens).2.filter (·.kind.isStructural) =
        (state.run options (tokens.filter (·.kind.isSignificant))).2.filter
          (·.kind.isStructural) := by
  induction tokens generalizing state with
  | nil => exact ⟨rfl, rfl⟩
  | cons token tokens ih =>
    rw [run_cons, Move.after_fst, Move.after_snd, List.filter_append]
    cases hkind : token.kind.isSignificant with
    | true =>
      rw [List.filter_cons, if_pos hkind, run_cons, Move.after_fst, Move.after_snd,
        List.filter_append, (ih _).1, (ih _).2]
      exact ⟨rfl, rfl⟩
    | false =>
      obtain ⟨hstate, hproblems⟩ := state.advance_of_isSignificant_eq_false options hkind
      rw [List.filter_cons, if_neg (by simp [hkind]), hstate, hproblems]
      exact ih state

variable {text text' : List Char}

/-- The documents of two texts with the same skeleton are aligned. -/
theorem aligned_of_skeleton_eq (hskeleton : Token.skeleton text = Token.skeleton text') :
    Option.Rel (Node.Aligned (.ofTokens (Token.heeded text) (Token.heeded text')))
        (ofText options text).tree (ofText options text').tree ∧
      List.Forall₂ (Problem.Aligned (.ofTokens (Token.heeded text) (Token.heeded text')))
        ((ofText options text).problems.filter (·.kind.isStructural))
        ((ofText options text').problems.filter (·.kind.isStructural)) := by
  have hnone (token token' : Token) : List.Forall₂
      (Problem.Aligned (.ofTokens (Token.heeded text) (Token.heeded text')))
      ((token.problems options.forbidComments).filter (·.kind.isStructural))
      ((token'.problems options.forbidComments).filter (·.kind.isStructural)) := by
    rw [Token.filter_isStructural_problems, Token.filter_isStructural_problems]
    exact .nil
  have htokens := Token.aligned_significant hskeleton
  obtain ⟨hstate, hproblems⟩ := aligned_run_filter Problem.Kind.isStructural options
    (htokens.imp fun token token' htoken => ⟨htoken, hnone token token'⟩) .start
  obtain ⟨hfirst, hfirstProblems⟩ :=
    State.start.run_filter_isSignificant options (Token.ofText text ++ [Token.endOf text])
  obtain ⟨hsecond, hsecondProblems⟩ :=
    State.start.run_filter_isSignificant options (Token.ofText text' ++ [Token.endOf text'])
  rw [Token.filter_tokens] at hfirst hfirstProblems hsecond hsecondProblems
  rw [ofText, ofText, ofTokens_eq_run, ofTokens_eq_run]
  dsimp only
  rw [hfirst, hsecond, hfirstProblems, hsecondProblems]
  exact ⟨hstate.tree, hproblems⟩

end Document

/-! ## Entries -/

/-- A kind without the place of its colon, if it has one. -/
def Node.Kind.unplaced : Node.Kind → Node.Kind
  | .property colon => .property (colon.map fun _ => 0)
  | kind => kind

theorem Node.Kind.Aligned.unplaced_eq {alignment : Alignment} {kind kind' : Node.Kind}
    (hkind : Node.Kind.Aligned alignment kind kind') : kind.unplaced = kind'.unplaced := by
  cases hkind with
  | property hcolon => cases hcolon <;> rfl
  | other => rfl

/-- Entries of two texts with the same kind and value and the same parent and children,
which start at the significant tokens with the same number. -/
structure Entry.Corresponds (text text' : List Char) (entry entry' : Entry) : Prop where
  /-- The kinds agree up to the place of a colon. -/
  kind : entry.kind.unplaced = entry'.kind.unplaced
  parent : entry.parent = entry'.parent
  children : entry.children = entry'.children
  start : Token.StartAlike (Token.significant text) (Token.significant text')
    entry.span.start entry'.span.start

variable {text text' : List Char}

/-- Before the end of a text it is a significant token that starts. -/
theorem Token.StartAlike.of_lt_width (hskeleton : skeleton text = skeleton text')
    {offset offset' : Nat} (halike : StartAlike (heeded text) (heeded text') offset offset')
    (hlt : offset < Text.width text) :
    StartAlike (significant text) (significant text') offset offset' := by
  obtain ⟨number, token, token', htoken, htoken', rfl, rfl⟩ := halike
  have hlength : (significant text).length = (significant text').length := by
    simpa [skeleton] using congrArg List.length hskeleton
  by_cases hnumber : number < (significant text).length
  · rw [heeded, List.getElem?_append_left hnumber] at htoken
    rw [heeded, List.getElem?_append_left (hlength ▸ hnumber)] at htoken'
    exact ⟨number, token, token', htoken, htoken', rfl, rfl⟩
  · rw [heeded, List.getElem?_append_right (Nat.not_lt.1 hnumber)] at htoken
    obtain rfl := List.mem_singleton.1 (List.mem_of_getElem? htoken)
    exact absurd hlt (Nat.lt_irrefl _)

/-- The entries of the trees of two texts with the same skeleton correspond one by
one. -/
theorem Node.Aligned.corresponds {root root' : Node}
    (hskeleton : Token.skeleton text = Token.skeleton text')
    (hall : root.All (IsFit (Text.IsBoundary text)))
    (hroot : Node.Aligned (.ofTokens (Token.heeded text) (Token.heeded text')) root root') :
    List.Forall₂ (Entry.Corresponds text text') root.entries root'.entries := by
  have hspans := (wellFormed_entries hall).spans
  rw [List.forall₂_iff_zip]
  obtain ⟨hlength, haligned⟩ := List.forall₂_iff_zip.1 hroot.entries
  refine ⟨hlength, fun {entry entry'} hpair => ?_⟩
  obtain ⟨hkind, hspan, hparent, hchildren⟩ := haligned hpair
  obtain ⟨hnonempty, -, hstop⟩ := hspans entry (List.of_mem_zip hpair).1
  have hlt := Nat.lt_of_lt_of_le hnonempty hstop.le_width
  exact ⟨hkind.unplaced_eq, hparent, hchildren, hspan.start.of_lt_width hskeleton hlt⟩

namespace Document

/-- The kinds of the problems of a document that are not those of single tokens. -/
def structuralKinds (document : Document) : List Problem.Kind :=
  (document.problems.map (·.kind)).filter (·.isStructural)

theorem structuralKinds_eq {alignment : Alignment} {first second : Document}
    (hproblems : List.Forall₂ (Problem.Aligned alignment)
      (first.problems.filter (·.kind.isStructural))
      (second.problems.filter (·.kind.isStructural))) :
    first.structuralKinds = second.structuralKinds := by
  have hkinds : List.Forall₂ (· = ·)
      ((first.problems.filter (·.kind.isStructural)).map (·.kind))
      ((second.problems.filter (·.kind.isStructural)).map (·.kind)) := by
    rw [List.forall₂_map_left_iff, List.forall₂_map_right_iff]
    exact hproblems.imp fun _ _ hproblem => hproblem.kind
  rw [List.forall₂_eq_eq_eq] at hkinds
  rw [structuralKinds, structuralKinds, List.filter_map, List.filter_map]
  exact hkinds

/-- Two texts with the same skeleton have no tree, or trees of which the entries correspond
one by one, and the same problems besides those of single tokens. -/
theorem corresponds_of_skeleton_eq (options : Options)
    (hskeleton : Token.skeleton text = Token.skeleton text') :
    Option.Rel (fun root root' =>
        List.Forall₂ (Entry.Corresponds text text') root.entries root'.entries)
      (ofText options text).tree (ofText options text').tree ∧
    (ofText options text).structuralKinds = (ofText options text').structuralKinds := by
  obtain ⟨htree, hproblems⟩ := aligned_of_skeleton_eq options hskeleton
  refine ⟨?_, structuralKinds_eq hproblems⟩
  have hall : ∀ root, (ofText options text).tree = some root →
      root.All (Node.IsFit (Text.IsBoundary text)) := fun _ hroot => (rootFits_ofText hroot).all
  generalize (ofText options text).tree = tree, (ofText options text').tree = tree' at htree hall ⊢
  cases htree with
  | none => exact .none
  | some hroot => exact .some (hroot.corresponds hskeleton (hall _ rfl))

/-- Comments, blanks and stray characters in a document that is not finished. -/
theorem corresponds_of_skeleton_eq_unfinished :
    Token.skeleton "\x7b\"a\":#[1 /*x*/ \"b".toList = Token.skeleton "\x7b \"a\" :[1\n\"b".toList ∧
      (ofText default "\x7b\"a\":#[1 /*x*/ \"b".toList).tree.isSome = true ∧
      Option.Rel (fun root root' =>
          List.Forall₂ (Entry.Corresponds "\x7b\"a\":#[1 /*x*/ \"b".toList
            "\x7b \"a\" :[1\n\"b".toList) root.entries root'.entries)
        (ofText default "\x7b\"a\":#[1 /*x*/ \"b".toList).tree
        (ofText default "\x7b \"a\" :[1\n\"b".toList).tree ∧
      (ofText default "\x7b\"a\":#[1 /*x*/ \"b".toList).structuralKinds =
        (ofText default "\x7b \"a\" :[1\n\"b".toList).structuralKinds ∧
      (ofText default "\x7b\"a\":#[1 /*x*/ \"b".toList).structuralKinds =
        [.commaExpected, .bracketExpected, .braceExpected] := by
  have hskeleton : Token.skeleton "\x7b\"a\":#[1 /*x*/ \"b".toList =
      Token.skeleton "\x7b \"a\" :[1\n\"b".toList := by decide +kernel
  obtain ⟨htree, hkinds⟩ := corresponds_of_skeleton_eq default hskeleton
  exact ⟨hskeleton, by decide +kernel, htree, hkinds, by decide +kernel⟩

end Document

end TaskFile
