import TaskFile.Proofs.Document.Continuation
import TaskFile.Proofs.Document.Embedding

/-!
# An object put in an empty array

Between the brackets of an array without elements stands nothing but trivia
(`exists_emptyArray`).  Where no comment is cut in two, an object fits in there: the rest
of the document is read as before, and the array has that object for its only element
(`EmptyArray.ofText_insert`).
-/

namespace TaskFile.Document

open Text

/-! ## Arrays without elements -/

/-- An array without elements in the text that it was read from: what stands before its
brackets, between them and behind them, and the containers around it. -/
structure EmptyArray (text : List Char) (list : Node) (before inner after : List Char)
    (outer : List Frame) : Prop where
  text_eq : text = before ++ '[' :: (inner ++ ']' :: after)
  span_eq : list.span =
    ⟨width before, width before + width ['['] + width inner + width [']']⟩
  /-- Up to the opening bracket the text is read in the same way whatever follows. -/
  opens : ∃ tokens, Reaches default .start tokens
      (.within ⟨.array, width before, .nil⟩ .first outer) ∧
    ∀ rest, (Remainder.mk 0 (before ++ '[' :: rest)).tokens =
      tokens ++ (Remainder.mk (width before + width ['[']) rest).tokens
  /-- Between the brackets only comments cannot be cut in two. -/
  cut : ∀ {front back}, front ++ back = inner →
    (∀ token ∈ Token.ofText text,
      token.Allows (width before + width ['['] + width front)) → Trivia front ∧ Trivia back

/-- Every array without elements has its place in the text. -/
theorem exists_emptyArray {text : List Char} {root list : Node} {number : Nat} {above : Option Nat}
    (hdocument : ofText default text = ⟨some root, []⟩) (hhas : root.Has number above list)
    (harray : list.kind = .array) (hempty : list.children = .nil) :
    ∃ before inner after outer, EmptyArray text list before inner after outer := by
  have hreaches := ofText_eq_iff.1 hdocument
  obtain ⟨level, outer, _, closer, back, htokens, hopened, hcloser, rfl⟩ :=
    emptied_of_has hreaches hhas .array harray hempty
  obtain ⟨front, opener, between, rfl, hopener, hlevel, hbetween, hopened⟩ := hopened
  have hshape : level.shape = .array := by
    cases hshape : level.shape with
    | array => rfl
    | object =>
      rw [Level.close, hshape] at harray
      contradiction
  rw [hshape] at hopener hcloser hlevel
  subst hlevel
  rw [List.append_assoc, List.cons_append] at htokens
  obtain ⟨before, rest, htext, hbefore, hrest⟩ := Remainder.exists_split htokens
  obtain ⟨rest, rfl, hopenerEq, hinner⟩ :=
    Remainder.exists_of_tokens_punctuation (d := '[') (by rw [hopener]; rfl) hrest
  obtain ⟨inner, rest, rfl, hcovers, hback⟩ := Remainder.exists_split hinner
  obtain ⟨after, rfl, hcloserEq, hafter⟩ :=
    Remainder.exists_of_tokens_punctuation (d := ']') (by rw [hcloser]; rfl) hback
  subst htext
  simp only [Nat.zero_add] at hrest hopenerEq hinner hcovers hback hcloserEq
  have hstart : opener.start = width before := congrArg Token.start hopenerEq
  have hstop : closer.stop = width before + width ['['] + width inner + width [']'] := by
    rw [Token.stop, hcloserEq]
  refine ⟨before, inner, after, outer, rfl, ?_, ⟨front ++ [opener], ?_, ?_⟩, ?_⟩
  · have hle : width before ≤ closer.stop := by omega
    rw [Level.close, hstart, Nat.max_eq_right hle, hstop]
  · rw [← hstart]
    exact hopened
  · intro rest
    have hfront : (Remainder.mk 0 (before ++ '[' :: (inner ++ ']' :: after))).tokens =
        front ++ (Remainder.mk (0 + width before) ('[' :: (inner ++ ']' :: after))).tokens := by
      rw [Nat.zero_add, hrest]
      exact htokens
    have hkind : Lexeme.punctuation? '[' = some opener.kind := by rw [hopener]; rfl
    rw [Remainder.tokens_append_punctuation hkind hbefore hfront,
      Remainder.tokens_punctuation hkind, Nat.zero_add, ← hopenerEq, List.append_assoc]
    rfl
  · intro left right hsplit hcut
    have hmem : between ⊆ Token.ofText (before ++ '[' :: (inner ++ ']' :: after)) := by
      intro token htoken
      rw [htokens]
      simp [htoken]
    have htrivia (token : Token) (htoken : token ∈ between) :
        token.kind.isTrivia = true ∧ token.fault = none := by
      obtain ⟨hfault, hstray, -⟩ :=
        (problems_token_eq_nil_iff _ token).1 (hreaches.problems_eq_nil token (hmem htoken))
      exact ⟨Token.Kind.isTrivia_iff.2 ⟨hbetween token htoken, hstray⟩, hfault⟩
    have hends : ¬EndsLine (']' :: after) := by
      intro hends
      cases hends
    rw [← hback] at hinner
    exact Remainder.trivia_of_cut hcovers hinner hends htrivia hsplit
      fun token htoken => hcut token (hmem htoken)

namespace EmptyArray

variable {text before inner after : List Char} {list : Node} {outer : List Frame}

/-- Inside the opening bracket nothing was read, whatever follows. -/
theorem read_eq (hlist : EmptyArray text list before inner after outer) (rest : List Char) :
    State.start.read 0 (before ++ '[' :: rest) =
      (State.within ⟨.array, width before, .nil⟩ .first outer).read
        (width before + width ['[']) rest := by
  obtain ⟨tokens, hreaches, htokens⟩ := hlist.opens
  have hsplit : before ++ '[' :: rest = before ++ ['['] ++ rest := by simp
  have hwidth : width before + width ['['] = 0 + width (before ++ ['[']) := by
    rw [width_append, Nat.zero_add]
  have hstart : State.IsSound .start := trivial
  rw [hsplit, hwidth]
  apply State.read_of_reaches hstart hreaches
  rw [← hsplit, ← hwidth]
  exact htokens rest

/-- What can be seen from the opening bracket does not depend on what follows. -/
theorem upTo_eq (hlist : EmptyArray text list before inner after outer) (rest : List Char) :
    (ofText default (before ++ '[' :: rest)).upTo (width before) =
      (State.within ⟨.array, width before, .nil⟩ .first outer).upTo (width before) := by
  obtain ⟨tokens, hreaches, htokens⟩ := hlist.opens
  have hstart : State.IsSound .start := trivial
  have htokens : Token.ofText (before ++ '[' :: rest) = tokens ++ _ := htokens rest
  have hmem : tokens ⊆ Token.ofText (before ++ '[' :: rest) :=
    htokens ▸ List.subset_append_left _ _
  have hpos : 0 < width ['['] := width_pos (by simp)
  rw [upTo_ofText, htokens, List.append_assoc,
    run_of_reaches hstart (fun _ htoken => ne_finish_of_mem_tokens (hmem htoken)) hreaches]
  apply State.upTo_run
  intro token htoken
  rcases List.mem_append.1 htoken with htoken | htoken
  · have hle : width before + width ['['] ≤ token.start := Remainder.offset_le_start htoken
    omega
  · obtain rfl := List.mem_singleton.1 htoken
    have hrest : 0 < width ('[' :: rest) := width_pos (by simp)
    show width before < width (before ++ '[' :: rest)
    rw [width_append]
    omega

/-- A cut between the brackets. -/
theorem exists_cut (hlist : EmptyArray text list before inner after outer) {front back : List Char}
    (htext : front ++ back = text)
    (hinside : list.span.start < width front ∧ width front < list.span.stop) :
    ∃ left right, front = before ++ '[' :: left ∧ back = right ++ ']' :: after ∧
      left ++ right = inner := by
  obtain ⟨hstart, hstop⟩ := hinside
  have htext : front ++ back = before ++ ['['] ++ (inner ++ ']' :: after) := by
    rw [htext, hlist.text_eq]
    simp
  rw [hlist.span_eq] at hstart hstop
  have hopen : width ['['] = 1 := rfl
  have hclose : width [']'] = 1 := rfl
  rcases cut_cases htext with ⟨rest, hne, hbefore, -⟩ | ⟨left, rfl, hrest⟩
  · -- The cut would stand before the opening bracket.
    have hwidth := congrArg width hbefore
    have hpos := width_pos hne
    rw [width_append, width_append] at hwidth
    simp only at hstart
    omega
  · rcases cut_cases hrest.symm with ⟨right, -, rfl, rfl⟩ | ⟨rest, rfl, hrest⟩
    · exact ⟨left, right, by simp, rfl, rfl⟩
    · -- The cut stands right before the closing bracket.
      have hrest' : rest = [] := by
        by_contra hne
        have hpos := width_pos hne
        simp only [width_append] at hstop
        omega
      subst hrest'
      exact ⟨inner, [], by simp, by simpa using hrest.symm, by simp⟩

end EmptyArray

/-! ## Objects -/

/-- A text of one object, from its opening brace to its closing one. -/
structure IsObjectText (text : List Char) : Prop where
  first : (Token.ofText text).head?.map (·.kind) = some .braceOpen
  last : (Token.ofText text).getLast?.map (·.kind) = some .braceClose
  problems : (ofText default text).problems = []

instance (text : List Char) : Decidable (IsObjectText text) :=
  decidable_of_iff ((Token.ofText text).head?.map (·.kind) = some .braceOpen ∧
      (Token.ofText text).getLast?.map (·.kind) = some .braceClose ∧
      (ofText default text).problems = [])
    ⟨fun htext => ⟨htext.1, htext.2.1, htext.2.2⟩,
      fun htext => ⟨htext.first, htext.last, htext.problems⟩⟩

theorem IsObjectText.solid {text : List Char} (htext : IsObjectText text) (rest : List Char) :
    Lexeme.Solid (text ++ rest) := by
  obtain ⟨first, hfirst, hkind⟩ := Option.map_eq_some_iff.1 htext.first
  obtain ⟨tokens, htokens⟩ := List.head?_eq_some_iff.1 hfirst
  have hbrace : Lexeme.punctuation? '\x7b' = some first.kind := by rw [hkind]; rfl
  obtain ⟨inner, rfl, -⟩ := Remainder.exists_of_tokens_punctuation hbrace htokens
  intro c hc
  obtain rfl : c = '\x7b' := by simpa using hc.symm
  decide

/-- Where a value is asked for, an object is read as it is on its own. -/
theorem IsObjectText.exists_read {object : List Char} (hobject : IsObjectText object) :
    ∃ node, ofText default object = ⟨some node, []⟩ ∧
      ∀ {state : State} {outer : List Frame}, State.Asks state outer →
        ∀ (offset : Nat) (rest : List Char),
          state.read offset (object ++ rest) =
            (deliver (node.shift offset) outer).read (offset + width object) rest := by
  have hstart : State.IsSound .start := trivial
  have hproblems : (State.start.read 0 object).2 = [] := by
    have hproblems := hobject.problems
    rw [ofText_eq_read] at hproblems
    exact hproblems
  obtain ⟨node, hreaches, hread⟩ := exists_root_of_read hstart hproblems
  refine ⟨node, by rw [ofText_eq_read, hread]; rfl, ?_⟩
  intro state outer hasks offset rest
  have hreaches := reaches_deliver hasks (reaches_shift hreaches offset)
  obtain ⟨last, hlast, hkind⟩ := Option.map_eq_some_iff.1 hobject.last
  have hbrace : Lexeme.punctuation? '\x7d' = some (last.shift offset).kind := by
    show _ = some last.kind
    rw [hkind]
    rfl
  obtain ⟨front, hfront⟩ := List.getLast?_eq_some_iff.1 hlast
  have htokens : (Remainder.mk offset object).tokens =
      front.map (Token.shift offset) ++ [last.shift offset] := by
    have hshift := Remainder.tokens_shift 0 offset object
    rw [Nat.zero_add] at hshift
    rw [hshift, show (Remainder.mk 0 object).tokens = front ++ [last] from hfront]
    simp
  apply State.read_of_reaches hasks.isSound hreaches
  rw [Remainder.tokens_append_of_last hbrace htokens rest, htokens]
  simp

/-! ## Insertion -/

/-- Behind trivia the closing bracket ends an array. -/
theorem exists_read_close {phase : Phase} {trivia : List Char} (level : Level)
    (hshape : level.shape = .array) (hphase : phase = .first ∨ phase = .next)
    (htrivia : Trivia trivia) (outer : List Frame) (offset : Nat) (after : List Char) :
    ∃ stop, (State.within level phase outer).read offset (trivia ++ ']' :: after) =
      (deliver (level.close stop) outer).read (offset + width trivia + width [']']) after := by
  have hclose := read_close level outer (offset + width trivia) after hphase
  rw [hshape] at hclose
  exact ⟨_, (State.read_trivia htrivia (solid_close .array after) _ _).trans hclose⟩

namespace EmptyArray

variable {text before left right after object : List Char} {list root : Node} {outer : List Frame}

/-- An object in an array without elements, with trivia around it: the document has still
no problem, and the array has that object for its only element. -/
theorem ofText_insert (hlist : EmptyArray text list before (left ++ right) after outer)
    (hdocument : ofText default text = ⟨some root, []⟩) (hleft : Trivia left)
    (hright : Trivia right) (hobject : IsObjectText object) :
    ∃ node root' number above list', ofText default object = ⟨some node, []⟩ ∧
      ofText default (before ++ '[' :: (left ++ (object ++ (right ++ ']' :: after)))) =
        ⟨some root', []⟩ ∧
      root'.Has number above list' ∧ list'.kind = .array ∧ list'.span.start = width before ∧
      list'.children = (node.shift (width before + width ['['] + width left)).toForest := by
  obtain ⟨node, hnode, hread⟩ := hobject.exists_read
  generalize hoffset : width before + width ['['] + width left = offset
  obtain ⟨stop, hclose⟩ := exists_read_close ⟨.array, width before, .nil⟩ rfl (.inl rfl)
    (hleft.append hright) outer (width before + width ['[']) after
  obtain ⟨stop', hclose'⟩ := exists_read_close
    (Level.push ⟨.array, width before, .nil⟩ (node.shift offset)) rfl (.inr rfl) hright outer
    (offset + width object) after
  -- What follows the array is read as after the empty one.
  have hrest := congrArg Document.problems hdocument
  rw [ofText_eq_read, hlist.text_eq, hlist.read_eq, hclose] at hrest
  have hplace : width before + width ['['] + width (left ++ right) + width [']'] + width object =
      offset + width object + width right + width [']'] := by
    rw [width_append]
    omega
  have hrest' := read_deliver_eq_nil
    ((Level.push ⟨.array, width before, .nil⟩ (node.shift offset)).close stop') (width object) hrest
  rw [hplace] at hrest'
  obtain ⟨root', hreaches, hroot⟩ := exists_root_of_read (isSound_deliver _ _) hrest'
  obtain ⟨number, above, hhas⟩ := exists_has_of_reaches hreaches
  have hdocument' :
      State.start.read 0 (before ++ '[' :: (left ++ (object ++ (right ++ ']' :: after)))) =
        (.over (some root'), []) := by
    calc State.start.read 0 (before ++ '[' :: (left ++ (object ++ (right ++ ']' :: after))))
        = _ := hlist.read_eq _
      _ = _ := State.read_trivia hleft (hobject.solid _) _ _
      _ = _ := by rw [hoffset]; exact hread (.element (.inl rfl) rfl) _ _
      _ = _ := hclose'
      _ = _ := hroot
  exact ⟨node, root', number, above, _, hnode, by rw [ofText_eq_read, hdocument']; rfl, hhas, rfl,
    rfl, rfl⟩

/-- Nodes found at the opening bracket have the same number, whatever follows. -/
theorem number_eq {inner rest rest' : List Char} {root' first second : Node}
    {number number' : Nat} {above above' : Option Nat}
    (hlist : EmptyArray text list before inner after outer)
    (hroot : (ofText default (before ++ '[' :: rest)).tree = some root)
    (hroot' : (ofText default (before ++ '[' :: rest')).tree = some root')
    (hhas : root.Has number above first) (hfirst : first.IsInnermost (width before))
    (hhas' : root'.Has number' above' second) (hsecond : second.IsInnermost (width before)) :
    number = number' := by
  have hfound : root.atOffset? (width before) false = some number :=
    (Node.atOffset?_eq_some_iff (rootFits_ofText hroot).all).2 ⟨_, _, hhas, hfirst⟩
  have hfound' : root'.atOffset? (width before) false = some number' :=
    (Node.atOffset?_eq_some_iff (rootFits_ofText hroot').all).2 ⟨_, _, hhas', hsecond⟩
  have hupTo := (hlist.upTo_eq rest).trans (hlist.upTo_eq rest').symm
  have hsame := congrArg (fun forest => forest.atOffset? (width before) false 0) hupTo
  simp only [atOffset?_upTo, atOffset?, hroot, hroot', Option.bind_some, hfound, hfound'] at hsame
  exact Option.some.inj hsame

end EmptyArray

/-- An object inserted in an array without elements, where no comment is cut: the document
has still no problem, and the array has that object for its only element. -/
theorem ofText_insert_object {before after object : List Char} {root list : Node} {number : Nat}
    {above : Option Nat} (hdocument : ofText default (before ++ after) = ⟨some root, []⟩)
    (hhas : root.Has number above list) (harray : list.kind = .array)
    (hempty : list.children = .nil)
    (hinside : list.span.start < width before ∧ width before < list.span.stop)
    (hcomments : ∀ token ∈ Token.ofText (before ++ after), token.Allows (width before))
    (hobject : IsObjectText object) :
    ∃ node root' above' list', ofText default object = ⟨some node, []⟩ ∧
      ofText default (before ++ object ++ after) = ⟨some root', []⟩ ∧
      root'.Has number above' list' ∧ list'.kind = .array ∧
      list'.span.start = list.span.start ∧
      list'.children = (node.shift (width before)).toForest := by
  obtain ⟨front, inner, back, outer, hlist⟩ := exists_emptyArray hdocument hhas harray hempty
  obtain ⟨left, right, rfl, rfl, rfl⟩ := hlist.exists_cut rfl hinside
  have hwidth : width (front ++ '[' :: left) = width front + width ['['] + width left := by
    simp [Nat.add_assoc]
  have hstart : list.span.start = width front := by rw [hlist.span_eq]
  obtain ⟨hleft, hright⟩ := hlist.cut rfl (hwidth ▸ hcomments)
  obtain ⟨node, root', number', above', list', hnode, hdocument', hhas', harray', hstart',
    hchildren⟩ := hlist.ofText_insert hdocument hleft hright hobject
  rw [← hwidth] at hchildren
  -- Both arrays are found at the opening bracket, the new one because its element starts later.
  have hfirst : list.IsInnermost (width front) := by
    rw [← hstart]
    exact ⟨⟨Nat.le_refl _, Nat.lt_trans hinside.1 hinside.2⟩, by simp [hempty]⟩
  have hsecond : list'.IsInnermost (width front) := by
    have hfit := (hhas'.isFit (rootFits_ofText (congrArg Document.tree hdocument')).all).1
    rw [← hstart']
    refine ⟨⟨Nat.le_refl _, hfit.nonempty⟩, ?_⟩
    rw [hchildren, hstart']
    intro child hchild haround
    obtain rfl : child = node.shift (width (front ++ '[' :: left)) := List.mem_singleton.1 hchild
    have hle : node.span.start + width (front ++ '[' :: left) ≤ width front := haround.1
    have hpos : 0 < width ['['] := width_pos (by simp)
    omega
  have htext : front ++ '[' :: left ++ object ++ (right ++ ']' :: back) =
      front ++ '[' :: (left ++ (object ++ (right ++ ']' :: back))) := by
    simp
  have hsplit : front ++ '[' :: left ++ (right ++ ']' :: back) =
      front ++ '[' :: (left ++ right ++ ']' :: back) := by
    simp
  rw [hsplit] at hdocument
  obtain rfl := hlist.number_eq (congrArg Document.tree hdocument)
    (congrArg Document.tree hdocument') hhas hfirst hhas' hsecond
  exact ⟨node, root', above', list', hnode, htext ▸ hdocument', hhas', harray',
    hstart'.trans hstart.symm, hchildren⟩

end TaskFile.Document
