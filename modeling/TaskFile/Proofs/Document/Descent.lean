import TaskFile.Proofs.Document.Report
import TaskFile.Proofs.Token.Remainder

/-!
# Documents by recursive descent

The reading of a document as a recursive descent: a function for each part of the grammar, a
loop over the children of a container and a loop that skips tokens.  A `Reader` asks for the
tokens of a text one by one and keeps the last significant one as its current token.

Nothing in these definitions makes the loops end: a function gives `none` where it would go on
for ever.  What keeps a loop going is that each of its rounds comes to a later token.

* `Reader.Advances` is that a reader has come to a later token and has asked for the tokens up
  to it and for no others.  `Reader.Reaches` allows that it has not moved.
* `Reader.resume` goes on from a reader with the moves of a reading state, up to the end of the
  text.  What the descent does keeps it, so the problems and the tree are the same in the end.
* `exists_scan` and `exists_giveUp` say this of asking for a token, and of skipping tokens up to
  a separator.
-/

namespace TaskFile

/-- What is left up to the end of the text, with the end. -/
def Remainder.toEnd (remainder : Remainder) : List Token :=
  remainder.tokens ++ [Token.atEnd (remainder.offset + Text.width remainder.text)]

namespace Document

/-! ## Readers -/

/-- What is left of the text, the tokens that were asked for, the last one of them that is
significant, and the problems so far. -/
structure Reader where
  remainder : Remainder
  asked : List Token
  current : Token
  problems : List Problem

namespace Reader

/-- Nothing has been asked for. -/
def initial (text : List Char) : Reader := ⟨.whole text, [], Token.atEnd 0, []⟩

/-- Further problems. -/
def meet (problems : List Problem) (reader : Reader) : Reader :=
  { reader with problems := reader.problems ++ problems }

/-- A problem on the current token. -/
def report (kind : Problem.Kind) (reader : Reader) : Reader :=
  reader.meet [complain kind reader.current]

/-- The next token is asked for. -/
def ask (options : Options) (reader : Reader) : Reader :=
  let token := reader.remainder.token
  { remainder := reader.remainder.next
    asked := reader.asked ++ [token]
    current := if token.kind.isSignificant then token else reader.current
    problems := reader.problems ++ token.problems options.forbidComments }

/-- Tokens are asked for up to the next significant one. -/
def scan (options : Options) (reader : Reader) : Option Reader :=
  if reader.remainder.token.kind.isSignificant then some (reader.ask options)
  else reader.ask options |>.scan options
partial_fixpoint

/-! ## Skipping -/

/-- One round of the loop that skips tokens.  It ends behind a token of some kinds and before a
token of others, and the round says whether it goes on. -/
def skipRound (options : Options) (behind before : List Token.Kind) (reader : Reader) :
    Option (Bool × Reader) :=
  if behind.contains reader.current.kind then do return (false, ← reader.scan options)
  else if before.contains reader.current.kind then return (false, reader)
  else do return (true, ← reader.scan options)

/-- Tokens are skipped until the loop or the text ends. -/
def skip (options : Options) (behind before : List Token.Kind) (reader : Reader) :
    Option Reader :=
  if reader.current.kind = .finish then some reader
  else do
    let (goesOn, next) ← reader.skipRound options behind before
    if goesOn then next |>.skip options behind before else return next
partial_fixpoint

/-- A problem is reported, and tokens are skipped unless there are no kinds to end at. -/
def giveUp (options : Options) (kind : Problem.Kind) (behind before : List Token.Kind)
    (reader : Reader) : Option Reader :=
  if behind.isEmpty && before.isEmpty then some (reader.report kind)
  else (reader.report kind).skip options behind before

/-- The token that closes a container is passed.  Where it is missing, this is reported, and
tokens are skipped up to it. -/
def leave (options : Options) (shape : Shape) (reader : Reader) : Option Reader :=
  if reader.current.kind = shape.closer then reader.scan options
  else reader.giveUp options shape.unclosed [shape.closer] []

/-! ## The parts of a document -/

/-- A scalar, if the current token is one. -/
def scalar (options : Options) (reader : Reader) : Option (Option Node × Reader) :=
  match scalar? reader.current with
  | some (kind, problems) => do
    return (some ⟨kind, reader.current.span, .nil⟩, ← (reader.meet problems).scan options)
  | none => some (none, reader)

/-- The key of a property, if the current token is one. -/
def key (reader : Reader) : Key :=
  ⟨reader.current.span, reader.current.string?.getD ""⟩

/-- Where a property without a value ends. -/
def bareStop (reader : Reader) : Nat :=
  if reader.current.kind = .comma then reader.current.start else reader.current.stop

mutual

/-- A value, if the current token starts one. -/
def value (options : Options) (reader : Reader) : Option (Option Node × Reader) :=
  if reader.current.kind = .braceOpen then reader |>.container options .object
  else if reader.current.kind = .bracketOpen then reader |>.container options .array
  else reader.scalar options
partial_fixpoint

/-- A container, from the token that opens it on. -/
def container (options : Options) (shape : Shape) (reader : Reader) :
    Option (Option Node × Reader) := do
  let opened ← reader.scan options
  let (level, last) ← opened |>.children options ⟨shape, reader.current.start, .nil⟩ false
  return (some (level.close last.current.stop), ← last.leave options shape)
partial_fixpoint

/-- The loop over the children of a container. -/
def children (options : Options) (level : Level) (needsComma : Bool) (reader : Reader) :
    Option (Level × Reader) :=
  if reader.current.kind = level.shape.closer ∨ reader.current.kind = .finish then
    some (level, reader)
  else do
    let (goesOn, more, next) ← reader |>.round options level needsComma
    if goesOn then next |>.children options more true else return (more, next)
partial_fixpoint

/-- One round of the loop: a comma, if there is one, and a child.  The round says whether the
loop goes on. -/
def round (options : Options) (level : Level) (needsComma : Bool) (reader : Reader) :
    Option (Bool × Level × Reader) :=
  if reader.current.kind = .comma then do
    let next ← (if needsComma then reader else reader.report .valueExpected).scan options
    if next.current.kind = level.shape.closer && options.trailingComma then
      return (false, level, next)
    else next |>.child options level
  else (if needsComma then reader.report .commaExpected else reader) |>.child options level
partial_fixpoint

/-- A child.  Where there is none, tokens are skipped up to a separator. -/
def child (options : Options) (level : Level) (reader : Reader) :
    Option (Bool × Level × Reader) := do
  let (node, next) ← match level.shape with
    | .object => reader |>.property options
    | .array => reader |>.value options
  match node with
  | some node => return (true, level.push node, next)
  | none =>
    return (true, level, ← next.giveUp options .valueExpected [] [level.shape.closer, .comma])
partial_fixpoint

/-- A property: its key, its colon and its value.  Where one of them is missing, tokens are
skipped up to a separator, and with its key the property is kept. -/
def property (options : Options) (reader : Reader) : Option (Option Node × Reader) :=
  if reader.current.kind = .string then do
    let named ← reader.scan options
    if named.current.kind = .colon then do
      let (node, next) ← (← named.scan options) |>.value options
      match node with
      | some node =>
        return (some (reader.key.property (some named.current.start) (some node) 0), next)
      | none =>
        let last ← next.giveUp options .valueExpected [] [.braceClose, .comma]
        return (some (reader.key.property (some named.current.start) none last.bareStop), last)
    else do
      let last ← named.giveUp options .colonExpected [] [.braceClose, .comma]
      return (some (reader.key.property none none last.bareStop), last)
  else do return (none, ← reader.giveUp options .nameExpected [] [.braceClose, .comma])
partial_fixpoint

end

/-- A whole document, and the reader behind it. -/
def document (options : Options) (text : List Char) : Option (Document × Reader) := do
  let first ← (initial text).scan options
  if first.current.kind = .finish then
    let last := if options.emptyDocument then first else first.report .valueExpected
    return (⟨none, last.problems⟩, last)
  else
    let (tree, next) ← first.value options
    let last :=
      if tree.isNone then next.report .valueExpected
      else if next.current.kind = .finish then next
      else next.report .endExpected
    return (⟨tree, last.problems⟩, last)

/-! ## Later tokens -/

/-- The tokens that a reader can still ask for.  Behind the end there are none. -/
def ahead (reader : Reader) : List Token :=
  if reader.current.kind = .finish then [] else reader.remainder.toEnd

/-- A reader has come to a later token.  It has asked for the tokens up to that one. -/
def Advances (reader next : Reader) : Prop :=
  ∃ passed, reader.ahead = passed ++ next.current :: next.ahead ∧
    next.asked = reader.asked ++ (passed ++ [next.current])

/-- A reader has come to a later token or has not moved. -/
def Reaches (reader next : Reader) : Prop :=
  reader.Advances next ∨
    next.current = reader.current ∧ next.ahead = reader.ahead ∧ next.asked = reader.asked

variable {reader middle next : Reader}

theorem Reaches.refl (reader : Reader) : reader.Reaches reader := .inr ⟨rfl, rfl, rfl⟩

theorem Advances.trans (hfirst : reader.Advances middle) (hsecond : middle.Advances next) :
    reader.Advances next := by
  obtain ⟨front, hahead, hasked⟩ := hfirst
  obtain ⟨back, hahead', hasked'⟩ := hsecond
  refine ⟨front ++ middle.current :: back, ?_, ?_⟩
  · rw [hahead, hahead', List.append_assoc, List.cons_append]
  · rw [hasked', hasked]
    simp

theorem Advances.reaches (hfirst : reader.Advances middle) (hsecond : middle.Reaches next) :
    reader.Advances next := by
  rcases hsecond with hsecond | ⟨hcurrent, hahead, hasked⟩
  · exact hfirst.trans hsecond
  · obtain ⟨passed, hahead', hasked'⟩ := hfirst
    exact ⟨passed, by rw [hahead', hcurrent, hahead], by rw [hasked, hasked', hcurrent]⟩

/-- The tokens that were asked for and those that are ahead stay the same together. -/
theorem Advances.asked_append (hadvances : reader.Advances next) :
    next.asked ++ next.ahead = reader.asked ++ reader.ahead := by
  obtain ⟨passed, hahead, hasked⟩ := hadvances
  rw [hahead, hasked]
  simp

theorem Advances.length_lt (hadvances : reader.Advances next) :
    next.ahead.length < reader.ahead.length := by
  obtain ⟨passed, hahead, -⟩ := hadvances
  rw [hahead, List.length_append, List.length_cons]
  omega

end Reader

end Document

/-! ## Asking for tokens -/

namespace Remainder

variable {remainder : Remainder}

/-- Before the end of the text a token is taken off what is left. -/
theorem toEnd_cons (htext : remainder.text ≠ []) :
    remainder.toEnd = remainder.token :: remainder.next.toEnd := by
  have hend : remainder.next.offset + Text.width remainder.next.text =
      remainder.offset + Text.width remainder.text := by
    rw [offset_next, ← remainder.append_text_next, Text.width_append, Token.stop, start_token,
      Nat.add_assoc]
  rw [toEnd, toEnd, hend, tokens, dif_neg htext, List.cons_append]

theorem toEnd_of_text_eq_nil (htext : remainder.text = []) :
    remainder.toEnd = [remainder.token] := by
  rw [toEnd, tokens, dif_pos htext, htext, (next_of_text_eq_nil htext).2]
  rfl

end Remainder

namespace Document

namespace Reader

variable {options : Options} {reader next : Reader} {state : State}

theorem ahead_of_ne (hkind : reader.current.kind ≠ .finish) :
    reader.ahead = reader.remainder.toEnd := if_neg hkind

/-- The next significant token is found: the end is one. -/
theorem exists_scan_toEnd (options : Options) (reader : Reader) :
    ∃ next passed, reader.scan options = some next ∧
      reader.remainder.toEnd = passed ++ next.current :: next.ahead ∧
      next.asked = reader.asked ++ (passed ++ [next.current]) ∧
      (∀ token ∈ passed, token.kind.isSignificant = false) ∧
      next.current.kind.isSignificant = true ∧
      next.problems = reader.problems ++
        (passed ++ [next.current]).flatMap (Token.problems options.forbidComments) := by
  induction hlength : reader.remainder.text.length using Nat.strongRecOn generalizing reader with
  | ind length ih =>
    rw [scan]
    cases hkind : reader.remainder.token.kind.isSignificant with
    | true =>
      refine ⟨reader.ask options, [], if_pos rfl, ?_, ?_, by simp, ?_, ?_⟩
      · have hcurrent : (reader.ask options).current = reader.remainder.token := if_pos hkind
        rw [List.nil_append, ahead, hcurrent]
        by_cases htext : reader.remainder.text = []
        · rw [Remainder.toEnd_of_text_eq_nil htext, (Remainder.next_of_text_eq_nil htext).2]
          rfl
        · rw [if_neg (Remainder.token_of_text_ne_nil htext).1, Remainder.toEnd_cons htext]
          rfl
      all_goals simp [ask, hkind]
    | false =>
      have htext : reader.remainder.text ≠ [] := by
        intro htext
        rw [(Remainder.next_of_text_eq_nil htext).2] at hkind
        contradiction
      obtain ⟨next, passed, hscan, hahead, hasked, hpassed, hsignificant, hproblems⟩ :=
        ih _ (hlength ▸ Remainder.length_next_lt htext) (reader.ask options) rfl
      refine ⟨next, reader.remainder.token :: passed, hscan, ?_, ?_,
        List.forall_mem_cons.2 ⟨hkind, hpassed⟩, hsignificant, ?_⟩
      · rw [Remainder.toEnd_cons htext, List.cons_append, ← hahead]
        rfl
      · rw [hasked]
        simp [ask]
      · rw [hproblems]
        simp [ask]

/-! ## Going on with the moves of a state -/

/-- From the tokens ahead of a reader to the end, with a state behind the current token. -/
def goOn (options : Options) (state : State) (reader : Reader) : Move :=
  (state.run options reader.ahead).after reader.problems

/-- From the current token of a reader to the end, with a state before this token. -/
def resume (options : Options) (state : State) (reader : Reader) : Move :=
  goOn options (state.step options reader.current).1
    (reader.meet (state.step options reader.current).2)

theorem resume_eq_goOn {after : State} {problems : List Problem}
    (hstep : state.step options reader.current = (after, problems)) :
    reader.resume options state = (reader.meet problems).goOn options after := by
  rw [resume, hstep]

/-- One state does as another one, after some problems. -/
theorem resume_of_step {other : State} {problems : List Problem}
    (hstep : state.step options reader.current =
      (other.step options reader.current).after problems) :
    reader.resume options state = (reader.meet problems).resume options other := by
  rw [resume, hstep, resume]
  simp [meet, goOn]

theorem resume_congr {other : State}
    (hstep : state.step options reader.current = other.step options reader.current) :
    reader.resume options state = reader.resume options other := by
  rw [resume, hstep, resume]

/-- Tokens that are not significant leave their own problems. -/
theorem run_of_forall_isSignificant_eq_false {tokens : List Token}
    (htokens : ∀ token ∈ tokens, token.kind.isSignificant = false) (hover : state.isOver = false) :
    state.run options tokens = (state, tokens.flatMap (Token.problems options.forbidComments)) := by
  induction tokens with
  | nil => rfl
  | cons token tokens ih =>
    obtain ⟨htoken, htokens⟩ := List.forall_mem_cons.1 htokens
    rw [State.run_cons, State.advance_eq_self options hover htoken, ih htokens]
    rfl

/-- The state meets the tokens that are asked for. -/
theorem exists_scan_run (options : Options) (reader : Reader) :
    ∃ next passed, reader.scan options = some next ∧
      reader.remainder.toEnd = passed ++ next.current :: next.ahead ∧
      next.asked = reader.asked ++ (passed ++ [next.current]) ∧
      ∀ state : State, state.isOver = false →
        (state.run options reader.remainder.toEnd).after reader.problems =
          next.resume options state := by
  obtain ⟨next, passed, hscan, hahead, hasked, hpassed, hsignificant, hproblems⟩ :=
    exists_scan_toEnd options reader
  refine ⟨next, passed, hscan, hahead, hasked, fun state hover => ?_⟩
  rw [hahead, State.run_append, run_of_forall_isSignificant_eq_false hpassed hover,
    State.run_cons, State.advance_eq_step options hover hsignificant, resume, goOn, meet,
    hproblems]
  simp [Move.after, ahead]

/-- A reader that is not at the end comes to a later token by asking for it. -/
theorem exists_scan (options : Options) (hkind : reader.current.kind ≠ .finish) :
    ∃ next, reader.scan options = some next ∧ reader.Advances next ∧
      ∀ state : State, state.isOver = false →
        reader.goOn options state = next.resume options state := by
  obtain ⟨next, passed, hscan, hahead, hasked, hrun⟩ := exists_scan_run options reader
  rw [← ahead_of_ne hkind] at hahead hrun
  exact ⟨next, hscan, ⟨passed, hahead, hasked⟩, hrun⟩

/-! ## Skipping up to a separator -/

/-- A state that passes over all tokens but separators. -/
def PassesOver (options : Options) (shape : Shape) (state : State) : Prop :=
  state.isOver = false ∧
    ∀ token, isSeparator shape token = false → state.step options token = (state, [])

/-- At a separator nothing is skipped. -/
theorem skip_of_isSeparator (options : Options) {shape : Shape}
    (hreader : isSeparator shape reader.current = true) :
    reader.skip options [] [shape.closer, .comma] = some reader := by
  rw [skip]
  split
  · rfl
  · rename_i hfinish
    have hkind : reader.current.kind = shape.closer ∨ reader.current.kind = .comma := by
      rcases isSeparator_iff.1 hreader with hkind | hkind | hkind
      · exact .inr hkind
      · exact .inl hkind
      · contradiction
    simp [skipRound, hkind]

theorem giveUp_of_isSeparator (options : Options) (kind : Problem.Kind) {shape : Shape}
    (hreader : isSeparator shape reader.current = true) :
    reader.giveUp options kind [] [shape.closer, .comma] = some (reader.report kind) :=
  @skip_of_isSeparator (reader.report kind) options shape hreader

/-- The loop that skips tokens ends at a separator. -/
theorem exists_skip (options : Options) (shape : Shape) (reader : Reader) :
    ∃ next, reader.skip options [] [shape.closer, .comma] = some next ∧ reader.Reaches next ∧
      isSeparator shape next.current = true ∧
      ∀ state : State, PassesOver options shape state →
        reader.resume options state = next.resume options state := by
  induction hlength : reader.ahead.length using Nat.strongRecOn generalizing reader with
  | ind length ih =>
    cases hseparator : isSeparator shape reader.current with
    | true =>
      exact ⟨reader, skip_of_isSeparator options hseparator, .refl _, hseparator, fun _ _ => rfl⟩
    | false =>
      have hkinds : reader.current.kind ≠ .finish ∧ reader.current.kind ≠ shape.closer ∧
          reader.current.kind ≠ .comma := by
        simp_all [isSeparator]
      obtain ⟨middle, hscan, hadvances, hgoOn⟩ := exists_scan options hkinds.1
      obtain ⟨next, hskip, hreaches, hnext, hresume⟩ :=
        ih _ (hlength ▸ hadvances.length_lt) middle rfl
      refine ⟨next, ?_, .inl (hadvances.reaches hreaches), hnext, fun state hstate => ?_⟩
      · rw [skip, if_neg hkinds.1]
        simp [skipRound, hkinds, hscan, hskip]
      · rw [resume_eq_goOn (hstate.2 _ hseparator), ← hresume state hstate,
          ← hgoOn state hstate.1]
        simp [meet]

/-- What is given up is skipped up to a separator. -/
theorem exists_giveUp (options : Options) (kind : Problem.Kind) (shape : Shape)
    (reader : Reader) :
    ∃ next, reader.giveUp options kind [] [shape.closer, .comma] = some next ∧
      reader.Reaches next ∧ isSeparator shape next.current = true ∧
      ∀ state : State, PassesOver options shape state →
        (reader.report kind).resume options state = next.resume options state :=
  exists_skip options shape (reader.report kind)

/-- A token that is no separator is skipped itself. -/
theorem Reaches.advances {shape : Shape} (hreaches : reader.Reaches next)
    (hreader : isSeparator shape reader.current = false)
    (hnext : isSeparator shape next.current = true) : reader.Advances next := by
  rcases hreaches with hadvances | ⟨hcurrent, -⟩
  · exact hadvances
  · rw [hcurrent, hreader] at hnext
    contradiction

end Reader

end Document

end TaskFile
