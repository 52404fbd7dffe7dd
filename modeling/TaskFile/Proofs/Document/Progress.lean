import TaskFile.Proofs.Document.Descent
import TaskFile.Proofs.Document.Stop

/-!
# Progress of the descent

Every round of the loops of the descent comes to a later token or leaves its loop, and so the
descent of a text ends.  It has then asked for some of the tokens of the text, each of them and
the end at most once, and what it has read is the document of the text (`isProductive_ofText`).

The induction is on the tokens that are left.  `Reader.ReadsValue` is what it says of a value,
in front of any reading state that asks for one.  A round is taken apart in `exists_child` and
`exists_round`: after a comma it has moved already, and where no comma is in front of a token
that starts no child, that token is no separator and so it is skipped.
-/

namespace TaskFile.Document

variable {options : Options} {level : Level} {outer : List Frame} {token : Token}

/-! ## States at separators -/

/-- What is no child is passed over. -/
theorem passesOver_lost (options : Options) (level : Level) (outer : List Frame) :
    Reader.PassesOver options level.shape (.within level .lost outer) := by
  refine ⟨rfl, fun token hseparator => ?_⟩
  simp [State.step, proceed, skip, hseparator]

theorem passesOver_stuck (options : Options) (level : Level) (outer : List Frame) (key : Key)
    (colon : Option Nat) :
    Reader.PassesOver options level.shape (.within level (.stuck key colon) outer) := by
  refine ⟨rfl, fun token hseparator => ?_⟩
  simp [State.step, proceed, abandon, hseparator]

/-- A separator separates where a child is finished. -/
theorem step_next_of_isSeparator (options : Options) (outer : List Frame)
    (hseparator : isSeparator level.shape token = true) :
    (State.within level .next outer).step options token = separate level outer token := by
  simp [State.step, proceed, hseparator]

/-- After something that is no child a container goes on at a separator as after a child, once
more reported in an object. -/
theorem step_lost_of_isSeparator (options : Options) (outer : List Frame)
    (hseparator : isSeparator level.shape token = true) :
    (State.within level .lost outer).step options token =
      ((State.within level .next outer).step options token).after
        (if level.shape = .object then [complain .valueExpected token] else []) := by
  rw [step_next_of_isSeparator options outer hseparator]
  simp [State.step, proceed, skip, hseparator]

/-- A property that has been given up is finished at a separator. -/
theorem step_stuck_of_isSeparator (options : Options) (outer : List Frame) (key : Key)
    (colon : Option Nat) (hseparator : isSeparator level.shape token = true) :
    (State.within level (.stuck key colon) outer).step options token =
      (State.within (level.push (key.property colon none
        (if token.kind = .comma then token.start else token.stop))) .next outer).step options
        token := by
  have hpushed (node : Node) : isSeparator (level.push node).shape token = true := hseparator
  rw [step_next_of_isSeparator options outer (hpushed _)]
  simp [State.step, proceed, abandon, hseparator]

/-- The end of the text finishes a container, and then it does what it does behind the
container. -/
theorem step_finish (options : Options) (outer : List Frame) (hkind : token.kind = .finish) :
    (State.within level .next outer).step options token =
      ((deliver (level.close token.stop) outer).step options token).after
        [complain level.shape.unclosed token] := by
  have hseparator (shape : Shape) : isSeparator shape token = true :=
    isSeparator_iff.2 (.inr (.inr hkind))
  rw [step_next_of_isSeparator options outer (hseparator _)]
  cases outer with
  | nil => simp [separate, hkind, deliver, State.step, unwind, Move.after]
  | cons frame outer =>
    rw [deliver, step_next_of_isSeparator options outer (hseparator _)]
    simp [separate, hkind, unwind, Move.after]

namespace Reader

variable {reader next : Reader} {state : State}

/-! ## Parts of a document -/

/-- How a value is read: it is delivered where it was asked for, or the current token starts
none and nothing has been done. -/
def ReadsValue (options : Options) (reader : Reader) : Prop :=
  (∃ node next, reader.value options = some (some node, next) ∧ reader.Advances next ∧
    (∀ outer, (enter? outer reader.current).isSome = true) ∧
    ∀ state outer, State.Asks state outer →
      reader.resume options state = next.resume options (deliver node outer)) ∨
  reader.value options = some (none, reader) ∧ ∀ outer, enter? outer reader.current = none

/-- A token that is no container is read as a scalar or as nothing. -/
theorem readsValue_scalar (hopener : ∀ shape : Shape, reader.current.kind ≠ shape.opener) :
    reader.ReadsValue options := by
  have hvalue : reader.value options = reader.scalar options := by
    have hobject : reader.current.kind ≠ .braceOpen := hopener .object
    have harray : reader.current.kind ≠ .bracketOpen := hopener .array
    rw [value, if_neg hobject, if_neg harray]
  rw [ReadsValue, hvalue, scalar]
  cases hscalar : scalar? reader.current with
  | none =>
    refine .inr ⟨rfl, fun outer => enter?_eq_none ?_ hopener⟩
    cases hliteral : reader.current.kind.isLiteral with
    | false => rfl
    | true =>
      cases hkind : reader.current.kind <;>
        simp_all [scalar?, Token.Kind.isLiteral]
      split at hscalar <;> contradiction
  | some found =>
    obtain ⟨kind, problems⟩ := found
    have hliteral := isLiteral_of_scalar? hscalar
    have hfinish : (reader.meet problems).current.kind ≠ .finish := by
      intro hkind
      rw [show reader.current.kind = .finish from hkind] at hliteral
      contradiction
    obtain ⟨next, hscan, hadvances, hgoOn⟩ := exists_scan options hfinish
    refine .inl ⟨⟨kind, reader.current.span, .nil⟩, next, by simp [hscan], hadvances,
      fun outer => ?_, fun state outer hasks => ?_⟩
    · rw [enter?_of_scalar? hscalar]
      rfl
    · rw [resume_eq_goOn (step_of_asks options hasks (enter?_of_scalar? hscalar)),
        hgoOn _ (isOver_deliver _ _)]

/-- Where a container has no child, tokens are skipped up to a separator. -/
theorem exists_lost (options : Options) (kind : Problem.Kind) (reader : Reader)
    (level : Level) :
    ∃ next, reader.giveUp options kind [] [level.shape.closer, .comma] = some next ∧
      reader.Reaches next ∧ isSeparator level.shape next.current = true ∧
      ∀ (state : State) (outer : List Frame),
        state.step options reader.current =
          ((State.within level .lost outer).step options reader.current).after
            [complain kind reader.current] →
        reader.resume options state =
          (next.meet (if level.shape = .object then [complain .valueExpected next.current]
            else [])).resume options (.within level .next outer) := by
  obtain ⟨next, hgiveUp, hreaches, hseparator, hskip⟩ :=
    exists_giveUp options kind level.shape reader
  refine ⟨next, hgiveUp, hreaches, hseparator, fun state outer hstep => ?_⟩
  rw [resume_of_step hstep, ← report, hskip _ (passesOver_lost options level outer),
    resume_of_step (step_lost_of_isSeparator options outer hseparator)]

/-! ## Properties -/

/-- Behind a key an object waits for the colon. -/
theorem exists_named (options : Options) (hstring : reader.current.kind = .string) :
    ∃ named, reader.scan options = some named ∧ reader.Advances named ∧
      ∀ state level outer, level.shape = .object →
        state.step options reader.current = Document.child level outer reader.current →
        reader.resume options state =
          named.resume options (.within level (.key reader.key) outer) := by
  have hfinish : reader.current.kind ≠ .finish := by simp [hstring]
  obtain ⟨named, hscan, hadvances, hgoOn⟩ := exists_scan options hfinish
  refine ⟨named, hscan, hadvances, fun state level outer hshape hstep => ?_⟩
  have hkeyed : state.step options reader.current =
      (.within level (.key reader.key) outer, []) := by
    rw [hstep, Document.child, hshape]
    simp [hstring, key]
  rw [resume_eq_goOn hkeyed, ← hgoOn _ rfl]
  simp [meet]

/-- Behind a colon an object waits for the value. -/
theorem exists_colon (options : Options) (hcolon : reader.current.kind = .colon) :
    ∃ next, reader.scan options = some next ∧ reader.Advances next ∧
      ∀ level key outer, reader.resume options (.within level (.key key) outer) =
        next.resume options (.within level (.colon key reader.current.start) outer) := by
  have hfinish : reader.current.kind ≠ .finish := by simp [hcolon]
  obtain ⟨next, hscan, hadvances, hgoOn⟩ := exists_scan options hfinish
  refine ⟨next, hscan, hadvances, fun level key outer => ?_⟩
  have hstep : (State.within level (.key key) outer).step options reader.current =
      (.within level (.colon key reader.current.start) outer, []) := by
    simp [State.step, proceed, hcolon]
  rw [resume_eq_goOn hstep, ← hgoOn _ rfl]
  simp [meet]

/-- A property that lacks something is kept without a value. -/
theorem exists_stuck (options : Options) (kind : Problem.Kind) (reader : Reader) (key : Key)
    (colon : Option Nat) :
    ∃ last, reader.giveUp options kind [] [.braceClose, .comma] = some last ∧
      reader.Reaches last ∧
      ∀ (state : State) (level : Level) (outer : List Frame), level.shape = .object →
        state.step options reader.current =
          ((State.within level (.stuck key colon) outer).step options reader.current).after
            [complain kind reader.current] →
        reader.resume options state = last.resume options
          (.within (level.push (key.property colon none last.bareStop)) .next outer) := by
  obtain ⟨last, hgiveUp, hreaches, hseparator, hskip⟩ :=
    exists_giveUp options kind .object reader
  refine ⟨last, hgiveUp, hreaches, fun state level outer hshape hstep => ?_⟩
  have hpasses := passesOver_stuck options level outer key colon
  rw [hshape] at hpasses
  rw [resume_of_step hstep, ← report, hskip _ hpasses,
    resume_congr (step_stuck_of_isSeparator options outer key colon (hshape ▸ hseparator))]
  rfl

/-- How a property with a key is read: it is kept, with what there is of it. -/
theorem exists_property_of_string
    (hvalues : ∀ other, reader.Advances other → other.ReadsValue options)
    (hstring : reader.current.kind = .string) :
    ∃ node next, reader.property options = some (some node, next) ∧ reader.Advances next ∧
      ∀ state level outer, level.shape = .object →
        state.step options reader.current = Document.child level outer reader.current →
        reader.resume options state =
          next.resume options (.within (level.push node) .next outer) := by
  obtain ⟨named, hnamed, hkey, hchild⟩ := exists_named options hstring
  rw [property, if_pos hstring]
  by_cases hcolon : named.current.kind = .colon
  · obtain ⟨after, hafter, hpast, hcolonStep⟩ := exists_colon options hcolon
    rcases hvalues after (hkey.trans hpast) with ⟨node, next, hvalue, hadvances, -, hdeliver⟩ |
      ⟨hvalue, hnone⟩
    · refine ⟨reader.key.property (some named.current.start) (some node) 0, next,
        by simp [hnamed, hcolon, hafter, hvalue], (hkey.trans hpast).trans hadvances,
        fun state level outer hshape hstep => ?_⟩
      rw [hchild state level outer hshape hstep, hcolonStep, hdeliver _ _ .member]
      rfl
    · obtain ⟨last, hgiveUp, hreaches, hstuck⟩ := exists_stuck options
        .valueExpected after reader.key (some named.current.start)
      refine ⟨reader.key.property (some named.current.start) none last.bareStop, last,
        by simp [hnamed, hcolon, hafter, hvalue, hgiveUp], (hkey.trans hpast).reaches hreaches,
        fun state level outer hshape hstep => ?_⟩
      rw [hchild state level outer hshape hstep, hcolonStep]
      refine hstuck _ level outer hshape ?_
      simp [State.step, proceed, hnone]
  · obtain ⟨last, hgiveUp, hreaches, hstuck⟩ := exists_stuck options
      .colonExpected named reader.key none
    refine ⟨reader.key.property none none last.bareStop, last,
      by simp [hnamed, hcolon, hgiveUp], hkey.reaches hreaches,
      fun state level outer hshape hstep => ?_⟩
    rw [hchild state level outer hshape hstep]
    refine hstuck _ level outer hshape ?_
    simp [State.step, proceed, hcolon]

/-! ## Children -/

/-- How a child of an object is read: a property, or tokens are skipped. -/
theorem exists_child_object (hvalues : ∀ other, reader.Advances other → other.ReadsValue options)
    (hshape : level.shape = .object) :
    ∃ more next, reader.child options level = some (true, more, next) ∧
      more.shape = level.shape ∧ reader.Reaches next ∧
      (isSeparator level.shape reader.current = false → reader.Advances next) ∧
      ∀ state outer,
        state.step options reader.current = Document.child level outer reader.current →
        reader.resume options state = next.resume options (.within more .next outer) := by
  rw [child, hshape]
  by_cases hstring : reader.current.kind = .string
  · obtain ⟨node, next, hproperty, hadvances, hresume⟩ := exists_property_of_string hvalues hstring
    exact ⟨level.push node, next, by simp [hproperty], hshape, .inl hadvances,
      fun _ => hadvances, fun state outer => hresume state level outer hshape⟩
  · obtain ⟨next, hgiveUp, hreaches, hseparator, hlost⟩ :=
      exists_lost options .nameExpected reader level
    rw [hshape] at hgiveUp hseparator
    -- The property reports and skips; then the loop reports once more and has nothing to skip.
    have hproperty : reader.property options = some (none, next) := by
      rw [property, if_neg hstring]
      simp [show reader.giveUp options .nameExpected [] [.braceClose, .comma] = some next
        from hgiveUp]
    have hstays := giveUp_of_isSeparator options .valueExpected hseparator
    refine ⟨level, next.report .valueExpected, by simp [hproperty, hstays], hshape, hreaches,
      fun hreader => hreaches.advances hreader hseparator, fun state outer hstep => ?_⟩
    rw [hlost state outer, if_pos hshape, report]
    rw [hstep, Document.child, hshape]
    simp [hstring, State.step, proceed]

/-- How a child of an array is read: a value, or tokens are skipped. -/
theorem exists_child_array (hvalue : reader.ReadsValue options) (hshape : level.shape = .array) :
    ∃ more next, reader.child options level = some (true, more, next) ∧
      more.shape = level.shape ∧ reader.Reaches next ∧
      (isSeparator level.shape reader.current = false → reader.Advances next) ∧
      ∀ state outer,
        state.step options reader.current = Document.child level outer reader.current →
        reader.resume options state = next.resume options (.within more .next outer) := by
  rw [child, hshape]
  rcases hvalue with ⟨node, next, hvalue, hadvances, hsome, hdeliver⟩ | ⟨hvalue, hnone⟩
  · refine ⟨level.push node, next, by simp [hvalue], hshape, .inl hadvances,
      fun _ => hadvances, fun state outer hstep => ?_⟩
    have hasks : State.Asks (.within level .comma outer) (.element level :: outer) :=
      .element (.inr rfl) hshape
    obtain ⟨move, hmove⟩ := Option.isSome_iff_exists.1 (hsome (.element level :: outer))
    have hsame : state.step options reader.current =
        (State.within level .comma outer).step options reader.current := by
      rw [hstep, step_of_asks options hasks hmove, Document.child, hshape]
      simp [hmove]
    rw [resume_congr hsame, hdeliver _ _ hasks]
    rfl
  · obtain ⟨next, hgiveUp, hreaches, hseparator, hlost⟩ :=
      exists_lost options .valueExpected reader level
    rw [hshape] at hgiveUp hseparator
    refine ⟨level, next, by simp [hvalue, hgiveUp], hshape, hreaches,
      fun hreader => hreaches.advances hreader hseparator, fun state outer hstep => ?_⟩
    have hnothing : (if level.shape = .object then [complain .valueExpected next.current]
        else []) = [] := if_neg (by simp [hshape])
    rw [hlost state outer, hnothing]
    · simp [meet]
    · rw [hstep, Document.child, hshape]
      simp [hnone, State.step, proceed]

/-- How a child is read: it is put in its container, or tokens are skipped. -/
theorem exists_child (hvalues : ∀ other, reader.Reaches other → other.ReadsValue options)
    (level : Level) :
    ∃ more next, reader.child options level = some (true, more, next) ∧
      more.shape = level.shape ∧ reader.Reaches next ∧
      (isSeparator level.shape reader.current = false → reader.Advances next) ∧
      ∀ state outer,
        state.step options reader.current = Document.child level outer reader.current →
        reader.resume options state = next.resume options (.within more .next outer) := by
  cases hshape : level.shape with
  | object =>
    rw [← hshape]
    exact exists_child_object (fun other hother => hvalues other (.inl hother)) hshape
  | array =>
    rw [← hshape]
    exact exists_child_array (hvalues reader (.refl _)) hshape

/-! ## Loops -/

/-- What a container waits for where its loop starts over. -/
def phase (needsComma : Bool) : Phase := if needsComma then .next else .first

/-- The loop ends before the token that closes the container and at the end of the text. -/
def IsLast (level : Level) (reader : Reader) : Prop :=
  reader.current.kind = level.shape.closer ∨ reader.current.kind = .finish

/-- Behind a comma a container asks for a child.  The comma is passed, and it is reported where
no child is in front of it. -/
theorem exists_comma (options : Options) (needsComma : Bool)
    (hcomma : reader.current.kind = .comma) :
    ∃ next, (if needsComma then reader else reader.report .valueExpected).scan options =
        some next ∧ reader.Advances next ∧
      ∀ level outer, reader.resume options (.within level (phase needsComma) outer) =
        next.resume options (.within level .comma outer) := by
  let problems : List Problem :=
    if needsComma then [] else [complain .valueExpected reader.current]
  have hreport : (if needsComma then reader else reader.report .valueExpected) =
      reader.meet problems := by
    cases needsComma with
    | false => rfl
    | true => simp [problems, meet]
  have hfinish : (reader.meet problems).current.kind ≠ .finish := by simp [meet, hcomma]
  obtain ⟨next, hscan, hadvances, hgoOn⟩ := exists_scan options hfinish
  refine ⟨next, hreport ▸ hscan, hadvances, fun level outer => ?_⟩
  have hstep : (State.within level (phase needsComma) outer).step options reader.current =
      (.within level .comma outer, problems) := by
    cases needsComma with
    | false => simp [phase, problems, State.step, proceed, hcomma, separate_comma, Move.after]
    | true => simp [phase, problems, State.step, proceed, isSeparator, hcomma, separate_comma]
  rw [resume_eq_goOn hstep, hgoOn _ rfl]

/-- Without a comma a container asks for a child as well, and a missing comma is reported. -/
theorem resume_phase (needsComma : Bool) (outer : List Frame)
    (hseparator : isSeparator level.shape reader.current = false) :
    reader.resume options (.within level (phase needsComma) outer) =
      (if needsComma then reader.report .commaExpected else reader).resume options
        (.within level .comma outer) := by
  have hcomma : (State.within level .comma outer).step options reader.current =
      Document.child level outer reader.current := proceed_eq_child options (.inr rfl) hseparator
  cases needsComma with
  | false => exact resume_congr ((proceed_eq_child options (.inl rfl) hseparator).trans hcomma.symm)
  | true =>
    refine resume_of_step ?_
    rw [hcomma]
    simp [phase, State.step, proceed, hseparator]

/-- Every round of the loop comes to a later token, and it leaves the loop only before the token
that closes the container. -/
theorem exists_round (hvalues : ∀ other, reader.Reaches other → other.ReadsValue options)
    {level : Level} (needsComma : Bool) (hreader : ¬reader.IsLast level) :
    ∃ goesOn more next, reader.round options level needsComma = some (goesOn, more, next) ∧
      more.shape = level.shape ∧ reader.Advances next ∧ (goesOn = false → next.IsLast more) ∧
      ∀ outer, reader.resume options (.within level (phase needsComma) outer) =
        next.resume options (.within more .next outer) := by
  obtain ⟨hcloser, hfinish⟩ := not_or.1 hreader
  rw [round]
  by_cases hcomma : reader.current.kind = .comma
  -- Behind a comma the reader has moved already, whatever becomes of the child.
  · obtain ⟨next, hscan, hadvances, hresume⟩ := exists_comma options needsComma hcomma
    rw [if_pos hcomma, hscan, Option.bind_eq_bind, Option.bind_some]
    cases htrailing : next.current.kind = level.shape.closer && options.trailingComma with
    | true =>
      simp only [Bool.and_eq_true, decide_eq_true_eq] at htrailing
      obtain ⟨hkind, hallowed⟩ := htrailing
      refine ⟨false, level, next, rfl, rfl, hadvances, fun _ => .inl hkind, fun outer => ?_⟩
      rw [hresume]
      refine resume_congr ?_
      rw [step_next_of_isSeparator options outer (isSeparator_of_closer hkind)]
      simp [State.step, proceed, hkind, hallowed]
    | false =>
      have hlater : ∀ other, next.Reaches other → other.ReadsValue options := fun other hother =>
        hvalues other (.inl (hadvances.reaches hother))
      obtain ⟨more, last, hchild, hshape, hreaches, -, hlast⟩ := exists_child hlater level
      refine ⟨true, more, last, hchild, hshape, hadvances.reaches hreaches, by simp,
        fun outer => ?_⟩
      rw [hresume, hlast]
      simp [State.step, proceed, htrailing]
  -- Any other token is no separator, and so either a child is read or the token is skipped.
  · have hseparator : isSeparator level.shape reader.current = false := by
      simp [isSeparator, hcloser, hfinish, hcomma]
    let asking : Reader := if needsComma then reader.report .commaExpected else reader
    have hcurrent : asking.current = reader.current ∧ asking.ahead = reader.ahead ∧
        asking.asked = reader.asked := by
      cases needsComma <;> exact ⟨rfl, rfl, rfl⟩
    have hasking : ∀ other, asking.Reaches other → other.ReadsValue options := by
      cases needsComma <;> exact hvalues
    obtain ⟨more, next, hchild, hshape, -, hadvances, hresume⟩ := exists_child hasking level
    rw [if_neg hcomma]
    refine ⟨true, more, next, hchild, hshape, ?_, by simp, fun outer => ?_⟩
    · have hlater := hadvances (hcurrent.1 ▸ hseparator)
      rwa [Advances, hcurrent.2.1, hcurrent.2.2] at hlater
    · rw [resume_phase needsComma outer hseparator]
      exact hresume _ _ (proceed_eq_child options (.inr rfl) (hcurrent.1 ▸ hseparator))

/-- The loop ends with all children. -/
theorem exists_children (hvalues : ∀ other, reader.Reaches other → other.ReadsValue options)
    (level : Level) (needsComma : Bool) :
    ∃ more next, reader.children options level needsComma = some (more, next) ∧
      more.shape = level.shape ∧ reader.Reaches next ∧ next.IsLast more ∧
      ∀ outer, reader.resume options (.within level (phase needsComma) outer) =
        next.resume options (.within more .next outer) := by
  induction hlength : reader.ahead.length using Nat.strongRecOn
    generalizing reader level needsComma with
  | ind length ih =>
    rw [children]
    by_cases hlast : reader.IsLast level
    · refine ⟨level, reader, if_pos hlast, rfl, .refl _, hlast, fun outer => resume_congr ?_⟩
      have hseparator : isSeparator level.shape reader.current = true :=
        isSeparator_iff.2 (.inr hlast)
      have hcomma : reader.current.kind ≠ .comma := by
        rcases hlast with hkind | hkind
        · exact hkind ▸ closer_ne_comma _
        · simp [hkind]
      cases needsComma <;> simp [phase, State.step, proceed, hseparator, hcomma]
    · obtain ⟨goesOn, more, next, hround, hshape, hadvances, hleaves, hresume⟩ :=
        exists_round hvalues needsComma hlast
      rw [if_neg (show ¬(_ ∨ _) from hlast), hround]
      cases goesOn with
      | false => exact ⟨more, next, rfl, hshape, .inl hadvances, hleaves rfl, hresume⟩
      | true =>
        have hlater : ∀ other, next.Reaches other → other.ReadsValue options :=
          fun other hother => hvalues other (.inl (hadvances.reaches hother))
        obtain ⟨final, last, hrest, hshape', hreaches, hlast, hresume'⟩ :=
          ih _ (hlength ▸ hadvances.length_lt) hlater more true rfl
        exact ⟨final, last, hrest, hshape'.trans hshape, .inl (hadvances.reaches hreaches), hlast,
          fun outer => (hresume outer).trans (hresume' outer)⟩

/-! ## Values -/

/-- Where the loop has ended, the container is finished: it has been closed, or it is not and
nothing is left to be skipped. -/
theorem exists_leave (options : Options) (hlast : reader.IsLast level) :
    ∃ next, reader.leave options level.shape = some next ∧ reader.Reaches next ∧
      ∀ outer, reader.resume options (.within level .next outer) =
        next.resume options (deliver (level.close reader.current.stop) outer) := by
  rcases hlast with hcloser | hend
  · have hopen : reader.current.kind ≠ .finish := hcloser ▸ closer_ne_finish _
    obtain ⟨next, hscan, hadvances, hgoOn⟩ := exists_scan options hopen
    refine ⟨next, by rw [leave, if_pos hcloser, hscan], .inl hadvances, fun outer => ?_⟩
    have hstep : (State.within level .next outer).step options reader.current =
        (deliver (level.close reader.current.stop) outer, []) := by
      rw [step_next_of_isSeparator options outer (isSeparator_of_closer hcloser),
        separate_closer hcloser]
    rw [resume_eq_goOn hstep, ← hgoOn _ (isOver_deliver _ _)]
    simp [meet]
  · have hclosed : reader.current.kind ≠ level.shape.closer := hend ▸ (closer_ne_finish _).symm
    have hgiveUp : reader.giveUp options level.shape.unclosed [level.shape.closer] [] =
        some (reader.report level.shape.unclosed) := by
      have hskip : reader.giveUp options level.shape.unclosed [level.shape.closer] [] =
          (reader.report level.shape.unclosed).skip options [level.shape.closer] [] := rfl
      rw [hskip, skip]
      exact if_pos hend
    refine ⟨reader.report level.shape.unclosed, by rw [leave, if_neg hclosed, hgiveUp], .refl _,
      fun outer => ?_⟩
    rw [resume_of_step (step_finish options outer hend), ← report]

/-- A container is delivered. -/
theorem readsValue_container (hvalues : ∀ other, reader.Advances other → other.ReadsValue options)
    {shape : Shape} (hkind : reader.current.kind = shape.opener) : reader.ReadsValue options := by
  have hvalue : reader.value options = reader.container options shape := by
    rw [value]
    cases shape <;> simp [hkind, Shape.opener]
  have hfinish : reader.current.kind ≠ .finish := by
    rw [hkind]
    cases shape <;> simp [Shape.opener]
  obtain ⟨opened, hscan, hopened, hgoOn⟩ := exists_scan options hfinish
  obtain ⟨more, last, hchildren, hshape, hreaches, hlast, hresume⟩ :=
    exists_children (fun other hother => hvalues other (hopened.reaches hother))
      ⟨shape, reader.current.start, .nil⟩ false
  obtain ⟨next, hleave, hbehind, hdeliver⟩ := exists_leave options hlast
  rw [show more.shape = shape from hshape] at hleave
  refine .inl ⟨more.close last.current.stop, next, ?_, (hopened.reaches hreaches).reaches hbehind,
    fun outer => ?_, fun state outer hasks => ?_⟩
  · rw [hvalue, container]
    simp [hscan, hchildren, hleave]
  · rw [enter?_opener hkind]
    rfl
  · have hopen : reader.resume options state =
        opened.resume options (.within ⟨shape, reader.current.start, .nil⟩ .first outer) := by
      rw [resume_eq_goOn (step_of_asks options hasks (enter?_opener hkind)), ← hgoOn _ rfl]
      simp [meet]
    rw [hopen, ← hdeliver, ← hresume]
    rfl

/-- Every reader reads a value, or finds none. -/
theorem readsValue (options : Options) (reader : Reader) : reader.ReadsValue options := by
  induction hlength : reader.ahead.length using Nat.strongRecOn generalizing reader with
  | ind length ih =>
    by_cases hopener : ∃ shape : Shape, reader.current.kind = shape.opener
    · obtain ⟨shape, hkind⟩ := hopener
      exact readsValue_container
        (fun other hother => ih _ (hlength ▸ hother.length_lt) other rfl) hkind
    · exact readsValue_scalar (not_exists.1 hopener)

/-! ## Whole documents -/

/-- The tokens of a text are asked for up to the current one. -/
def Stands (text : List Char) (reader : Reader) : Prop :=
  reader.asked ++ reader.ahead = Token.ofText text ++ [Token.endOf text] ∧
    reader.asked.getLast? = some reader.current

variable {text : List Char}

/-- A reader of a text that has come to a later token stands further back in the text. -/
theorem Stands.advances (hstands : reader.Stands text) (hadvances : reader.Advances next) :
    next.Stands text ∧ reader.current.start < next.current.start := by
  have hasks := hadvances.asked_append
  obtain ⟨passed, hahead, hasked⟩ := hadvances
  refine ⟨⟨hasks.trans hstands.1, by simp [hasked]⟩, ?_⟩
  obtain ⟨front, hfront⟩ := List.getLast?_eq_some_iff.1 hstands.2
  have horder := Token.pairwise_start text
  rw [← hstands.1, hfront, hahead, List.append_assoc] at horder
  have hbehind := (List.pairwise_append.1 horder).2.1
  exact List.rel_of_pairwise_cons hbehind (by simp)

theorem toEnd_whole (text : List Char) :
    (Remainder.whole text).toEnd = Token.ofText text ++ [Token.endOf text] := by
  simp [Remainder.toEnd, Remainder.whole, Token.ofText, Token.endOf]

/-- The end of a document, where only problems are left to be reported. -/
theorem goOn_of_isOver (options : Options) (tree : Option Node) (reader : Reader) :
    reader.goOn options (.over tree) = (.over tree, reader.problems) := by
  rw [goOn, State.run_of_isOver options rfl]
  simp [Move.after]

/-- The first token of a text is asked for, and from there on the document is read. -/
theorem exists_first (options : Options) (text : List Char) :
    ∃ first, (initial text).scan options = some first ∧ first.Stands text ∧
      ofText options text =
        ⟨(first.resume options .start).1.tree, (first.resume options .start).2⟩ := by
  obtain ⟨first, passed, hscan, hahead, hasked, hrun⟩ :=
    exists_scan_run options (initial text)
  have hstart : State.start.run options (Token.ofText text ++ [Token.endOf text]) =
      first.resume options .start := by
    rw [← hrun .start rfl, ← toEnd_whole text]
    simp [initial, Move.after]
  refine ⟨first, hscan, ⟨?_, by simp [hasked]⟩, by rw [ofText, ofTokens_eq_run, hstart]⟩
  rw [← toEnd_whole, show (Remainder.whole text) = (initial text).remainder from rfl, hahead,
    hasked]
  simp [initial]

/-- The descent of a text ends with the document of the text. -/
theorem exists_document (options : Options) (text : List Char) :
    ∃ last, document options text = some (ofText options text, last) ∧
      last.asked ++ last.ahead = Token.ofText text ++ [Token.endOf text] := by
  obtain ⟨first, hscan, ⟨htokens, -⟩, hdocument⟩ := exists_first options text
  rw [document, hscan, Option.bind_eq_bind, Option.bind_some]
  by_cases hfinish : first.current.kind = .finish
  · have hstep : State.start.step options first.current =
        (.over none, if options.emptyDocument then []
          else [complain .valueExpected first.current]) := if_pos hfinish
    rw [hdocument, resume_eq_goOn hstep, goOn_of_isOver, if_pos hfinish]
    cases options.emptyDocument with
    | false => exact ⟨_, rfl, htokens⟩
    | true => exact ⟨first, by simp [meet, State.tree], htokens⟩
  rw [if_neg hfinish]
  rcases readsValue options first with ⟨node, next, hvalue, hadvances, -, hdeliver⟩ |
    ⟨hvalue, hnone⟩
  · have hstep : (State.root node).step options next.current =
        (.over (some node), if next.current.kind = .finish then []
          else [complain .endExpected next.current]) := rfl
    rw [hdocument, hdeliver _ _ .start, deliver, resume_eq_goOn hstep, goOn_of_isOver, hvalue]
    by_cases hend : next.current.kind = .finish
    · exact ⟨next, by simp [hend, meet, State.tree], hadvances.asked_append.trans htokens⟩
    · exact ⟨next.report .endExpected, by simp [hend, meet, report, State.tree],
        hadvances.asked_append.trans htokens⟩
  · have hstep : State.start.step options first.current =
        (.over none, [complain .valueExpected first.current]) := by
      simp [State.step, hfinish, hnone]
    rw [hdocument, resume_eq_goOn hstep, goOn_of_isOver, hvalue]
    exact ⟨_, rfl, htokens⟩

end Reader

/-- What makes the descent of a text end, and what it comes to. -/
structure IsProductive (options : Options) (text : List Char) : Prop where
  /-- The first token is found. -/
  first : ∃ reader, (Reader.initial text).scan options = some reader ∧ reader.Stands text
  /-- Every round of the loop over the children of a container comes to a later token. -/
  round : ∀ (level : Level) (needsComma : Bool) (reader : Reader), reader.Stands text →
    ¬reader.IsLast level →
      ∃ goesOn more next, reader.round options level needsComma = some (goesOn, more, next) ∧
        next.Stands text ∧ reader.current.start < next.current.start
  /-- Every round of the loop that skips tokens comes to a later token or leaves the loop. -/
  skipRound : ∀ (behind before : List Token.Kind) (reader : Reader), reader.Stands text →
    reader.current.kind ≠ .finish →
      ∃ goesOn next, reader.skipRound options behind before = some (goesOn, next) ∧
        (goesOn = true → next.Stands text ∧ reader.current.start < next.current.start)
  /-- The descent ends with the document.  It has asked for tokens from the front of the text
  on, for each of them once and for the end at most once. -/
  ends : ∃ reader, Reader.document options text = some (ofText options text, reader) ∧
    reader.asked <+: Token.ofText text ++ [Token.endOf text] ∧ reader.asked.Nodup ∧
    reader.asked.countP (·.kind == .finish) ≤ 1

/-- **The descent makes progress.**  Every round of its loops comes to a later token or leaves
the loop, whatever the current token is.  So the descent of every text ends, and it asks for no
token twice. -/
theorem isProductive_ofText (options : Options) (text : List Char) :
    IsProductive options text := by
  refine ⟨?first, fun level needsComma reader hstands hreader => ?round,
    fun behind before reader hstands hfinish => ?skipRound, ?ends⟩
  case first =>
    obtain ⟨reader, hscan, hstands, -⟩ := Reader.exists_first options text
    exact ⟨reader, hscan, hstands⟩
  case round =>
    obtain ⟨goesOn, more, next, hround, -, hadvances, -⟩ :=
      Reader.exists_round (fun other _ => Reader.readsValue options other) needsComma hreader
    exact ⟨goesOn, more, next, hround, hstands.advances hadvances⟩
  case skipRound =>
    obtain ⟨next, hscan, hadvances, -⟩ := Reader.exists_scan options hfinish
    rw [Reader.skipRound, hscan]
    split
    · exact ⟨false, next, rfl, by simp⟩
    split
    · exact ⟨false, reader, rfl, by simp⟩
    · exact ⟨true, next, rfl, fun _ => hstands.advances hadvances⟩
  case ends =>
    obtain ⟨last, hdocument, htokens⟩ := Reader.exists_document options text
    have hfront : last.asked <+: Token.ofText text ++ [Token.endOf text] := ⟨_, htokens⟩
    refine ⟨last, hdocument, hfront, ?_, ?_⟩
    · refine List.Pairwise.imp (fun hlt heq => ?_)
        ((Token.pairwise_start text).sublist hfront.sublist)
      exact absurd (congrArg Token.start heq) (Nat.ne_of_lt hlt)
    · refine Nat.le_trans (hfront.sublist.countP_le) ?_
      have hnone : (Token.ofText text).countP (·.kind == .finish) = 0 := by
        refine List.countP_eq_zero.2 fun token htoken => ?_
        simpa using (isSound_of_mem_tokens htoken).1
      rw [List.countP_append, hnone, Nat.zero_add]
      exact List.countP_le_length

end TaskFile.Document
