import TaskFile.Json.Basic
import TaskFile.Proofs.Document.Decoding
import TaskFile.Proofs.Token.Literal

/-!
# Strict texts read

A text of strict JSON is read without a problem, and each of its tokens may stand in strict
JSON, so it has a tree (`exists_strictTree?_of_isObject`).

`Passes` is the step of this reading: from a state before a text to one behind it.  It is
composed along the text, with `ReadsValue` for values and `ReadsChild` for the children of a
container.  Both say of the node that is read what is asked for, above all what the text under
its span is (`Node.Spans`).  So the values of an object or array are left over as they were
written (`Json.container?_of_isObject`, `Json.strings?_of_lists`).
-/

namespace TaskFile

open Text Token

/-! ## Strict lexemes -/

/-- A lexeme that may stand in strict JSON. -/
def Lexeme.IsStrict (lexeme : Lexeme) : Prop :=
  lexeme.kind.isComment = false ∧
    (lexeme.kind = .blank → ∀ c ∈ lexeme.text, c = ' ' ∨ c = '\t')

theorem Lexeme.isStrict_of_isSignificant {lexeme : Lexeme}
    (hkind : lexeme.kind.isSignificant = true) : lexeme.IsStrict := by
  cases h : lexeme.kind <;> simp_all [IsStrict, Kind.isComment, Kind.isSignificant]

namespace Json

theorem isStrictToken_of_isStrict {token : Token} (htoken : token.toLexeme.IsStrict) :
    isStrictToken token = true := by
  by_cases hkind : token.kind = .blank
  · simpa [isStrictToken, hkind] using htoken.2 hkind
  · simp [isStrictToken, hkind]

theorem IsSpace.trivia {space : List Char} (hspace : IsSpace space) : Trivia space := by
  induction space with
  | nil => exact .nil
  | cons c space ih =>
    obtain ⟨hc, hrest⟩ := List.forall_mem_cons.1 hspace
    simp only [List.mem_cons, List.not_mem_nil, or_false] at hc
    rcases hc with rfl | rfl | rfl | rfl
    · exact .blank (by decide) (ih hrest)
    · exact .blank (by decide) (ih hrest)
    · exact .lineBreak rfl (ih hrest)
    · exact .lineBreak rfl (ih hrest)

/-- A lexeme that starts with white space and is made of it is strict. -/
theorem isStrict_first {c : Char} {cs : List Char} (hc : c ∈ [' ', '\t', '\n', '\r'])
    (htext : IsSpace (Lexeme.first c cs).text) : (Lexeme.first c cs).IsStrict := by
  have hblank (hblank : isBlank c = true) : (Lexeme.first c cs).IsStrict := by
    rw [Lexeme.first_of_isBlank hblank] at htext ⊢
    refine ⟨rfl, fun _ d hd => ?_⟩
    have hbreak : isLineBreak d = false := by
      refine Lexeme.isLineBreak_eq_false_of_isBlank ?_
      rcases List.mem_cons.1 hd with rfl | hd
      · exact hblank
      · exact List.all_eq_true.1 List.all_takeWhile d hd
    have hspace := htext d hd
    simp only [List.mem_cons, List.not_mem_nil, or_false] at hspace
    rcases hspace with rfl | rfl | rfl | rfl
    · exact .inl rfl
    · exact .inr rfl
    · contradiction
    · contradiction
  simp only [List.mem_cons, List.not_mem_nil, or_false] at hc
  rcases hc with rfl | rfl | rfl | rfl
  · exact hblank (by decide)
  · exact hblank (by decide)
  · exact ⟨rfl, by simp [Lexeme.first]⟩
  · rw [Lexeme.first]
    split <;> exact ⟨rfl, by simp⟩

end Json

/-- A node is over some text of a document. -/
def Node.Spans (whole text : List Char) (node : Node) : Prop :=
  node.span.slice? whole = some text

theorem Node.spans_of_append {whole front text rest : List Char}
    (hwhole : whole = front ++ (text ++ rest)) (kind : Node.Kind) (children : Forest) :
    Node.Spans whole text ⟨kind, ⟨width front, width front + width text⟩, children⟩ := by
  rw [Node.Spans, hwhole]
  exact slice?_width front text rest

namespace Document

open Lexeme Json

/-- What is left of a text has only strict tokens. -/
def IsStrict (text : List Char) : Prop :=
  ∀ offset, ∀ token ∈ (Remainder.mk offset text).tokens, token.toLexeme.IsStrict

variable {state next : State} {offset : Nat} {lexeme : Lexeme} {rest : List Char}

theorem isStrict_lexeme (hfirst : lexeme.IsFirst (lexeme.text ++ rest)) (hlexeme : lexeme.IsStrict)
    (hrest : IsStrict rest) : IsStrict (lexeme.text ++ rest) := by
  obtain ⟨c, cs, htext, rfl⟩ := hfirst
  intro offset token htoken
  rw [htext, Remainder.tokens_cons htext] at htoken
  rcases List.mem_cons.1 htoken with rfl | htoken
  · exact hlexeme
  · exact hrest _ token htoken

theorem isStrict_space {space : List Char} (hspace : IsSpace space) (hsolid : Solid rest)
    (hrest : IsStrict rest) : IsStrict (space ++ rest) := by
  induction hlength : space.length using Nat.strongRecOn generalizing space with
  | ind length ih =>
    by_cases hnil : space = []
    · subst hnil
      exact hrest
    · obtain ⟨lexeme, left, rfl, -, hne, -, -, hfirst⟩ := hspace.trivia.exists_isFirst hnil hsolid
      have hshorter : left.length < length := by
        have hpos := List.length_pos_iff.2 hne
        rw [List.length_append] at hlength
        omega
      obtain ⟨htext, hleft⟩ := List.forall_mem_append.1 hspace
      have hlexeme : lexeme.IsStrict := by
        obtain ⟨c, cs, hcons, rfl⟩ := hfirst
        refine isStrict_first (htext c ?_) htext
        have hhead : (first c cs).text.head? = some c := by
          have happend := congrArg List.head? hcons
          rwa [List.append_assoc, List.head?_append_of_ne_nil _ hne] at happend
        exact List.mem_of_mem_head? hhead
      rw [List.append_assoc] at hfirst ⊢
      exact isStrict_lexeme hfirst hlexeme (ih _ hshorter hleft rfl)

/-! ## Passing over a text -/

/-- From a state before a text one comes to a state behind it, over strict tokens. -/
structure Passes (state : State) (offset : Nat) (text rest : List Char) (next : State) : Prop where
  read : state.read offset (text ++ rest) = next.read (offset + width text) rest
  strict : IsStrict rest → IsStrict (text ++ rest)

theorem Passes.trans {middle : State} {front back : List Char}
    (hfront : Passes state offset front (back ++ rest) middle)
    (hback : Passes middle (offset + width front) back rest next) :
    Passes state offset (front ++ back) rest next where
  read := by rw [List.append_assoc, hfront.read, hback.read, width_append, Nat.add_assoc]
  strict hrest := by
    rw [List.append_assoc]
    exact hfront.strict (hback.strict hrest)

theorem passes_space {space : List Char} (hspace : IsSpace space) (hsolid : Solid rest)
    (state : State) (offset : Nat) : Passes state offset space rest state :=
  ⟨State.read_trivia hspace.trivia hsolid state offset, isStrict_space hspace hsolid⟩

/-- A lexeme is passed over by its token. -/
theorem passes_lexeme (hfirst : lexeme.IsFirst (lexeme.text ++ rest)) (hfault : lexeme.fault = none)
    (hkind : lexeme.kind.isSignificant = true) (hover : state.isOver = false)
    (hstep : state.step default ⟨lexeme, offset⟩ = (next, [])) :
    Passes state offset lexeme.text rest next :=
  ⟨State.read_lexeme hfirst (State.advance_significant hover hkind hfault hstep),
    isStrict_lexeme hfirst (isStrict_of_isSignificant hkind)⟩

theorem passes_punctuation {c : Char} {kind : Kind} (hc : punctuation? c = some kind)
    (hread : state.read offset (c :: rest) = next.read (offset + width [c]) rest) :
    Passes state offset [c] rest next := by
  have hkind : kind.isSignificant = true := by
    have hmem := mem_of_punctuation? hc
    cases kind <;> simp_all [Kind.isSignificant]
  exact ⟨hread, isStrict_lexeme (isFirst_punctuation hc rest) (isStrict_of_isSignificant hkind)⟩

variable {level : Level} {phase : Phase} {outer : List Frame}

theorem passes_open (hexpects : state.Expects outer) (shape : Shape) :
    Passes state offset [shape.open] rest (.within ⟨shape, offset, .nil⟩ .first outer) :=
  passes_punctuation (punctuation?_open shape) (read_open hexpects shape)

theorem passes_close (level : Level) (outer : List Frame) (offset : Nat) (rest : List Char)
    (hphase : phase = .first ∨ phase = .next) :
    Passes (.within level phase outer) offset [level.shape.close] rest
      (deliver (level.close (offset + width [level.shape.close])) outer) :=
  passes_punctuation (punctuation?_close level.shape) (read_close level outer offset rest hphase)

/-- A scalar is delivered with the span of its text. -/
theorem passes_scalar (hexpects : state.Expects outer)
    (hfirst : lexeme.IsFirst (lexeme.text ++ rest)) (hfault : lexeme.fault = none)
    {kind : Node.Kind} (hscalar : scalar? ⟨lexeme, offset⟩ = some (kind, [])) :
    Passes state offset lexeme.text rest
      (deliver ⟨kind, ⟨offset, offset + width lexeme.text⟩, .nil⟩ outer) := by
  have hkind : lexeme.kind.isSignificant = true := by
    have hliteral : lexeme.kind.isLiteral = true := isLiteral_of_scalar? hscalar
    cases h : lexeme.kind <;> simp_all [Kind.isLiteral, Kind.isSignificant]
  exact passes_lexeme hfirst hfault hkind hexpects.1 (hexpects.2 _ _ (enter?_of_scalar? hscalar))

theorem isFirst_quoted {body : List Char} (hbody : Escape.IsLiteral body) (rest : List Char) :
    (Lexeme.mk .string (quoted body) none).IsFirst (quoted body ++ rest) := by
  refine ⟨'"', body ++ '"' :: rest, by simp [quoted], ?_⟩
  rw [first, stringTail_append_of_isLiteral hbody]
  rfl

/-- A key is put in front of its colon with the span of its text. -/
theorem exists_passes_key {body : List Char} (hbody : Escape.IsLiteral body) (outer : List Frame)
    (offset : Nat) (rest : List Char) (hshape : level.shape = .object) (hphase : phase.IsOpen) :
    ∃ name, Passes (.within level phase outer) offset (quoted body) rest
      (.within level (.key ⟨⟨offset, offset + width (quoted body)⟩, name⟩) outer) :=
  ⟨_, passes_lexeme (isFirst_quoted hbody rest) rfl rfl rfl
    (proceed_key default hphase hshape rfl rfl)⟩

/-! ## Values and children -/

/-- How a text is read where a value is waited for: a node is delivered of which something is
true. -/
structure ReadsValue (whole : List Char) (Is : Node → Prop) (text : List Char) : Prop where
  reads : ∀ {state : State} {outer : List Frame} (front : List Char) {rest : List Char},
    whole = front ++ (text ++ rest) → state.Expects outer → Breaks rest →
    ∃ node, Is node ∧ Passes state (width front) text rest (deliver node outer)

/-- How a text is read where a child of a container may start: a node is put in the container
of which something is true. -/
structure ReadsChild (whole : List Char) (shape : Shape) (Is : Node → Prop)
    (text : List Char) : Prop where
  solid : ∀ rest, Solid (text ++ rest)
  reads : ∀ {level : Level} {phase : Phase} (outer : List Frame) (front : List Char)
      {rest : List Char},
    whole = front ++ (text ++ rest) → level.shape = shape → phase.IsOpen → Breaks rest →
    ∃ node, Is node ∧ Passes (.within level phase outer) (width front) text rest
      (.within (level.push node) .next outer)

variable {whole text : List Char} {Is : Node → Prop}

theorem ReadsValue.readsChild (hvalue : ReadsValue whole Is text)
    (hsolid : ∀ rest, Solid (text ++ rest)) : ReadsChild whole .array Is text :=
  ⟨hsolid, fun _ front _ hwhole hshape hphase hrest =>
    hvalue.reads front hwhole (expects_element hshape hphase) hrest⟩

/-! ## Containers -/

/-- A child with the white space around it is put in its container. -/
theorem ReadsChild.exists_passes {shape : Shape} {before after front : List Char}
    (hchild : ReadsChild whole shape Is text) (outer : List Frame) (hbefore : IsSpace before)
    (hafter : IsSpace after)
    (hwhole : whole = front ++ (before ++ (text ++ (after ++ rest)))) (hshape : level.shape = shape)
    (hphase : phase.IsOpen) (hbreaks : Breaks rest) (hsolid : Solid rest) :
    ∃ node, Is node ∧ Passes (.within level phase outer) (width front)
      (before ++ (text ++ after)) rest (.within (level.push node) .next outer) := by
  obtain ⟨node, hnode, hpasses⟩ := hchild.reads outer (front ++ before) (by simpa using hwhole)
    hshape hphase (breaks_trivia hafter.trivia hbreaks)
  rw [width_append] at hpasses
  refine ⟨node, hnode, .trans ?_ (hpasses.trans ?_)⟩
  · rw [List.append_assoc]
    exact passes_space hbefore (hchild.solid _) _ _
  · exact passes_space hafter hsolid _ _

/-- The parts of a container are put in it one after the other, up to where it is closed. -/
theorem exists_passes_separated {Part : Type} {write : Part → List Char} {parts : List Part}
    {Is : Part → Node → Prop} {shape : Shape} (htext : Separated write parts text)
    (hparts : ∀ part ∈ parts, ReadsChild whole shape (Is part) (write part))
    (level : Level) (outer : List Frame) {front : List Char}
    (hwhole : whole = front ++ (text ++ shape.close :: rest)) (hshape : level.shape = shape)
    (hphase : phase = .first ∨ phase = .comma ∧ parts ≠ []) :
    ∃ nodes phase', List.Forall₂ Is parts nodes ∧ (phase' = .first ∨ phase' = .next) ∧
      Passes (.within level phase outer) (width front) text (shape.close :: rest)
        (.within (nodes.foldl Level.push level) phase' outer) := by
  have hsolid := solid_close shape rest
  induction htext generalizing level phase front with
  | none hspace =>
    have hfirst : phase = .first := by simpa using hphase
    exact ⟨[], phase, .nil, .inl hfirst, passes_space hspace hsolid _ _⟩
  | last hbefore hafter =>
    obtain ⟨node, hnode, hpasses⟩ := (hparts _ List.mem_cons_self).exists_passes outer
      hbefore hafter (by simpa using hwhole) hshape (hphase.imp_right And.left)
      (breaks_close shape rest) hsolid
    exact ⟨[node], .next, .cons hnode .nil, .inr rfl, hpasses⟩
  | @more before part after parts others hbefore hafter hne _ ih =>
    obtain ⟨hpart, hothers⟩ := List.forall_mem_cons.1 hparts
    have hfront : whole = front ++ (before ++ (write part ++ (after ++
        ',' :: (others ++ shape.close :: rest)))) := by simpa using hwhole
    have hback : whole = front ++ (before ++ (write part ++ after)) ++ [','] ++
        (others ++ shape.close :: rest) := by simpa using hwhole
    obtain ⟨node, hnode, hpasses⟩ := hpart.exists_passes outer hbefore hafter hfront hshape
      (hphase.imp_right And.left) (breaks_comma _) (solid_cons (by decide) (by decide) _)
    obtain ⟨nodes, phase', hnodes, hphase', hrest⟩ :=
      ih hothers (level.push node) hback hshape (.inr ⟨rfl, hne⟩)
    have hcomma : Passes (.within (level.push node) .next outer)
        (width (front ++ (before ++ (write part ++ after)))) [',']
        (others ++ shape.close :: rest) (.within (level.push node) .comma outer) :=
      passes_punctuation rfl read_comma
    rw [width_append (front ++ _)] at hrest
    have hall := hpasses.trans ((width_append front _) ▸ hcomma.trans hrest)
    exact ⟨node :: nodes, phase', .cons hnode hnodes, hphase', by simpa using hall⟩

theorem start_foldl_push (nodes : List Node) (level : Level) :
    (nodes.foldl Level.push level).start = level.start := by
  induction nodes generalizing level with
  | nil => rfl
  | cons node nodes ih => exact ih _

/-- A container is delivered with its parts. -/
theorem readsValue_container {Part : Type} {write : Part → List Char} {parts : List Part}
    {Is : Part → Node → Prop} (shape : Shape) (htext : Separated write parts text)
    (hparts : ∀ part ∈ parts, ReadsChild whole shape (Is part) (write part)) :
    ReadsValue whole (fun node => node.Spans whole (shape.open :: (text ++ [shape.close])) ∧
      node.kind = shape.kind ∧ List.Forall₂ Is parts node.children.toList)
      (shape.open :: (text ++ [shape.close])) := by
  refine ⟨@fun state outer front rest hwhole hexpects _ => ?_⟩
  have hopened : whole = front ++ [shape.open] ++ (text ++ shape.close :: rest) := by
    simpa using hwhole
  obtain ⟨nodes, phase, hnodes, hphase, hinner⟩ := exists_passes_separated htext hparts
    ⟨shape, width front, .nil⟩ outer hopened rfl (.inl rfl)
  obtain ⟨hchildren, hshape⟩ := toList_foldl_push nodes ⟨shape, width front, .nil⟩
  have hstart := start_foldl_push nodes ⟨shape, width front, .nil⟩
  generalize nodes.foldl Level.push ⟨shape, width front, .nil⟩ = level
    at hinner hchildren hshape hstart
  subst hshape
  have hclose := passes_close level outer
    (width (front ++ [level.shape.open]) + width text) rest hphase
  rw [width_append] at hinner hclose
  have hpasses := (passes_open hexpects level.shape).trans (hinner.trans hclose)
  refine ⟨_, ⟨?spans, rfl, ?children⟩, hpasses⟩
  case spans =>
    have hspan : (⟨level.start, max level.start (width front + width [level.shape.open] +
        width text + width [level.shape.close])⟩ : Span) =
        ⟨width front, width front +
          width (level.shape.open :: (text ++ [level.shape.close]))⟩ := by
      simp only [hstart, width_cons, width_append, width_nil, Span.mk.injEq, true_and]
      omega
    rw [Level.close, hspan]
    exact Node.spans_of_append (by simpa using hwhole) _ _
  case children =>
    rw [Level.close, Forest.toList_reverse, hchildren]
    simpa using hnodes

theorem ReadsValue.imp {Was : Node → Prop} (hvalue : ReadsValue whole Was text)
    (himp : ∀ node, Was node → Is node) : ReadsValue whole Is text := by
  refine ⟨fun front _ hwhole hexpects hrest => ?_⟩
  obtain ⟨node, hnode, hpasses⟩ := hvalue.reads front hwhole hexpects hrest
  exact ⟨node, himp node hnode, hpasses⟩

/-! ## Members -/

/-- A scalar becomes a node over its text. -/
theorem readsValue_scalar (hfirst : ∀ rest, Breaks rest → lexeme.IsFirst (lexeme.text ++ rest))
    (hfault : lexeme.fault = none)
    (hscalar : ∀ offset, ∃ kind, scalar? ⟨lexeme, offset⟩ = some (kind, [])) :
    ReadsValue whole (·.Spans whole lexeme.text) lexeme.text := by
  refine ⟨fun front rest hwhole hexpects hrest => ?_⟩
  obtain ⟨kind, hscalar⟩ := hscalar (width front)
  exact ⟨_, Node.spans_of_append hwhole kind .nil,
    passes_scalar hexpects (hfirst rest hrest) hfault hscalar⟩

theorem readsValue_quoted {body : List Char} (hbody : Escape.IsLiteral body) :
    ReadsValue whole (·.Spans whole (quoted body)) (quoted body) :=
  readsValue_scalar (fun rest _ => isFirst_quoted hbody rest) rfl fun _ => ⟨_, rfl⟩

/-- What a property is: a key over its literal, and a value over its text. -/
def IsProperty (whole : List Char) (member : Member) (node : Node) : Prop :=
  ∃ key value, node.children.toList.head? = some key ∧ key.Spans whole (quoted member.key) ∧
    node.value? = some value ∧ value.Spans whole member.value

/-- A member becomes a property. -/
theorem readsChild_member {member : Member} (hmember : member.IsKeyed)
    (hvalue : ReadsValue whole (·.Spans whole member.value) member.value)
    (hsolid : ∀ rest, Solid (member.value ++ rest)) :
    ReadsChild whole .object (IsProperty whole member) member.text := by
  refine ⟨fun rest => solid_cons (by decide) (by decide) _,
    @fun level phase outer front rest hwhole hshape hphase hrest => ?_⟩
  obtain ⟨key, before, after, value⟩ := member
  rw [Member.text] at hwhole ⊢
  obtain ⟨name, hkey⟩ := exists_passes_key hmember.key outer (width front)
    (before ++ ':' :: (after ++ value) ++ rest) hshape hphase
  let named : Key := ⟨⟨width front, width front + width (quoted key)⟩, name⟩
  let colon := width front + width (quoted key) + width before
  obtain ⟨node, hnode, hpasses⟩ := hvalue.reads (front ++ quoted key ++ before ++ [':'] ++ after)
    (by simpa using hwhole) (expects_member level named colon outer) hrest
  simp only [width_append] at hpasses
  have hstops : Solid (':' :: (after ++ value) ++ rest) := solid_cons (by decide) (by decide) _
  have hbefore := passes_space hmember.before hstops (.within level (.key named) outer)
    (width front + width (quoted key))
  have hcolon : Passes (.within level (.key named) outer) colon [':'] (after ++ value ++ rest)
      (.within level (.colon named colon) outer) := passes_punctuation rfl (read_colon named)
  have hafter := passes_space hmember.after (hsolid rest)
    (.within level (.colon named colon) outer) (colon + width [':'])
  refine ⟨named.property (some colon) (some node) 0, ⟨⟨.string name, named.span, .nil⟩, node, rfl,
    Node.spans_of_append (by simpa using hwhole) _ _, rfl, hnode⟩,
    hkey.trans (hbefore.trans (hcolon.trans (hafter.trans hpasses)))⟩

/-! ## Values -/

/-- A value starts with no white space. -/
theorem solid_value (htext : IsValue text) (rest : List Char) : Solid (text ++ rest) := by
  cases htext with
  | null | yes | no | string | array | object => exact solid_cons (by decide) (by decide) _
  | number hnumber =>
    obtain ⟨numeral, hproper, -, rfl⟩ := hnumber.exists_numeral
    obtain ⟨c, cs, hchars, hstart⟩ := hproper.exists_startsAt rest
    have hpart : Numeral.isPart c = true := by
      rcases hstart with hdigit | ⟨rfl, -⟩
      · simp [Numeral.isPart, hdigit]
      · rfl
    obtain ⟨hblank, hbreak⟩ := isBlank_eq_false_of_isWordPart (isWordPart_of_isPart hpart)
    rw [hchars]
    exact solid_cons hblank hbreak _

theorem readsValue_word {c : Char} {cs : List Char} {kind : Node.Kind}
    (hword : (c :: cs).all isWordPart = true) (hdigit : isDigit c = false) (hminus : c ≠ '-')
    (hscalar : ∀ offset, scalar? ⟨⟨wordKind (c :: cs), c :: cs, none⟩, offset⟩ =
      some (kind, [])) : ReadsValue whole (·.Spans whole (c :: cs)) (c :: cs) :=
  readsValue_scalar (fun _ hrest => isFirst_word hword hdigit hminus hrest) rfl
    fun offset => ⟨kind, hscalar offset⟩

theorem readsValue_number (htext : Numeral.IsNumber 1 text) :
    ReadsValue whole (·.Spans whole text) text := by
  obtain ⟨numeral, hproper, hdigits, rfl⟩ := htext.exists_numeral
  have hcut : numeral.isCutOff = false := Numeral.isCutOff_eq_false_iff.2 hdigits
  obtain ⟨value, hvalue⟩ := Option.isSome_iff_exists.1 (Numeral.value?_isSome hcut)
  have hscalar (offset : Nat) :
      scalar? ⟨⟨.number, numeral.chars, none⟩, offset⟩ = some (.number value, []) := by
    simp [scalar?, Numeral.ofChars_chars hproper, hvalue]
  exact readsValue_scalar (fun _ hrest => isFirst_number hproper hcut hrest) rfl
    fun offset => ⟨_, hscalar offset⟩

/-- Every value is read as a node over its text. -/
theorem readsValue_of_isValue (htext : IsValue text) :
    ReadsValue whole (·.Spans whole text) text := by
  induction htext with
  | null => exact readsValue_word (by decide) (by decide) (by decide) fun _ => rfl
  | yes => exact readsValue_word (by decide) (by decide) (by decide) fun _ => rfl
  | no => exact readsValue_word (by decide) (by decide) (by decide) fun _ => rfl
  | number hnumber => exact readsValue_number hnumber
  | string hbody => exact readsValue_quoted hbody
  | @array items text hitems htext ih =>
    have hchildren : ∀ item ∈ items,
        ReadsChild whole .array (·.Spans whole item) (id item) :=
      fun item hitem => (ih item hitem).readsChild (solid_value (hitems item hitem))
    exact (readsValue_container .array htext hchildren).imp fun _ hnode => hnode.1
  | @object members text hkeys hvalues htext ih =>
    have hchildren : ∀ member ∈ members,
        ReadsChild whole .object (IsProperty whole member) member.text :=
      fun member hmember => readsChild_member (hkeys member hmember) (ih member hmember)
        (solid_value (hvalues member hmember))
    exact (readsValue_container .object htext hchildren).imp fun _ hnode => hnode.1

/-! ## Whole texts -/

theorem isStrict_nil : IsStrict [] := by
  intro offset token htoken
  rw [Remainder.tokens_nil] at htoken
  contradiction

/-- Where there are no comments, those that are forbidden are no problem. -/
theorem run_strictOptions {tokens : List Token}
    (htokens : ∀ token ∈ tokens, token.kind.isComment = false) (state : State) :
    state.run strictOptions tokens = state.run default tokens := by
  induction tokens generalizing state with
  | nil => rfl
  | cons token tokens ih =>
    obtain ⟨htoken, htokens⟩ := List.forall_mem_cons.1 htokens
    have hproblems : token.problems strictOptions.forbidComments =
        token.problems (default : Options).forbidComments := by
      simp [Token.problems, htoken]
    have hstep : state.step strictOptions token = state.step default token := rfl
    have hadvance : state.advance strictOptions token = state.advance default token := by
      rw [State.advance, State.advance, hproblems, hstep]
    rw [State.run_cons, State.run_cons, hadvance, ih htokens]

/-- A text without a problem and with strict tokens has its tree. -/
theorem strictTree?_of_passes {root : Node} (hpasses : Passes .start 0 whole [] (.root root)) :
    strictTree? whole = some root := by
  have hstrict := hpasses.strict isStrict_nil
  rw [List.append_nil] at hstrict
  have htokens : ∀ token ∈ Token.ofText whole, token.toLexeme.IsStrict := hstrict 0
  have hcomments : ∀ token ∈ Token.ofText whole ++ [Token.endOf whole],
      token.kind.isComment = false :=
    List.forall_mem_append.2 ⟨fun token htoken => (htokens token htoken).1, by simp [endOf]; rfl⟩
  have hrun : State.start.run strictOptions (Token.ofText whole ++ [Token.endOf whole]) =
      (.over (some root), []) := by
    have hread := hpasses.read
    rw [List.append_nil, read_end, State.read, Nat.zero_add] at hread
    rw [run_strictOptions hcomments]
    exact hread
  have hall : (Token.ofText whole).all isStrictToken = true :=
    List.all_eq_true.2 fun token htoken => isStrictToken_of_isStrict (htokens token htoken)
  rw [strictTree?, ofTokens_eq_run, hrun, hall]
  rfl

/-- A value with white space around it has its tree. -/
theorem ReadsValue.exists_strictTree? {before after : List Char}
    (hwhole : whole = before ++ (text ++ after)) (hbefore : IsSpace before)
    (hafter : IsSpace after) (hsolid : ∀ rest, Solid (text ++ rest))
    (hvalue : ReadsValue whole Is text) : ∃ root, Is root ∧ strictTree? whole = some root := by
  have hbreaks : Breaks after := by
    have htrivia := breaks_trivia hafter.trivia breaks_nil
    rwa [List.append_nil] at htrivia
  obtain ⟨root, hroot, hpasses⟩ := hvalue.reads before hwhole expects_start hbreaks
  have hfront : Passes .start 0 before (text ++ after ++ []) .start := by
    rw [List.append_nil]
    exact passes_space hbefore (hsolid after) .start 0
  have hback : Passes (.root root) (width before + width text) after [] (.root root) :=
    passes_space hafter (by simp [Solid]) _ _
  rw [← List.append_nil after] at hpasses
  refine ⟨root, hroot, strictTree?_of_passes ?_⟩
  rw [hwhole]
  refine hfront.trans ?_
  rw [Nat.zero_add]
  exact hpasses.trans hback

/-- An object has its tree, with a property for each of its members in their order. -/
theorem exists_strictTree?_of_isObject {members : List Member}
    (hobject : IsObject members whole) :
    ∃ root, strictTree? whole = some root ∧ root.kind = .object ∧
      List.Forall₂ (IsProperty whole) members root.children.toList := by
  obtain ⟨before, inner, after, hwhole, hbefore, hinner, hafter⟩ := hobject.text
  have hmembers : ∀ member ∈ members,
      ReadsChild whole .object (IsProperty whole member) member.text :=
    fun member hmember => readsChild_member (hobject.keys member hmember)
      (readsValue_of_isValue (hobject.values member hmember))
      (solid_value (hobject.values member hmember))
  obtain ⟨root, ⟨-, hkind, hchildren⟩, htree⟩ :=
    (readsValue_container .object hinner hmembers).exists_strictTree? hwhole hbefore hafter
      fun rest => solid_cons (by decide) (by decide) _
  exact ⟨root, htree, hkind, hchildren⟩

/-- An array of literals has its tree, with a node over each of them in their order. -/
theorem exists_strictTree?_of_literals {Part : Type} {body : Part → List Char}
    {parts : List Part} (hbodies : ∀ part ∈ parts, Escape.IsLiteral (body part))
    (htext : Separated (fun part => quoted (body part)) parts text)
    (hwhole : whole = '[' :: (text ++ [']'])) :
    ∃ root, strictTree? whole = some root ∧ root.kind = .array ∧
      List.Forall₂ (fun part => Node.Spans whole (quoted (body part))) parts
        root.children.toList := by
  have hitems : ∀ part ∈ parts, ReadsChild whole .array
      (Node.Spans whole (quoted (body part))) (quoted (body part)) :=
    fun part hpart => (readsValue_quoted (hbodies part hpart)).readsChild
      fun rest => solid_cons (by decide) (by decide) _
  have halone : whole = [] ++ ('[' :: (text ++ [']']) ++ []) := by simpa using hwhole
  obtain ⟨root, ⟨-, hkind, hchildren⟩, htree⟩ :=
    (readsValue_container .array htext hitems).exists_strictTree? halone isSpace_nil isSpace_nil
      fun rest => solid_cons (by decide) (by decide) _
  exact ⟨root, htree, hkind, hchildren⟩

end Document

/-! ## Containers read -/

namespace Json

/-- What is read from each of some things is read from all of them. -/
theorem mapM_of_forall₂ {Value Item : Type} {read : Item → Option Value} {values : List Value}
    {items : List Item}
    (hread : List.Forall₂ (fun value item => read item = some value) values items) :
    items.mapM read = some values := by
  induction hread with
  | nil => rfl
  | cons hitem _ ih => simp [List.mapM_cons, hitem, ih]

/-- A literal that spells a string is read as this string. -/
theorem ofLiteral?_of_spells {value : String} {body : List Char}
    (hbody : Escape.Spells value.toList body) : ofLiteral? (quoted body) = some value := by
  rw [quoted, ofLiteral?, List.dropLast_concat, Escape.decode?_of_spells hbody, Option.map_some,
    String.ofList_toList]

theorem literal?_of_spells {text body : List Char} {node : Node} {value : String}
    (hnode : node.Spans text (quoted body)) (hbody : Escape.Spells value.toList body) :
    literal? text node.span = some value := by
  rw [literal?, hnode, Option.bind_some, ofLiteral?_of_spells hbody]

/-- A property is read as its member, the name decoded and the value as it is written. -/
theorem member?_of_isProperty {text : List Char} {name : String} {member : Member} {node : Node}
    (hproperty : Document.IsProperty text member node)
    (hname : Escape.Spells name.toList member.key) :
    member? text node = some (name, member.value) := by
  obtain ⟨key, value, hkey, hliteral, hvalue, hspans⟩ := hproperty
  have htext : value.span.slice? text = some member.value := hspans
  simp [member?, hkey, hvalue, literal?_of_spells hliteral hname, htext]

/-- An object is read as its members in their order, with the names that their keys spell. -/
theorem container?_of_isObject {fields : List (String × Member)} {text : List Char}
    (hobject : IsObject (fields.map (·.2)) text)
    (hnames : ∀ field ∈ fields, Escape.Spells field.1.toList field.2.key) :
    container? text = some (.object (fields.map fun field => (field.1, field.2.value))) := by
  obtain ⟨root, htree, hkind, hchildren⟩ := Document.exists_strictTree?_of_isObject hobject
  have hmembers : root.children.toList.mapM (member? text) =
      some (fields.map fun field => (field.1, field.2.value)) := by
    refine mapM_of_forall₂ (List.forall₂_map_left_iff.2 ?_)
    have hproperties := List.forall₂_map_left_iff.1 hchildren
    refine ((List.forall₂_and_left _ _).2 ⟨hnames, hproperties⟩).imp fun field node hboth => ?_
    exact member?_of_isProperty hboth.2 hboth.1
  simp [container?, htree, hkind, hmembers]

/-- An array of strings is read as the list of its strings. -/
theorem strings?_of_lists {values : List String} {text : List Char} (htext : Lists values text) :
    strings? text = some values := by
  obtain ⟨spellings, inner, rfl, rfl, hspellings, hinner⟩ := htext
  have hbodies : ∀ spelling ∈ spellings, Escape.IsLiteral spelling.2 :=
    fun spelling hspelling => ⟨_, Escape.denotes_of_spells (hspellings spelling hspelling)⟩
  obtain ⟨root, htree, hkind, hchildren⟩ :=
    Document.exists_strictTree?_of_literals hbodies hinner rfl
  generalize '[' :: (inner ++ [']']) = whole at htree hchildren ⊢
  have hitems : root.children.toList.mapM (fun item => item.span.slice? whole) =
      some (spellings.map fun spelling => quoted spelling.2) :=
    mapM_of_forall₂ (List.forall₂_map_left_iff.2 hchildren)
  have hstrings : (spellings.map fun spelling => quoted spelling.2).mapM ofLiteral? =
      some (spellings.map (·.1)) := by
    refine mapM_of_forall₂ (List.forall₂_map_left_iff.2 (List.forall₂_map_right_iff.2 ?_))
    exact List.forall₂_same.2 fun spelling hspelling =>
      ofLiteral?_of_spells (hspellings spelling hspelling)
  simp [strings?, container?, htree, hkind, hitems, hstrings]

end Json

end TaskFile
