import TaskFile.Proofs.Document.Move
import TaskFile.Proofs.Json.Grammar
import TaskFile.Proofs.Tree.Layout

/-!
# Texts of values read back

A text that is written for a value is read without a problem, and its tree
means the value (`ofText_of_isText`).

`State.read` is the reading from a state on, with the offset and the text that
are left.  It takes one lexeme at a time off the front (`read_lexeme`) and passes
over trivia (`read_trivia`).  `Reads` says for each thing that can be written how
it is read, in front of any text that does not continue it and from any state
that waits for it.  The induction is on the way it was written.
-/

namespace TaskFile.Document

open Text Token Lexeme

/-! ## Reading from the front -/

/-- The reading of what is left of a text from an offset on, up to its end. -/
def State.read (state : State) (offset : Nat) (text : List Char) : Move :=
  state.run default ((Remainder.mk offset text).tokens ++ [Token.atEnd (offset + width text)])

variable {state next : State} {offset : Nat} {lexeme : Lexeme} {rest : List Char}

/-- A lexeme without a problem is taken off the front. -/
theorem State.read_lexeme (hfirst : lexeme.IsFirst (lexeme.text ++ rest))
    (hadvance : state.advance default ⟨lexeme, offset⟩ = (next, [])) :
    state.read offset (lexeme.text ++ rest) = next.read (offset + width lexeme.text) rest := by
  obtain ⟨c, cs, htext, rfl⟩ := hfirst
  rw [read, htext, Remainder.tokens_cons htext, List.cons_append, run_cons, hadvance,
    Move.after_nil, ← htext, width_append, ← Nat.add_assoc]
  rfl

/-- Trivia changes nothing. -/
theorem State.advance_trivia (state : State) {token : Token} (hkind : token.kind.isTrivia = true)
    (hfault : token.fault = none) : state.advance default token = (state, []) := by
  obtain ⟨hsignificant, hstray⟩ := Kind.isTrivia_iff.1 hkind
  have hproblems : token.problems (default : Options).forbidComments = [] :=
    (problems_token_eq_nil_iff _ token).2 ⟨hfault, hstray, nofun⟩
  unfold advance
  split
  · rfl
  · simp [hsignificant, hproblems]

/-- Trivia is passed over. -/
theorem State.read_trivia {trivia : List Char} (htrivia : Trivia trivia) (hrest : Solid rest)
    (state : State) (offset : Nat) :
    state.read offset (trivia ++ rest) = state.read (offset + width trivia) rest := by
  induction hlength : trivia.length using Nat.strongRecOn generalizing trivia offset with
  | ind length ih =>
    by_cases hnil : trivia = []
    · subst hnil
      rfl
    · obtain ⟨lexeme, left, rfl, hleft, hne, hkind, hfault, hfirst⟩ :=
        htrivia.exists_isFirst hnil hrest
      have hshorter : left.length < length := by
        have hpos := List.length_pos_iff.2 hne
        rw [List.length_append] at hlength
        omega
      rw [List.append_assoc] at hfirst ⊢
      rw [read_lexeme hfirst (advance_trivia state hkind hfault), ih _ hshorter hleft _ rfl,
        width_append, Nat.add_assoc]

/-! ## Waiting for a value -/

/-- A state that goes on with the first token of a value, which it will deliver
to the given containers. -/
def State.Expects (state : State) (outer : List Frame) : Prop :=
  state.isOver = false ∧
    ∀ token move, enter? outer token = some move → state.step default token = move

theorem expects_start : State.start.Expects [] :=
  ⟨rfl, fun _ _ henter => step_of_asks default .start henter⟩

variable {level : Level} {phase : Phase} {outer : List Frame}

/-- The phases of a container in which a child may start. -/
def Phase.IsOpen (phase : Phase) : Prop := phase = .first ∨ phase = .comma

theorem expects_element (hshape : level.shape = .array) (hphase : phase.IsOpen) :
    (State.within level phase outer).Expects (.element level :: outer) :=
  ⟨rfl, fun _ _ henter => step_of_asks default (.element hphase hshape) henter⟩

theorem expects_member (level : Level) (key : Key) (colon : Nat) (outer : List Frame) :
    (State.within level (.colon key colon) outer).Expects (.member level key colon :: outer) :=
  ⟨rfl, fun _ _ henter => step_of_asks default .member henter⟩

/-! ## Single lexemes -/

theorem State.advance_significant {token : Token} (hover : state.isOver = false)
    (hkind : token.kind.isSignificant = true) (hfault : token.fault = none)
    (hstep : state.step default token = (next, [])) :
    state.advance default token = (next, []) := by
  have hstray : token.kind ≠ .stray := by
    intro hstray
    rw [hstray] at hkind
    contradiction
  have hproblems : token.problems (default : Options).forbidComments = [] :=
    (problems_token_eq_nil_iff _ token).2 ⟨hfault, hstray, nofun⟩
  rw [advance_eq_step default hover hkind, hproblems, hstep, Move.after_nil]

/-- A scalar is delivered. -/
theorem read_scalar (hexpects : state.Expects outer) (hfirst : lexeme.IsFirst (lexeme.text ++ rest))
    (hfault : lexeme.fault = none) {kind : Node.Kind}
    (hscalar : scalar? ⟨lexeme, offset⟩ = some (kind, [])) :
    ∃ span, state.read offset (lexeme.text ++ rest) =
      (deliver ⟨kind, span, .nil⟩ outer).read (offset + width lexeme.text) rest := by
  have hkind : lexeme.kind.isSignificant = true := by
    have hliteral : lexeme.kind.isLiteral = true := isLiteral_of_scalar? hscalar
    cases h : lexeme.kind <;> simp_all [Kind.isLiteral, Kind.isSignificant]
  have hstep := hexpects.2 _ _ (enter?_of_scalar? hscalar)
  exact ⟨_, State.read_lexeme hfirst (State.advance_significant hexpects.1 hkind hfault hstep)⟩

/-- A character of punctuation is taken off the front. -/
theorem read_punctuation {c : Char} {kind : Kind} (hc : punctuation? c = some kind)
    (hover : state.isOver = false)
    (hstep : state.step default ⟨⟨kind, [c], none⟩, offset⟩ = (next, [])) :
    state.read offset (c :: rest) = next.read (offset + width [c]) rest := by
  have hkind : kind.isSignificant = true := by
    have hmem := mem_of_punctuation? hc
    cases kind <;> simp_all [Kind.isSignificant]
  exact State.read_lexeme (isFirst_punctuation hc rest)
    (State.advance_significant hover hkind rfl hstep)

/-- The character that opens a container. -/
def Shape.open : Shape → Char
  | .object => '\x7b'
  | .array => '['

/-- The character that closes a container. -/
def Shape.close : Shape → Char
  | .object => '\x7d'
  | .array => ']'

theorem punctuation?_open (shape : Shape) : punctuation? shape.open = some shape.opener := by
  cases shape <;> rfl

theorem punctuation?_close (shape : Shape) : punctuation? shape.close = some shape.closer := by
  cases shape <;> rfl

theorem read_open (hexpects : state.Expects outer) (shape : Shape) :
    state.read offset (shape.open :: rest) =
      (State.within ⟨shape, offset, .nil⟩ .first outer).read
        (offset + width [shape.open]) rest := by
  refine read_punctuation (punctuation?_open shape) hexpects.1 (hexpects.2 _ _ ?_)
  cases shape <;> rfl

theorem read_close (level : Level) (outer : List Frame) (offset : Nat) (rest : List Char)
    (hphase : phase = .first ∨ phase = .next) :
    (State.within level phase outer).read offset (level.shape.close :: rest) =
      (deliver (level.close (offset + width [level.shape.close])) outer).read
        (offset + width [level.shape.close]) rest :=
  read_punctuation (punctuation?_close level.shape) rfl
    (proceed_closer (hphase.imp_right .inl) rfl)

theorem read_comma :
    (State.within level .next outer).read offset (',' :: rest) =
      (State.within level .comma outer).read (offset + width [',']) rest :=
  read_punctuation rfl rfl rfl

theorem read_colon (key : Key) :
    (State.within level (.key key) outer).read offset (':' :: rest) =
      (State.within level (.colon key offset) outer).read (offset + width [':']) rest :=
  read_punctuation rfl rfl rfl

/-- A key is taken off the front where a child of an object may start. -/
theorem read_key (outer : List Frame) (offset : Nat) (rest : List Char) {name : String}
    {body : List Char} (hbody : Escape.Spells name.toList body)
    (hshape : level.shape = .object) (hphase : phase.IsOpen) :
    ∃ span, (State.within level phase outer).read offset ('"' :: (body ++ ['"']) ++ rest) =
      (State.within level (.key ⟨span, name⟩) outer).read
        (offset + width ('"' :: (body ++ ['"']))) rest := by
  have hname : (Lexeme.mk .string ('"' :: (body ++ ['"'])) none).string?.getD "" = name := by
    rw [string?_of_spells hbody, String.ofList_toList, Option.getD_some]
  exact ⟨_, State.read_lexeme (isFirst_string hbody rest)
    (State.advance_significant rfl rfl rfl (proceed_key default hphase hshape rfl hname))⟩

/-! ## What follows -/

theorem breaks_nil : Breaks [] := by
  intro c hc
  contradiction

theorem breaks_comma (rest : List Char) : Breaks (',' :: rest) := by
  intro c hc
  obtain rfl := Option.some.inj hc
  decide

theorem breaks_close (shape : Shape) (rest : List Char) : Breaks (shape.close :: rest) := by
  intro c hc
  obtain rfl := Option.some.inj hc
  cases shape <;> decide

theorem solid_cons {c : Char} (hblank : isBlank c = false) (hbreak : isLineBreak c = false)
    (rest : List Char) : Solid (c :: rest) := by
  intro d hd
  obtain rfl := Option.some.inj hd
  exact ⟨hblank, hbreak⟩

theorem solid_close (shape : Shape) (rest : List Char) : Solid (shape.close :: rest) := by
  cases shape <;> exact solid_cons (by decide) (by decide) rest

/-- Trivia ends a word, and where there is none what follows it does. -/
theorem breaks_trivia {trivia : List Char} (htrivia : Trivia trivia) (hrest : Breaks rest) :
    Breaks (trivia ++ rest) := by
  intro c hc
  cases htrivia with
  | nil => exact hrest c hc
  | blank hblank =>
    obtain rfl := Option.some.inj hc
    simp [isWordPart, hblank]
  | lineBreak hbreak =>
    obtain rfl := Option.some.inj hc
    simp [isWordPart, hbreak]
  | block =>
    obtain rfl := Option.some.inj hc
    decide
  | line =>
    obtain rfl := Option.some.inj hc
    decide

/-- A part starts with a lexeme that is no trivia. -/
theorem solid_part {part : Json.Part} {text : List Char} (htext : Json.Writes (.part part) text)
    (rest : List Char) : Solid (text ++ rest) := by
  cases htext with
  | null => exact solid_cons (by decide) (by decide) _
  | yes => exact solid_cons (by decide) (by decide) _
  | no => exact solid_cons (by decide) (by decide) _
  | string => exact solid_cons (by decide) (by decide) _
  | array => exact solid_cons (by decide) (by decide) _
  | object => exact solid_cons (by decide) (by decide) _
  | field => exact solid_cons (by decide) (by decide) _
  | number hproper hcut =>
    obtain ⟨c, cs, hchars, hstart⟩ := hproper.exists_startsAt rest
    have hpart : Numeral.isPart c = true := by
      rcases hstart with hdigit | ⟨rfl, -⟩
      · simp [Numeral.isPart, hdigit]
      · rfl
    obtain ⟨hblank, hbreak⟩ := isBlank_eq_false_of_isWordPart (isWordPart_of_isPart hpart)
    rw [hchars]
    exact solid_cons hblank hbreak _

/-! ## Everything that is written -/

/-- Where a part can stand in a container. -/
def Shape.Holds (shape : Shape) : Json.Part → Prop
  | .value _ => shape = .array
  | .field _ _ => shape = .object

/-- How something that is written is read: a value is delivered, a field is put
in its object, and all parts of a container are put in it one after the other,
up to where it is closed. -/
def Reads : Json.Written → List Char → Prop
  | .part (.value json), text =>
    ∀ (state : State) (outer : List Frame) (offset : Nat) (rest : List Char),
      state.Expects outer → Breaks rest →
      ∃ node : Node, node.Means (.value json) ∧
        state.read offset (text ++ rest) = (deliver node outer).read (offset + width text) rest
  | .part (.field name json), text =>
    ∀ (level : Level) (phase : Phase) (outer : List Frame) (offset : Nat) (rest : List Char),
      level.shape = .object → phase.IsOpen → Breaks rest →
      ∃ node : Node, node.Means (.field name json) ∧
        (State.within level phase outer).read offset (text ++ rest) =
          (State.within (level.push node) .next outer).read (offset + width text) rest
  | .parts parts, text =>
    ∀ (level : Level) (phase : Phase) (outer : List Frame) (offset : Nat) (rest : List Char),
      (phase = .first ∨ phase = .comma ∧ parts ≠ []) →
      (∀ part ∈ parts, level.shape.Holds part) →
      ∃ nodes phase', List.Forall₂ Node.Means nodes parts ∧
        (phase' = Phase.first ∨ phase' = .next) ∧
        (State.within level phase outer).read offset (text ++ level.shape.close :: rest) =
          (State.within (nodes.foldl Level.push level) phase' outer).read (offset + width text)
            (level.shape.close :: rest)

/-- A part is put in a container that can hold it. -/
theorem reads_part {part : Json.Part} {text : List Char} (hreads : Reads (.part part) text)
    (hholds : level.shape.Holds part) (hphase : phase.IsOpen) (hrest : Breaks rest) :
    ∃ node : Node, node.Means part ∧
      (State.within level phase outer).read offset (text ++ rest) =
        (State.within (level.push node) .next outer).read (offset + width text) rest := by
  cases part with
  | value json => exact hreads _ _ offset rest (expects_element hholds hphase) hrest
  | field name json => exact hreads level phase outer offset rest hholds hphase hrest

theorem toList_foldl_push (nodes : List Node) (level : Level) :
    (nodes.foldl Level.push level).children.toList = nodes.reverse ++ level.children.toList ∧
      (nodes.foldl Level.push level).shape = level.shape := by
  induction nodes generalizing level with
  | nil => exact ⟨rfl, rfl⟩
  | cons node nodes ih =>
    rw [List.foldl_cons]
    refine ⟨?_, (ih (level.push node)).2⟩
    rw [(ih (level.push node)).1, List.reverse_cons, List.append_assoc]
    rfl

/-- A container is delivered with what was put in it. -/
theorem reads_container {shape : Shape} {parts : List Json.Part} {text : List Char}
    (hreads : Reads (.parts parts) text) (hholds : ∀ part ∈ parts, shape.Holds part)
    (hexpects : state.Expects outer) :
    ∃ nodes span forest, List.Forall₂ Node.Means nodes parts ∧ Forest.toList forest = nodes ∧
      state.read offset (shape.open :: (text ++ [shape.close]) ++ rest) =
        (deliver ⟨shape.kind, span, forest⟩ outer).read
          (offset + width (shape.open :: (text ++ [shape.close]))) rest := by
  obtain ⟨nodes, phase, hnodes, hphase, hinner⟩ :=
    hreads ⟨shape, offset, .nil⟩ .first outer (offset + width [shape.open]) rest (.inl rfl) hholds
  obtain ⟨hchildren, hshape⟩ := toList_foldl_push nodes ⟨shape, offset, .nil⟩
  generalize nodes.foldl Level.push ⟨shape, offset, .nil⟩ = level at hinner hchildren hshape
  subst hshape
  have hclose :=
    read_close level outer (offset + width [level.shape.open] + width text) rest hphase
  let stop := offset + width (level.shape.open :: (text ++ [level.shape.close]))
  refine ⟨nodes, ⟨level.start, max level.start stop⟩, level.children.reverse, hnodes, ?_, ?_⟩
  · rw [Forest.toList_reverse, hchildren]
    simp
  · have hwidth : offset + width [level.shape.open] + width text + width [level.shape.close] =
        offset + width (level.shape.open :: (text ++ [level.shape.close])) := by
      simp only [width_cons, width_append, width_nil]
      omega
    rw [hwidth] at hclose
    calc state.read offset (level.shape.open :: (text ++ [level.shape.close]) ++ rest)
        = state.read offset (level.shape.open :: (text ++ level.shape.close :: rest)) := by simp
      _ = _ := read_open hexpects level.shape
      _ = _ := hinner
      _ = _ := hclose

theorem reads_word {json : Json} {c : Char} {cs : List Char} {kind : Node.Kind}
    (hmeans : ∀ span, Node.Means ⟨kind, span, .nil⟩ (.value json))
    (hword : (c :: cs).all isWordPart = true) (hdigit : isDigit c = false) (hminus : c ≠ '-')
    (hscalar : ∀ offset, scalar? ⟨⟨wordKind (c :: cs), c :: cs, none⟩, offset⟩ =
      some (kind, [])) : Reads (.part (.value json)) (c :: cs) := by
  intro state outer offset rest hexpects hrest
  obtain ⟨span, hread⟩ :=
    read_scalar hexpects (isFirst_word hword hdigit hminus hrest) rfl (hscalar offset)
  exact ⟨_, hmeans span, hread⟩

theorem reads_number {numeral : Numeral} (hproper : numeral.IsProper)
    (hcut : numeral.isCutOff = false) :
    Reads (.part (.value (.number numeral))) numeral.chars := by
  intro state outer offset rest hexpects hrest
  obtain ⟨value, hvalue⟩ := Option.isSome_iff_exists.1 (Numeral.value?_isSome hcut)
  have hback : Numeral.ofChars numeral.chars = numeral := by
    have happend := Numeral.ofChars_chars_append hproper breaks_nil.ends
    rwa [List.append_nil] at happend
  have hscalar : scalar? ⟨⟨.number, numeral.chars, none⟩, offset⟩ = some (.number value, []) := by
    simp [scalar?, hback, hvalue]
  obtain ⟨span, hread⟩ := read_scalar hexpects (isFirst_number hproper hcut hrest) rfl hscalar
  exact ⟨_, .number hvalue span, hread⟩

theorem reads_string {value : String} {body : List Char}
    (hbody : Escape.Spells value.toList body) :
    Reads (.part (.value (.string value))) ('"' :: (body ++ ['"'])) := by
  intro state outer offset rest hexpects hrest
  have hscalar : scalar? ⟨⟨.string, '"' :: (body ++ ['"']), none⟩, offset⟩ =
      some (.string value, []) := by
    simp [scalar?, string?_of_spells hbody]
  obtain ⟨span, hread⟩ := read_scalar hexpects (isFirst_string hbody rest) rfl hscalar
  exact ⟨_, .string value span, hread⟩

/-- A field is its key, a colon and its value, which becomes the value of the
property with the key. -/
theorem reads_field {name : String} {json : Json} {key before after text : List Char}
    (hkey : Escape.Spells name.toList key) (hbefore : Trivia before) (hafter : Trivia after)
    (htext : Json.Writes (.part (.value json)) text) (hreads : Reads (.part (.value json)) text) :
    Reads (.part (.field name json))
      ('"' :: (key ++ ['"']) ++ (before ++ ':' :: (after ++ text))) := by
  intro level phase outer offset rest hshape hphase hrest
  obtain ⟨span, hname⟩ :=
    read_key outer offset (before ++ ':' :: (after ++ (text ++ rest))) hkey hshape hphase
  generalize hplace : offset + width ('"' :: (key ++ ['"'])) + width before = place
  obtain ⟨node, hnode, hvalue⟩ := hreads _ _ (place + width [':'] + width after) rest
    (expects_member level ⟨span, name⟩ place outer) hrest
  refine ⟨Key.property ⟨span, name⟩ (some place) (some node) 0, .field hnode rfl _ _, ?_⟩
  have hwidth : place + width [':'] + width after + width text =
      offset + width ('"' :: (key ++ ['"']) ++ (before ++ ':' :: (after ++ text))) := by
    simp only [← hplace, width_cons, width_append, width_nil]
    omega
  rw [← hwidth]
  calc (State.within level phase outer).read offset
        ('"' :: (key ++ ['"']) ++ (before ++ ':' :: (after ++ text)) ++ rest)
      = (State.within level phase outer).read offset
          ('"' :: (key ++ ['"']) ++ (before ++ ':' :: (after ++ (text ++ rest)))) := by simp
    _ = _ := hname
    _ = _ := State.read_trivia hbefore (solid_cons (by decide) (by decide) _) _ _
    _ = _ := by rw [hplace, read_colon]
    _ = _ := State.read_trivia hafter (solid_part htext rest) _ _
    _ = _ := hvalue

/-- Without parts there is nothing but trivia. -/
theorem reads_none {text : List Char} (htext : Trivia text) : Reads (.parts []) text := by
  intro level phase outer offset rest hphase _
  have hfirst : phase = .first := by simpa using hphase
  exact ⟨[], phase, .nil, .inl hfirst, State.read_trivia htext (solid_close _ _) _ _⟩

/-- A part with the trivia around it is put in a container. -/
theorem reads_first (outer : List Frame) (offset : Nat) {part : Json.Part}
    {before text after : List Char} (hbefore : Trivia before)
    (htext : Json.Writes (.part part) text) (hafter : Trivia after)
    (hreads : Reads (.part part) text) (hholds : level.shape.Holds part) (hphase : phase.IsOpen)
    (hbreaks : Breaks rest) (hsolid : Solid rest) :
    ∃ node : Node, node.Means part ∧
      (State.within level phase outer).read offset (before ++ (text ++ (after ++ rest))) =
        (State.within (level.push node) .next outer).read
          (offset + width (before ++ (text ++ after))) rest := by
  obtain ⟨node, hnode, hpart⟩ :=
    reads_part hreads hholds hphase (breaks_trivia hafter hbreaks)
  refine ⟨node, hnode, ?_⟩
  rw [State.read_trivia hbefore (solid_part htext _), hpart, State.read_trivia hafter hsolid]
  simp only [width_append, Nat.add_assoc]

theorem isOpen_of_parts {parts : List Json.Part}
    (hphase : phase = .first ∨ phase = .comma ∧ parts ≠ []) : phase.IsOpen := by
  rcases hphase with hphase | ⟨hphase, -⟩
  · exact .inl hphase
  · exact .inr hphase

theorem reads_last {part : Json.Part} {before text after : List Char} (hbefore : Trivia before)
    (htext : Json.Writes (.part part) text) (hafter : Trivia after)
    (hreads : Reads (.part part) text) :
    Reads (.parts [part]) (before ++ (text ++ after)) := by
  intro level phase outer offset rest hphase hholds
  obtain ⟨node, hnode, hread⟩ := reads_first outer offset hbefore htext hafter hreads
    (hholds part List.mem_cons_self) (isOpen_of_parts hphase) (breaks_close level.shape rest)
    (solid_close level.shape rest)
  refine ⟨[node], .next, .cons hnode .nil, .inr rfl, ?_⟩
  simpa using hread

/-- After a part and a comma the others are put in the container as well. -/
theorem reads_more {part : Json.Part} {parts : List Json.Part}
    {before text after others : List Char} (hbefore : Trivia before)
    (htext : Json.Writes (.part part) text) (hafter : Trivia after) (hparts : parts ≠ [])
    (hreads : Reads (.part part) text) (hothers : Reads (.parts parts) others) :
    Reads (.parts (part :: parts)) (before ++ (text ++ (after ++ ',' :: others))) := by
  intro level phase outer offset rest hphase hholds
  obtain ⟨hpart, hrest⟩ := List.forall_mem_cons.1 hholds
  obtain ⟨node, hnode, hread⟩ := reads_first outer offset hbefore htext hafter hreads hpart
    (isOpen_of_parts hphase) (breaks_comma (others ++ level.shape.close :: rest))
    (solid_cons (by decide) (by decide) _)
  obtain ⟨nodes, phase', hnodes, hphase', hread'⟩ :=
    hothers (level.push node) .comma outer
      (offset + width (before ++ (text ++ after)) + width [',']) rest (.inr ⟨rfl, hparts⟩) hrest
  refine ⟨node :: nodes, phase', .cons hnode hnodes, hphase', ?_⟩
  have hwidth : offset + width (before ++ (text ++ after)) + width [','] + width others =
      offset + width (before ++ (text ++ (after ++ ',' :: others))) := by
    simp only [width_cons, width_append, width_nil]
    omega
  rw [← hwidth]
  calc (State.within level phase outer).read offset
        (before ++ (text ++ (after ++ ',' :: others)) ++ level.shape.close :: rest)
      = (State.within level phase outer).read offset
          (before ++ (text ++ (after ++ ',' :: (others ++ level.shape.close :: rest)))) := by simp
    _ = _ := hread
    _ = _ := read_comma
    _ = _ := hread'

/-- Whatever is written is read. -/
theorem reads_of_writes {written : Json.Written} {text : List Char}
    (htext : Json.Writes written text) : Reads written text := by
  induction htext with
  | null => exact reads_word .null (by decide) (by decide) (by decide) fun _ => rfl
  | yes => exact reads_word (.bool true) (by decide) (by decide) (by decide) fun _ => rfl
  | no => exact reads_word (.bool false) (by decide) (by decide) (by decide) fun _ => rfl
  | number hproper hcut => exact reads_number hproper hcut
  | string hbody => exact reads_string hbody
  | @array items text _ ih =>
    intro state outer offset rest hexpects _
    have hholds : ∀ part ∈ items.map Json.Part.value, Shape.array.Holds part := by
      intro part hpart
      obtain ⟨item, -, rfl⟩ := List.mem_map.1 hpart
      rfl
    obtain ⟨nodes, span, forest, hnodes, hforest, hread⟩ := reads_container ih hholds hexpects
    exact ⟨_, .array hnodes hforest span, hread⟩
  | @object fields text _ ih =>
    intro state outer offset rest hexpects _
    have hholds : ∀ part ∈ Json.fieldParts fields, Shape.object.Holds part := by
      intro part hpart
      obtain ⟨field, -, rfl⟩ := List.mem_map.1 hpart
      rfl
    obtain ⟨nodes, span, forest, hnodes, hforest, hread⟩ := reads_container ih hholds hexpects
    exact ⟨_, .object hnodes hforest span, hread⟩
  | field hkey hbefore hafter htext ih => exact reads_field hkey hbefore hafter htext ih
  | none htext => exact reads_none htext
  | last hbefore htext hafter ih => exact reads_last hbefore htext hafter ih
  | more hbefore htext hafter hparts _ ih ihRest =>
    exact reads_more hbefore htext hafter hparts ih ihRest

/-! ## Whole texts -/

/-- At the end of the text the document is finished. -/
theorem read_end (node : Node) (offset : Nat) :
    (State.root node).read offset [] = (.over (some node), []) := by
  rw [State.read, Remainder.tokens_nil]
  rfl

/-- A text that is written for a value is read without a problem, and its tree
means the value. -/
theorem ofText_of_isText {json : Json} {text : List Char} (htext : json.IsText text) :
    ∃ root : Node, ofText default text = ⟨some root, []⟩ ∧ root.Means (.value json) := by
  obtain ⟨before, value, after, rfl, hbefore, hvalue, hafter⟩ := htext
  have hbreaks : Breaks (after ++ []) := breaks_trivia hafter breaks_nil
  obtain ⟨root, hroot, hread⟩ := reads_of_writes hvalue .start [] (width before) (after ++ [])
    expects_start hbreaks
  refine ⟨root, ?_, hroot⟩
  have hrun : State.start.read 0 (before ++ (value ++ after)) = (.over (some root), []) := by
    calc State.start.read 0 (before ++ (value ++ after))
        = State.start.read 0 (before ++ (value ++ (after ++ []))) := by rw [List.append_nil]
      _ = State.start.read (0 + width before) (value ++ (after ++ [])) :=
        State.read_trivia hbefore (solid_part hvalue _) _ _
      _ = (State.root root).read (width before + width value) (after ++ []) := by
        rw [Nat.zero_add, hread]
        rfl
      _ = (State.root root).read (width before + width value + width after) [] :=
        State.read_trivia hafter (by simp [Solid]) _ _
      _ = (.over (some root), []) := read_end root _
  have hstart : State.start.run default (Token.ofText (before ++ (value ++ after)) ++
      [Token.endOf (before ++ (value ++ after))]) = (.over (some root), []) := by
    rw [← hrun, State.read, Nat.zero_add]
    rfl
  rw [ofText, ofTokens_eq_run, hstart]
  rfl

/-- A list with a comment before it, a pair of escapes in it and a comment
before its last element. -/
theorem isText_commented :
    Json.IsText (.array [.string "😀", .number ⟨true, ['1'], some ['5'], none⟩])
      "/* ? */[\"\\uD83D\\ude00\", // !\n-1.5 ]".toList := by
  have hhigh : Escape.IsHex 0xD83D ['D', '8', '3', 'D'] := ⟨rfl, rfl, rfl, rfl⟩
  have hlow : Escape.IsHex 0xDE00 ['d', 'e', '0', '0'] := ⟨rfl, rfl, rfl, rfl⟩
  have hstring : Escape.Spells ['😀'] ("\\uD83D\\ude00".toList ++ []) :=
    .unicode (.cons hhigh (.cons hlow .nil)) .nil
  have hproper : Numeral.IsProper ⟨true, ['1'], some ['5'], none⟩ :=
    ⟨.inr ⟨'1', [], rfl, by decide, by simp; decide⟩, by simp; decide, by simp, by simp, by simp⟩
  have hline : ∀ d ∈ [' ', '!'], isLineBreak d = false := by simp [isLineBreak]
  have hblock : ¬['*', '/'] <:+: [' ', '?', ' '] := by decide
  exact ⟨_, _, [], rfl, .block hblock .nil,
    .array (.more .nil (.string hstring) .nil (by simp)
      (.last (.blank (c := ' ') rfl (.line (c := '\n') hline rfl .nil)) (.number hproper rfl)
        (.blank (c := ' ') rfl .nil))), .nil⟩

theorem ofText_of_isText_commented :
    ∃ root : Node,
      ofText default "/* ? */[\"\\uD83D\\ude00\", // !\n-1.5 ]".toList = ⟨some root, []⟩ ∧
        root.Means (.value (.array [.string "😀", .number ⟨true, ['1'], some ['5'], none⟩])) :=
  ofText_of_isText isText_commented

end TaskFile.Document
