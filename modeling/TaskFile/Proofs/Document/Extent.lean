import TaskFile.Proofs.Document.Schema
import TaskFile.Proofs.Tree.Search

/-!
# Nodes and the tokens that bound them

Every node of a document starts and stops where some token of the text does.
`Node.IsFaithful` says for each kind of node which tokens these are, and
`isFaithful_ofText` says that the tree of every text is faithful, whatever is wrong
with the text.

Where a node ends is written down as the greater one of its start and the offset that
ends it, so that its span never runs backwards.  `Span.EndsAt` is this form, and
`Node.IsBounded` says of one node, in this form, what it is bounded by.  That no span
is empty is known of every tree (`rootFits_ofText`), and it turns `EndsAt` into an
equation at the end.

A property without a value ends at the comma that gave it up, or where its object ends.
Only a comma can have ended such a property of an object that is still open
(`Frame.IsBounded`).  The token that closes the object ends its last property too, so
the two ends are compared there and then (`Level.IsBounded.close`).

Of two tokens one stops before the other one starts.  So no bound of a node is inside a
token (`Token.isJoint_of_mem`), whatever kind of token it is: white space, a comment or
something that was skipped.  All bytes of a token lie in the same node
(`Document.atOffset?_eq_of_mem`).
-/

namespace TaskFile

open Text

/-! ## Tokens and offsets -/

namespace Token

variable {text : List Char} {token : Token}

/-- A token of a text, of a given kind, that starts at an offset. -/
def StartsAt (text : List Char) (kind : Kind) (offset : Nat) : Prop :=
  ∃ token ∈ ofText text, token.kind = kind ∧ token.start = offset

/-- A token of a text, of a given kind, that stops at an offset. -/
def StopsAt (text : List Char) (kind : Kind) (offset : Nat) : Prop :=
  ∃ token ∈ ofText text, token.kind = kind ∧ token.stop = offset

/-- A token is of the kind of a scalar and stands for its value.  A numeral that has no
value stands for zero. -/
def StandsFor (token : Token) : Node.Kind → Prop
  | .string value => token.kind = .string ∧ token.string? = some value
  | .number value =>
    token.kind = .number ∧ (Numeral.ofChars token.text).value?.getD .zero = value
  | .boolean true => token.kind = .yes
  | .boolean false => token.kind = .no
  | .null => token.kind = .null
  | .object | .array | .property _ => False

/-- The tokens that are read are those of the text, but for the end. -/
theorem mem_ofText (htoken : token ∈ ofText text ++ [endOf text])
    (hkind : token.kind ≠ .finish) : token ∈ ofText text := by
  rcases List.mem_append.1 htoken with hlisted | hend
  · exact hlisted
  · obtain rfl := List.mem_singleton.1 hend
    exact absurd rfl hkind

/-- The end stops where the text does. -/
theorem stop_of_kind_eq_finish (htoken : token ∈ ofText text ++ [endOf text])
    (hkind : token.kind = .finish) : token.stop = width text := by
  rcases List.mem_append.1 htoken with hlisted | hend
  · obtain ⟨c, cs, hform⟩ := (covers_ofText text).exists_form hlisted
    exact absurd hkind (Lexeme.kind_ne_finish_of_form hform)
  · obtain rfl := List.mem_singleton.1 hend
    rfl

end Token

/-- A span that ends at an offset, or is empty because the offset lies before it. -/
def Span.EndsAt (span : Span) (offset : Nat) : Prop := span.stop = max span.start offset

theorem Span.EndsAt.eq {span : Span} {offset : Nat} (hends : span.EndsAt offset)
    (hspan : span.start < span.stop) : span.stop = offset := by
  unfold EndsAt at hends
  omega

namespace Node

/-! ## Faithful trees -/

/-- Only properties have a value. -/
theorem exists_colon_of_value? {node value : Node} (hvalue : node.value? = some value) :
    ∃ colon, node.kind = .property colon := by
  unfold value? numberedValue? at hvalue
  split at hvalue
  · exact ⟨_, ‹_›⟩
  · contradiction

/-- A property without a value. -/
def IsBare (node : Node) : Prop := node.kind.isProperty = true ∧ node.value? = none

/-- A tree over a text in which every node lies where the tokens say that make it up. -/
structure IsFaithful (text : List Char) (root : Node) : Prop where
  /-- A scalar is one token, of its kind and with its value. -/
  scalar : ∀ {number above node}, root.Has number above node → node.kind.isScalar = true →
    ∃ token ∈ Token.ofText text, token.span = node.span ∧ token.StandsFor node.kind
  /-- A container starts at its opening bracket.  It ends behind a closing bracket of its
  own kind or where the text does. -/
  container : ∀ {number above node} {shape : Document.Shape}, root.Has number above node →
    node.kind = shape.kind → Token.StartsAt text shape.opener node.span.start ∧
      (Token.StopsAt text shape.closer node.span.stop ∨ node.span.stop = width text)
  /-- A property starts at its key. -/
  key : ∀ {number above node}, root.Has number above node → node.kind.isProperty = true →
    ∃ key name, node.children.toList.head? = some key ∧ key.kind = .string name ∧
      key.span.start = node.span.start
  /-- A property with a value ends where the value does. -/
  value : ∀ {number above node value}, root.Has number above node → node.value? = some value →
    node.span.stop = value.span.stop
  /-- A property without a value ends at a comma or where its object does. -/
  bare : ∀ {number above node}, root.Has number above node → node.IsBare →
    Token.StartsAt text .comma node.span.stop ∨
      ∃ parent parentAbove object, above = some parent ∧ root.Has parent parentAbove object ∧
        object.kind = .object ∧ node ∈ object.children.toList ∧
        node.span.stop = object.span.stop

/-! ## One node -/

/-- A node that ends where a comma starts. -/
def EndsAtComma (text : List Char) (node : Node) : Prop :=
  ∃ comma, Token.StartsAt text .comma comma ∧ node.span.EndsAt comma

/-- A node that ends at a comma or with the container that it is in. -/
def EndsWithin (text : List Char) (stop : Nat) (node : Node) : Prop :=
  node.EndsAtComma text ∨ node.span.EndsAt stop

/-- The bounds of a container and of the properties without a value in it. -/
structure IsDelimited (text : List Char) (shape : Document.Shape) (node : Node) : Prop where
  opened : Token.StartsAt text shape.opener node.span.start
  closed : ∃ stop, node.span.EndsAt stop ∧
    (Token.StopsAt text shape.closer stop ∨ stop = width text) ∧
    ∀ child ∈ node.children.toList, child.IsBare → child.EndsWithin text stop

/-- What a node is bounded by. -/
def IsBounded (text : List Char) (node : Node) : Prop :=
  match node.kind with
  | .object => node.IsDelimited text .object
  | .array => node.IsDelimited text .array
  | .property _ => ∀ value, node.value? = some value → node.span.EndsAt value.span.stop
  | kind => ∃ token ∈ Token.ofText text, token.span = node.span ∧ token.StandsFor kind

theorem isBounded_of_standsFor {text : List Char} {token : Token} {kind : Kind}
    (htoken : token ∈ Token.ofText text) (hstands : token.StandsFor kind) :
    IsBounded text ⟨kind, token.span, .nil⟩ := by
  cases kind with
  | string | number | boolean | null => exact ⟨token, htoken, rfl, hstands⟩
  | object | array | property => exact False.elim hstands

end Node

namespace Document

variable {text : List Char}

/-! ## The invariant -/

section Invariant

variable (text)

/-- An open container in which properties without a value have their ends. -/
structure Level.IsBounded (Ends : Node → Prop) (level : Level) : Prop where
  opened : Token.StartsAt text level.shape.opener level.start
  all : level.children.All (Node.IsBounded text)
  bare : ∀ child ∈ level.children.toList, child.IsBare → Ends child

/-- A key is a string of the text. -/
def Key.IsBounded (key : Key) : Prop :=
  ∃ token ∈ Token.ofText text, token.span = key.span ∧ token.StandsFor (.string key.name)

/-- A container around an unfinished value. -/
def Frame.IsBounded : Frame → Prop
  | .element level => level.IsBounded text (Node.EndsAtComma text)
  | .member level key _ => level.IsBounded text (Node.EndsAtComma text) ∧ key.IsBounded text

/-- The nodes of a state, finished or not. -/
def State.IsBounded : State → Prop
  | .start | .over none => True
  | .within level phase outer =>
    level.IsBounded text (Node.EndsAtComma text) ∧
      (∀ key colon, phase.key? = some (key, colon) → key.IsBounded text) ∧
      ∀ frame ∈ outer, frame.IsBounded text
  | .root node | .over (some node) => node.All (Node.IsBounded text)

end Invariant

/-! ## Finishing nodes -/

theorem Level.IsBounded.imp {Ends Ends' : Node → Prop} {level : Level}
    (hlevel : level.IsBounded text Ends) (himp : ∀ node, Ends node → Ends' node) :
    level.IsBounded text Ends' where
  opened := hlevel.opened
  all := hlevel.all
  bare child hchild hbare := himp child (hlevel.bare child hchild hbare)

/-- One more child. -/
theorem Level.IsBounded.push {Ends : Node → Prop} {level : Level} {node : Node}
    (hlevel : level.IsBounded text Ends) (hnode : node.All (Node.IsBounded text))
    (hbare : node.IsBare → Ends node) : (level.push node).IsBounded text Ends where
  opened := hlevel.opened
  all := ⟨hnode.1, hnode.2, hlevel.all⟩
  bare := by
    intro child hchild
    simp only [Level.push, Forest.toList_push, List.mem_cons] at hchild
    rcases hchild with rfl | hchild
    · exact hbare
    · exact hlevel.bare child hchild

/-- A property without a value. -/
theorem Key.IsBounded.property_none {key : Key} (hkey : key.IsBounded text) (colon : Option Nat)
    (stop : Nat) : (key.property colon none stop).All (Node.IsBounded text) :=
  ⟨nofun, hkey, trivial, trivial⟩

/-- A property with a value. -/
theorem Key.IsBounded.property_some {key : Key} {value : Node} (hkey : key.IsBounded text)
    (hvalue : value.All (Node.IsBounded text)) (colon : Option Nat) (stop : Nat) :
    (key.property colon (some value) stop).All (Node.IsBounded text) := by
  refine ⟨fun other hother => ?_, hkey, trivial, hvalue.1, hvalue.2, trivial⟩
  obtain rfl : value = other := Option.some.inj hother
  rfl

@[simp] theorem Level.isProperty_close (level : Level) (stop : Nat) :
    (level.close stop).kind.isProperty = false := by
  cases hshape : level.shape <;> simp [Level.close, hshape, Shape.kind, Node.Kind.isProperty]

/-- A container that is closed at an offset, where the last of its properties may have been
given up as well. -/
theorem Level.IsBounded.close {level : Level} {stop : Nat}
    (hlevel : level.IsBounded text (Node.EndsWithin text stop))
    (hstop : Token.StopsAt text level.shape.closer stop ∨ stop = width text) :
    (level.close stop).All (Node.IsBounded text) := by
  have hdelimited : (level.close stop).IsDelimited text level.shape := by
    refine ⟨hlevel.opened, stop, rfl, hstop, fun child hchild => hlevel.bare child ?_⟩
    simpa [Level.close] using hchild
  refine ⟨?_, Forest.all_reverse.2 hlevel.all⟩
  unfold Node.IsBounded
  cases hshape : level.shape <;> simpa [Level.close, hshape, Shape.kind] using hdelimited

/-- A container around a finished value. -/
theorem Frame.IsBounded.put {frame : Frame} {node : Node} (hframe : frame.IsBounded text)
    (hnode : node.All (Node.IsBounded text)) (hkind : node.kind.isProperty = false) :
    (frame.put node).IsBounded text (Node.EndsAtComma text) := by
  cases frame with
  | element level =>
    refine Level.IsBounded.push hframe hnode fun hbare => ?_
    exact absurd (hkind.symm.trans hbare.1) (by decide)
  | member level key colon =>
    obtain ⟨hlevel, hkey⟩ := hframe
    exact hlevel.push (hkey.property_some hnode (some colon) 0) fun hbare => nomatch hbare.2

/-- Without an unfinished property there is no key. -/
theorem isBounded_of_key?_eq_none {phase : Phase} (hphase : phase.key? = none) (key : Key)
    (colon : Option Nat) (hkey : phase.key? = some (key, colon)) : key.IsBounded text := by
  rw [hphase] at hkey
  contradiction

/-- A finished value inside the given containers. -/
theorem isBounded_deliver {outer : List Frame} {node : Node}
    (houter : ∀ frame ∈ outer, frame.IsBounded text) (hnode : node.All (Node.IsBounded text))
    (hkind : node.kind.isProperty = false) : (deliver node outer).IsBounded text := by
  cases outer with
  | nil => exact hnode
  | cons frame outer =>
    obtain ⟨hframe, houter⟩ := List.forall_mem_cons.1 houter
    exact ⟨hframe.put hnode hkind, isBounded_of_key?_eq_none rfl, houter⟩

/-- The containers that the end of the text closes, the innermost first. -/
theorem isBounded_unwind {outer : List Frame} {node : Node} {finish : Token}
    (hfinish : finish.stop = width text) (houter : ∀ frame ∈ outer, frame.IsBounded text)
    (hnode : node.All (Node.IsBounded text)) (hkind : node.kind.isProperty = false) :
    (unwind finish node outer).1.All (Node.IsBounded text) := by
  induction outer generalizing node with
  | nil => exact hnode
  | cons frame outer ih =>
    obtain ⟨hframe, houter⟩ := List.forall_mem_cons.1 houter
    have hlevel : (frame.put node).IsBounded text (Node.EndsWithin text finish.stop) :=
      (hframe.put hnode hkind).imp fun _ => .inl
    exact ih houter (hlevel.close (.inr hfinish)) (Level.isProperty_close _ _)

/-! ## One move -/

variable {token : Token} {level : Level} {outer : List Frame}

theorem standsFor_of_scalar? {kind : Node.Kind} {problems : List Problem}
    (hscalar : scalar? token = some (kind, problems)) : token.StandsFor kind := by
  unfold scalar? at hscalar
  split at hscalar
  case h_1 hkind =>
    obtain ⟨rfl, -⟩ := Prod.mk.inj (Option.some.inj hscalar)
    exact ⟨hkind, by simp [Lexeme.string?, hkind]⟩
  case h_2 hkind =>
    cases hvalue : (Numeral.ofChars token.text).value? with
    | some value | none =>
      rw [hvalue] at hscalar
      obtain ⟨rfl, -⟩ := Prod.mk.inj (Option.some.inj hscalar)
      exact ⟨hkind, by rw [hvalue]; rfl⟩
  case h_6 => contradiction
  all_goals
    obtain ⟨rfl, -⟩ := Prod.mk.inj (Option.some.inj hscalar)
    assumption

/-- A container that has just been opened. -/
theorem isBounded_opened {shape : Shape} (hopened : Token.StartsAt text shape.opener token.start)
    (Ends : Node → Prop) : Level.IsBounded text Ends ⟨shape, token.start, .nil⟩ where
  opened := hopened
  all := trivial
  bare _ hchild := absurd hchild List.not_mem_nil

/-- The first token of a value, inside the given containers. -/
theorem isBounded_enter? {move : Move} (hmove : enter? outer token = some move)
    (htoken : token ∈ Token.ofText text ++ [Token.endOf text])
    (houter : ∀ frame ∈ outer, frame.IsBounded text) : move.1.IsBounded text := by
  rcases enter?_eq_some hmove with ⟨kind, hscalar, hstate⟩ | ⟨shape, hkind, rfl⟩
  · have hliteral := isLiteral_of_scalar? hscalar
    have hlisted := Token.mem_ofText htoken fun hfinish => by
      simp [hfinish, Token.Kind.isLiteral] at hliteral
    have hvalue : kind.isProperty = false := by
      have hscalarKind := isScalar_of_scalar? hscalar
      cases kind <;> simp_all [Node.Kind.isProperty, Node.Kind.isScalar]
    have hnode := Node.isBounded_of_standsFor hlisted (standsFor_of_scalar? hscalar)
    rw [hstate]
    exact isBounded_deliver houter ⟨hnode, trivial⟩ hvalue
  · have hlisted := Token.mem_ofText htoken (by rw [hkind]; cases shape <;> simp [Shape.opener])
    exact ⟨isBounded_opened ⟨token, hlisted, hkind, rfl⟩ _, isBounded_of_key?_eq_none rfl, houter⟩

/-- A container once a token has finished the property that was unfinished in it. -/
theorem isBounded_settle {phase : Phase} (hlevel : level.IsBounded text (Node.EndsAtComma text))
    (hphase : ∀ key colon, phase.key? = some (key, colon) → key.IsBounded text) (token : Token) :
    (level.settle phase token).IsBounded text
      (Node.EndsWithin text (if token.kind = .comma then token.start else token.stop)) := by
  cases hkey : phase.key? with
  | none =>
    rw [Level.settle_of_key?_eq_none hkey]
    exact hlevel.imp fun _ => .inl
  | some unfinished =>
    obtain ⟨key, colon⟩ := unfinished
    rw [Level.settle_of_key? hkey]
    exact Level.IsBounded.push (hlevel.imp fun _ => .inl)
      ((hphase key colon hkey).property_none colon _) fun _ => .inr rfl

theorem Level.settle_shape (level : Level) (phase : Phase) (token : Token) :
    (level.settle phase token).shape = level.shape := by
  unfold settle
  split <;> rfl

/-- One move keeps the invariant. -/
theorem isBounded_leads {state next : State}
    (htoken : token ∈ Token.ofText text ++ [Token.endOf text]) (hstate : state.IsBounded text)
    (hleads : Leads token state next) : next.IsBounded text := by
  cases hleads with
  | nothing => trivial
  | value henter => exact isBounded_enter? henter htoken (List.forall_mem_nil _)
  | @comma level phase outer hkind =>
    obtain ⟨hlevel, hphase, houter⟩ := hstate
    have hsettled := isBounded_settle hlevel hphase token
    rw [if_pos hkind] at hsettled
    have hcomma : Token.StartsAt text .comma token.start :=
      ⟨token, Token.mem_ofText htoken (by simp [hkind]), hkind, rfl⟩
    refine ⟨hsettled.imp fun node hends => ?_, isBounded_of_key?_eq_none rfl, houter⟩
    exact hends.elim id fun hends => ⟨token.start, hcomma, hends⟩
  | @close level phase outer hkind =>
    obtain ⟨hlevel, hphase, houter⟩ := hstate
    have hsettled := isBounded_settle hlevel hphase token
    rw [if_neg (hkind ▸ closer_ne_comma _)] at hsettled
    have hlisted := Token.mem_ofText htoken (hkind ▸ closer_ne_finish _)
    have hcloser : Token.StopsAt text (level.settle phase token).shape.closer token.stop :=
      ⟨token, hlisted, by rw [Level.settle_shape, hkind], rfl⟩
    exact isBounded_deliver houter (hsettled.close (.inl hcloser)) (Level.isProperty_close _ _)
  | @finish level phase outer hkind =>
    obtain ⟨hlevel, hphase, houter⟩ := hstate
    have hsettled := isBounded_settle hlevel hphase token
    rw [if_neg (by simp [hkind])] at hsettled
    have hend := Token.stop_of_kind_eq_finish htoken hkind
    exact isBounded_unwind hend houter (hsettled.close (.inr hend)) (Level.isProperty_close _ _)
  | @element level phase outer move hkey hshape henter =>
    exact isBounded_enter? henter htoken (List.forall_mem_cons.2 ⟨hstate.1, hstate.2.2⟩)
  | @name level phase outer hkey hshape hkind =>
    refine ⟨hstate.1, fun key colon hkey => ?_, hstate.2.2⟩
    obtain ⟨rfl, rfl⟩ := Prod.mk.inj (Option.some.inj hkey)
    have hlisted := Token.mem_ofText htoken (by simp [hkind])
    exact ⟨token, hlisted, rfl, hkind, by simp [Lexeme.string?, hkind]⟩
  | @colon level key outer hkind =>
    refine ⟨hstate.1, fun key' colon hkey => ?_, hstate.2.2⟩
    obtain ⟨rfl, rfl⟩ := Prod.mk.inj (Option.some.inj hkey)
    exact hstate.2.1 key none rfl
  | @member level key colon outer move henter =>
    have hkey := hstate.2.1 key (some colon) rfl
    exact isBounded_enter? henter htoken (List.forall_mem_cons.2 ⟨⟨hstate.1, hkey⟩, hstate.2.2⟩)
  | lost => exact ⟨hstate.1, isBounded_of_key?_eq_none rfl, hstate.2.2⟩
  | stuck hkey =>
    refine ⟨hstate.1, fun key' colon' hkey' => ?_, hstate.2.2⟩
    obtain ⟨rfl, rfl⟩ := Prod.mk.inj (Option.some.inj hkey')
    exact hstate.2.1 _ _ hkey
  | root => exact hstate
  | «over» => exact hstate

/-! ## Whole documents -/

/-- Every node of a document is bounded by tokens of the text. -/
theorem isBounded_ofText {options : Options} {root : Node}
    (hroot : (ofText options text).tree = some root) : root.All (Node.IsBounded text) := by
  have hstate : State.IsBounded text
      (State.start.run options (Token.ofText text ++ [Token.endOf text])).1 :=
    holds_run_ofText options text (fun _ => State.IsBounded text) (fun _ hstate => hstate)
      (fun htoken _ hstate hleads => isBounded_leads htoken hstate hleads) trivial
  rw [ofText, ofTokens_eq_run] at hroot
  cases hrun : (State.start.run options (Token.ofText text ++ [Token.endOf text])).1 with
  | start | within => simp [hrun, State.tree] at hroot
  | root node =>
    obtain rfl : node = root := by simpa [hrun, State.tree] using hroot
    simpa [hrun, State.IsBounded] using hstate
  | «over» tree =>
    obtain rfl : tree = some root := by simpa [hrun, State.tree] using hroot
    simpa [hrun, State.IsBounded] using hstate

theorem isDelimited_of_kind {node : Node} {shape : Shape} (hnode : node.IsBounded text)
    (hkind : node.kind = shape.kind) : node.IsDelimited text shape := by
  unfold Node.IsBounded at hnode
  cases shape <;> simpa only [hkind, Shape.kind] using hnode

/-- A property without a value ends at a comma or with the object that it is in. -/
theorem ends_of_isBare {object node : Node} (hbounded : object.IsBounded text)
    (hobject : object.span.start < object.span.stop) (hkind : object.kind = .object)
    (hchild : node ∈ object.children.toList) (hbare : node.IsBare)
    (hnode : node.span.start < node.span.stop) :
    Token.StartsAt text .comma node.span.stop ∨ node.span.stop = object.span.stop := by
  have hdelimited : object.IsDelimited text .object := isDelimited_of_kind hbounded hkind
  obtain ⟨stop, hends, -, hwithin⟩ := hdelimited.closed
  rcases hwithin node hchild hbare with ⟨comma, hcomma, hcommaEnds⟩ | hstop
  · rw [hcommaEnds.eq hnode]
    exact .inl hcomma
  · rw [hstop.eq hnode, hends.eq hobject]
    exact .inr rfl

/-- The tree of every text is faithful to it, whatever is wrong with the text. -/
theorem isFaithful_ofText {options : Options} {root : Node}
    (hroot : (ofText options text).tree = some root) : root.IsFaithful text := by
  have hfits := rootFits_ofText hroot
  have hall := Node.all_toForest.2 (isBounded_ofText hroot)
  have hfit {number : Nat} {above : Option Nat} {node : Node} (hhas : root.Has number above node) :
      node.IsFit (IsBoundary text) := (hhas.isFit hfits.all).1
  have hbounded {number : Nat} {above : Option Nat} {node : Node}
      (hhas : root.Has number above node) : node.IsBounded text := (Forest.Has.of_all hhas hall).1
  refine ⟨fun hhas hkind => ?scalar, fun hhas hkind => ?container, fun hhas hkind => ?key,
    fun hhas hvalue => ?value, fun hhas hbare => ?bare⟩
  case scalar =>
    have hscalar := hbounded hhas
    unfold Node.IsBounded at hscalar
    split at hscalar <;> simp_all [Node.Kind.isScalar]
  case container =>
    obtain ⟨hopened, stop, hends, hstop, -⟩ := isDelimited_of_kind (hbounded hhas) hkind
    rw [hends.eq (hfit hhas).nonempty]
    exact ⟨hopened, hstop⟩
  case key number above node =>
    obtain ⟨kind, span, children⟩ := node
    cases kind with
    | property colon =>
      obtain ⟨name, nameSpan, siblings, rfl, hstart⟩ := (hfit hhas).schema.exists_key
      exact ⟨⟨.string name, nameSpan, .nil⟩, name, rfl, rfl, hstart⟩
    | object | array | string | number | boolean | null => contradiction
  case value =>
    obtain ⟨colon, hkind⟩ := Node.exists_colon_of_value? hvalue
    have hproperty := hbounded hhas
    simp only [Node.IsBounded, hkind] at hproperty
    exact (hproperty _ hvalue).eq (hfit hhas).nonempty
  case bare =>
    rcases hhas.parent_cases with ⟨-, rfl⟩ | ⟨parent, parentAbove, object, rfl, -, hparent, hmem⟩
    · -- The root is a value.
      obtain ⟨-, rfl⟩ := hhas.unique root.has_zero
      exact absurd (hbare.1.symm.trans hfits.value) (by decide)
    · obtain ⟨child, hchild, hhas'⟩ := hparent.child hmem
      obtain ⟨-, rfl⟩ := hhas.unique hhas'
      have hobject := kind_eq_object (hfit hparent).schema hchild hbare.1
      refine (ends_of_isBare (hbounded hparent) (hfit hparent).nonempty hobject hchild hbare
        (hfit hhas).nonempty).imp id fun hstop => ?_
      exact ⟨parent, parentAbove, object, rfl, hparent, hobject, hchild, hstop⟩

/-- A bracket and a brace are skipped on the way, and neither the last array nor the
object around it is ever closed. -/
theorem isFaithful_ofText_unclosed :
    ∃ root,
      (ofText default "\x7b\"a\" [, \"b\": \x7b\"c\"\x7d, \"d\": [1 \x7d".toList).tree = some root ∧
      root.size = 12 ∧
      root.IsFaithful "\x7b\"a\" [, \"b\": \x7b\"c\"\x7d, \"d\": [1 \x7d".toList := by
  have hsize :
      (ofText default "\x7b\"a\" [, \"b\": \x7b\"c\"\x7d, \"d\": [1 \x7d".toList).tree.map
        Node.size = some 12 := by decide +kernel
  obtain ⟨root, hroot, hsize⟩ := Option.map_eq_some_iff.1 hsize
  exact ⟨root, hroot, hsize, isFaithful_ofText hroot⟩

end Document

/-! ## Nodes around a token -/

namespace Token

variable {text : List Char} {token : Token} {offset bound : Nat}

/-- An offset that is inside no token of a text. -/
def IsJoint (text : List Char) (offset : Nat) : Prop :=
  ∀ token ∈ ofText text, offset ≤ token.start ∨ token.stop ≤ offset

/-- No token starts or stops inside another one. -/
theorem isJoint_of_mem (htoken : token ∈ ofText text ++ [endOf text]) :
    IsJoint text token.start ∧ IsJoint text token.stop := by
  have hle : token.start ≤ token.stop := Nat.le_add_right _ _
  have hbounds : ∀ other ∈ ofText text, (token.start ≤ other.start ∨ other.stop ≤ token.start) ∧
      (token.stop ≤ other.start ∨ other.stop ≤ token.stop) := by
    intro other hother
    rcases precedes_cases htoken (List.mem_append_left _ hother) with rfl | hbefore | hbehind
    · exact ⟨.inl (Nat.le_refl _), .inr (Nat.le_refl _)⟩
    · exact ⟨.inl (Nat.le_trans hle hbefore.stop_le), .inl hbefore.stop_le⟩
    · exact ⟨.inr hbehind.stop_le, .inr (Nat.le_trans hbehind.stop_le hle)⟩
  exact ⟨fun other hother => (hbounds other hother).1, fun other hother => (hbounds other hother).2⟩

/-- Seen from inside a token, what is inside no token lies where it does from the start. -/
theorem IsJoint.le_iff (hbound : IsJoint text bound) (htoken : token ∈ ofText text)
    (hle : token.start ≤ offset) (hlt : offset < token.stop) :
    bound ≤ offset ↔ bound ≤ token.start := by
  have hsides := hbound token htoken
  omega

end Token

namespace Document

variable {options : Options} {text : List Char} {root : Node}

/-- All bytes of a token lie in the same node. -/
theorem atOffset?_eq_of_mem (hroot : (ofText options text).tree = some root) {token : Token}
    (htoken : token ∈ Token.ofText text) {offset : Nat} (hle : token.start ≤ offset)
    (hlt : offset < token.stop) :
    root.atOffset? offset false = root.atOffset? token.start false := by
  have hfits : RootFits (Token.IsJoint text) root (Text.width text) :=
    rootFits_of_tokens (fun _ => Token.isJoint_of_mem) hroot
  exact Forest.atOffset?_congr (Node.all_toForest.2 hfits.all)
    (fun hbound => hbound.le_iff htoken hle hlt) 0

/-- Inside a character of a comment that is never closed, in an array that is not closed
either. -/
theorem atOffset?_eq_of_mem_comment :
    ∃ root token, (ofText default "[1 /*é".toList).tree = some root ∧
      token ∈ Token.ofText "[1 /*é".toList ∧ token.kind = .blockComment ∧
      token.start ≤ 6 ∧ 6 < token.stop ∧ root.atOffset? token.start false = some 0 ∧
      root.atOffset? 6 false = root.atOffset? token.start false := by
  obtain ⟨root, hroot⟩ : ∃ root, (ofText default "[1 /*é".toList).tree = some root :=
    Option.isSome_iff_exists.1 (by decide +kernel)
  have htoken : (⟨⟨.blockComment, ['/', '*', 'é'], some .openComment⟩, 3⟩ : Token) ∈
      Token.ofText "[1 /*é".toList := by decide +kernel
  have hfound : (ofText default "[1 /*é".toList).tree.map (·.atOffset? 3 false) =
      some (some 0) := by decide +kernel
  rw [hroot] at hfound
  exact ⟨root, _, hroot, htoken, rfl, by decide, by decide, Option.some.inj hfound,
    atOffset?_eq_of_mem hroot htoken (by decide) (by decide)⟩

end Document

end TaskFile
