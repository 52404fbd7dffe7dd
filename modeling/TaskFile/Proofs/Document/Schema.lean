import TaskFile.Proofs.Document.Nesting
import TaskFile.Proofs.Token.Place
import TaskFile.Proofs.Tree.Arena

/-!
# Trees obey the schema of nodes

`Node.Obeys` is what the rest of a tree relies on without a look: which kinds of
nodes have which children, and where the colon of a property stands.
`obeys_ofText` says that the tree of every text obeys it, whatever is wrong with
the text.

That the children are of the right kinds is part of how nodes nest.  What is new is
the colon.  It is read when the key is finished and before it is known whether a
value follows, so it is carried by the open property: `Key.ColonFits` says of a key
where its colon stands, `State.ColonsFit` says it of every property of a state, finished
or not, and `colonsFit_leads` keeps it through one move.
-/

namespace TaskFile

open Text

/-! ## The schema -/

/-- A colon of the text starts at an offset. -/
def Text.ColonAt (text : List Char) (offset : Nat) : Prop :=
  ∃ before after, text = before ++ ':' :: after ∧ width before = offset

namespace Node

/-- A property with its colon: its key ends before the colon, and its value starts
behind it.  Without a colon there is no value. -/
def ColonFits (Colon : Nat → Prop) (node : Node) : Prop :=
  ∀ colon, node.kind = .property colon → ∃ key values, node.children.toList = key :: values ∧
    (∀ place ∈ colon, Colon place ∧ key.span.stop ≤ place) ∧
    ∀ value ∈ values, ∃ place ∈ colon, place < value.span.start

theorem colonFits_of_isProperty {Colon : Nat → Prop} {node : Node}
    (hkind : node.kind.isProperty = false) : node.ColonFits Colon := by
  intro colon hcolon
  rw [hcolon] at hkind
  contradiction

/-- What a property is made of, with its colon in a text. -/
def IsProperty (text : List Char) (colon : Option Nat) (node : Node) : Prop :=
  ∃ key name, key.kind = .string name ∧ key.children = .nil ∧ key.span.start = node.span.start ∧
    (∀ place ∈ colon, ColonAt text place ∧ key.span.stop ≤ place) ∧
    (node.children.toList = [key] ∨
      ∃ value, node.children.toList = [key, value] ∧ value.kind.isProperty = false ∧
        ∃ place ∈ colon, place < value.span.start)

/-- A tree over a text in which every node has the children that its kind calls for. -/
structure Obeys (text : List Char) (root : Node) : Prop where
  /-- The root is a value. -/
  value : root.kind.isProperty = false
  /-- An object has properties only. -/
  object : ∀ {number above node}, root.Has number above node → node.kind = .object →
    ∀ child ∈ node.children.toList, child.kind.isProperty = true
  /-- Properties are children of objects and stand nowhere else. -/
  parent : ∀ {number above node}, root.Has number above node → node.kind.isProperty = true →
    ∃ parent parentAbove object, above = some parent ∧ root.Has parent parentAbove object ∧
      object.kind = .object ∧ node ∈ object.children.toList
  /-- A property is a key, with a value only behind its colon. -/
  property : ∀ {number above node colon}, root.Has number above node →
    node.kind = .property colon → node.IsProperty text colon
  /-- Scalars have no children. -/
  scalar : ∀ {number above node}, root.Has number above node → node.kind.isScalar = true →
    node.children = .nil

end Node

namespace Document

/-! ## The invariant -/

section Invariant

variable (Colon : Nat → Prop)

/-- The key of a property and its colon, if that has been read, both before an offset. -/
def Key.ColonFits (key : Key) (reached : Nat) : Option Nat → Prop
  | none => key.span.stop ≤ reached
  | some place => Colon place ∧ key.span.stop ≤ place ∧ place < reached

/-- The properties in an open container around a value that starts at or after an
offset, that of the value included. -/
def Frame.ColonsFit (reached : Nat) : Frame → Prop
  | .element level => level.children.All (Node.ColonFits Colon)
  | .member level key colon =>
    level.children.All (Node.ColonFits Colon) ∧ key.ColonFits Colon reached (some colon)

/-- The properties in containers around a value that starts at or after an offset. -/
def FramesColonsFit : List Frame → Nat → Prop
  | [], _ => True
  | frame :: outer, reached =>
    frame.ColonsFit Colon reached ∧ FramesColonsFit outer frame.level.start

/-- The properties of a state after the text before an offset has been read. -/
def State.ColonsFit (reached : Nat) : State → Prop
  | .start | .over none => True
  | .within level phase outer =>
    level.children.All (Node.ColonFits Colon) ∧
      (∀ key colon, phase.key? = some (key, colon) → key.ColonFits Colon reached colon) ∧
      FramesColonsFit Colon outer level.start
  | .root node | .over (some node) => node.All (Node.ColonFits Colon)

end Invariant

variable {Colon : Nat → Prop} {reached reached' : Nat}

/-! ## Reading on -/

theorem Key.ColonFits.mono {key : Key} {colon : Option Nat}
    (hkey : key.ColonFits Colon reached colon) (hle : reached ≤ reached') :
    key.ColonFits Colon reached' colon := by
  cases colon with
  | none => exact Nat.le_trans hkey hle
  | some place => exact ⟨hkey.1, hkey.2.1, Nat.lt_of_lt_of_le hkey.2.2 hle⟩

theorem State.ColonsFit.mono {state : State} (hstate : state.ColonsFit Colon reached)
    (hle : reached ≤ reached') : state.ColonsFit Colon reached' := by
  cases state with
  | within level phase outer =>
    exact ⟨hstate.1, fun key colon hkey => (hstate.2.1 key colon hkey).mono hle, hstate.2.2⟩
  | start | root => exact hstate
  | «over» tree => cases tree <;> exact hstate

/-! ## Finishing nodes -/

theorem Level.colonsFit_close {level : Level}
    (hlevel : level.children.All (Node.ColonFits Colon)) (stop : Nat) :
    (level.close stop).All (Node.ColonFits Colon) := by
  refine ⟨Node.colonFits_of_isProperty ?_, Forest.all_reverse.2 hlevel⟩
  cases hshape : level.shape <;> simp [Level.close, hshape, Shape.kind, Node.Kind.isProperty]

/-- A property without a value. -/
theorem Key.ColonFits.property_none {key : Key} {colon : Option Nat}
    (hkey : key.ColonFits Colon reached colon) (stop : Nat) :
    (key.property colon none stop).All (Node.ColonFits Colon) := by
  refine ⟨?_, Node.colonFits_of_isProperty rfl, trivial, trivial⟩
  intro colon' hcolon
  obtain rfl : colon = colon' := Node.Kind.property.inj hcolon
  refine ⟨_, [], rfl, fun place hplace => ?_, nofun⟩
  obtain rfl : colon = some place := hplace
  exact ⟨hkey.1, hkey.2.1⟩

/-- A property with a value that starts behind the colon. -/
theorem Key.ColonFits.property_some {key : Key} {colon : Nat} {value : Node}
    (hkey : key.ColonFits Colon reached (some colon)) (hvalue : value.All (Node.ColonFits Colon))
    (hstart : reached ≤ value.span.start) (stop : Nat) :
    (key.property (some colon) (some value) stop).All (Node.ColonFits Colon) := by
  refine ⟨?_, Node.colonFits_of_isProperty rfl, trivial, hvalue.1, hvalue.2, trivial⟩
  intro colon' hcolon
  obtain rfl : some colon = colon' := Node.Kind.property.inj hcolon
  refine ⟨_, [value], rfl, ?_, ?_⟩
  · intro place hplace
    obtain rfl : colon = place := Option.some.inj hplace
    exact ⟨hkey.1, hkey.2.1⟩
  · intro other hother
    obtain rfl := List.mem_singleton.1 hother
    exact ⟨colon, rfl, Nat.lt_of_lt_of_le hkey.2.2 hstart⟩

/-- A container around a finished value. -/
theorem Frame.ColonsFit.put {frame : Frame} {node : Node} (hframe : frame.ColonsFit Colon reached)
    (hnode : node.All (Node.ColonFits Colon)) (hstart : reached ≤ node.span.start) :
    (frame.put node).children.All (Node.ColonFits Colon) := by
  cases frame with
  | element level => exact ⟨hnode.1, hnode.2, hframe⟩
  | member level key colon =>
    obtain ⟨hlevel, hkey⟩ := hframe
    have hproperty := hkey.property_some hnode hstart 0
    exact ⟨hproperty.1, hproperty.2, hlevel⟩

/-- Without a key nothing is unfinished. -/
theorem colonFits_of_key?_eq_none {phase : Phase} (hnone : phase.key? = none) (key : Key)
    (colon : Option Nat) (hkey : phase.key? = some (key, colon)) :
    key.ColonFits Colon reached colon := by
  rw [hnone] at hkey
  contradiction

/-- A finished value inside the given containers. -/
theorem colonsFit_deliver {outer : List Frame} {node : Node}
    (houter : FramesColonsFit Colon outer reached) (hnode : node.All (Node.ColonFits Colon))
    (hstart : reached ≤ node.span.start) : (deliver node outer).ColonsFit Colon reached' := by
  cases outer with
  | nil => exact hnode
  | cons frame outer =>
    refine ⟨houter.1.put hnode hstart, colonFits_of_key?_eq_none rfl, ?_⟩
    rw [Frame.put_start]
    exact houter.2

/-- The containers that the end of the text closes, the innermost first. -/
theorem colonsFit_unwind {outer : List Frame} {node : Node} (finish : Token)
    (houter : FramesColonsFit Colon outer reached) (hnode : node.All (Node.ColonFits Colon))
    (hstart : reached ≤ node.span.start) :
    (unwind finish node outer).1.All (Node.ColonFits Colon) := by
  induction outer generalizing node reached with
  | nil => exact hnode
  | cons frame outer ih =>
    have hclosed := Level.colonsFit_close (houter.1.put hnode hstart) finish.stop
    exact ih houter.2 hclosed (Nat.le_of_eq (Frame.put_start frame node).symm)

/-! ## One move -/

variable {token : Token} {level : Level} {outer : List Frame}

/-- The first token of a value, inside the given containers. -/
theorem colonsFit_enter? {move : Move} (hmove : enter? outer token = some move)
    (houter : FramesColonsFit Colon outer token.start) :
    move.1.ColonsFit Colon token.stop := by
  rcases enter?_eq_some hmove with ⟨kind, hscalar, hstate⟩ | ⟨shape, hkind, rfl⟩
  · have hvalue : kind.isProperty = false := by
      have hscalarKind := isScalar_of_scalar? hscalar
      cases kind <;> simp_all [Node.Kind.isProperty, Node.Kind.isScalar]
    rw [hstate]
    exact colonsFit_deliver houter ⟨Node.colonFits_of_isProperty hvalue, trivial⟩ (Nat.le_refl _)
  · exact ⟨trivial, colonFits_of_key?_eq_none rfl, houter⟩

/-- A container once its unfinished property is finished. -/
theorem colonsFit_settle {phase : Phase} (hlevel : level.children.All (Node.ColonFits Colon))
    (hphase : ∀ key colon, phase.key? = some (key, colon) → key.ColonFits Colon reached colon)
    (token : Token) : (level.settle phase token).children.All (Node.ColonFits Colon) := by
  cases hkey : phase.key? with
  | none =>
    rw [Level.settle_of_key?_eq_none hkey]
    exact hlevel
  | some unfinished =>
    obtain ⟨key, colon⟩ := unfinished
    rw [Level.settle_of_key? hkey]
    have hproperty := (hphase key colon hkey).property_none
      (if token.kind = .comma then token.start else token.stop)
    exact ⟨hproperty.1, hproperty.2, hlevel⟩

/-- One move keeps the invariant. -/
theorem colonsFit_leads {state next : State} (hle : reached ≤ token.start)
    (hcolon : token.kind = .colon → Colon token.start ∧ token.start < token.stop)
    (hstate : state.ColonsFit Colon reached) (hleads : Leads token state next) :
    next.ColonsFit Colon token.stop := by
  have hstop : reached ≤ token.stop := Nat.le_trans hle (start_le_stop token)
  cases hleads with
  | nothing => trivial
  | value henter => exact colonsFit_enter? henter trivial
  | comma =>
    have hlevel := colonsFit_settle hstate.1 hstate.2.1 token
    refine ⟨hlevel, colonFits_of_key?_eq_none rfl, ?_⟩
    rw [Level.settle_start]
    exact hstate.2.2
  | close =>
    have hnode := Level.colonsFit_close (colonsFit_settle hstate.1 hstate.2.1 token) token.stop
    exact colonsFit_deliver hstate.2.2 hnode (Nat.le_of_eq (Level.settle_start _ _ token).symm)
  | finish =>
    have hnode := Level.colonsFit_close (colonsFit_settle hstate.1 hstate.2.1 token) token.stop
    exact colonsFit_unwind token hstate.2.2 hnode (Nat.le_of_eq (Level.settle_start _ _ token).symm)
  | element _ _ henter => exact colonsFit_enter? henter ⟨hstate.1, hstate.2.2⟩
  | name =>
    refine ⟨hstate.1, fun key colon hkey => ?_, hstate.2.2⟩
    obtain ⟨rfl, rfl⟩ := Prod.mk.inj (Option.some.inj hkey)
    exact Nat.le_refl _
  | @colon level key outer hkind =>
    obtain ⟨hplace, hnonempty⟩ := hcolon hkind
    refine ⟨hstate.1, fun key' colon hkey => ?_, hstate.2.2⟩
    obtain ⟨rfl, rfl⟩ := Prod.mk.inj (Option.some.inj hkey)
    have hread : key.span.stop ≤ reached := hstate.2.1 key none rfl
    exact ⟨hplace, Nat.le_trans hread hle, hnonempty⟩
  | @member level key colon outer _ henter =>
    have hkey := (hstate.2.1 key (some colon) rfl).mono hle
    exact colonsFit_enter? henter ⟨⟨hstate.1, hkey⟩, hstate.2.2⟩
  | lost => exact ⟨hstate.1, colonFits_of_key?_eq_none rfl, hstate.2.2⟩
  | stuck hkey =>
    refine ⟨hstate.1, fun key' colon' hkey' => ?_, hstate.2.2⟩
    obtain ⟨rfl, rfl⟩ := Prod.mk.inj (Option.some.inj hkey')
    exact (hstate.2.1 _ _ hkey).mono hstop
  | root => exact hstate
  | «over» => exact hstate.mono hstop

/-! ## Whole documents -/

theorem colonAt_of_mem {text : List Char} {token : Token}
    (htoken : token ∈ Token.ofText text ++ [Token.endOf text]) (hkind : token.kind = .colon) :
    ColonAt text token.start := by
  have hlisted : token ∈ Token.ofText text := by
    rcases List.mem_append.1 htoken with hlisted | hend
    · exact hlisted
    · obtain rfl := List.mem_singleton.1 hend
      contradiction
  obtain ⟨c, cs, hform⟩ := (Token.covers_ofText text).exists_form hlisted
  obtain ⟨before, after, htext, hstart⟩ := Token.exists_around htoken
  have hcolon : Lexeme.punctuation? ':' = some token.kind := by
    rw [hkind]
    rfl
  obtain ⟨-, hlexeme⟩ := hform.eq_of_punctuation? hcolon
  rw [congrArg Lexeme.text hlexeme] at htext
  exact ⟨before, after, htext.symm, hstart⟩

/-- The properties of a document have their colons where they belong. -/
theorem colonFits_ofText {options : Options} {text : List Char} {root : Node}
    (hroot : (ofText options text).tree = some root) :
    root.All (Node.ColonFits (ColonAt text)) := by
  have hstate : State.ColonsFit (ColonAt text) (width text)
      (State.start.run options (Token.ofText text ++ [Token.endOf text])).1 := by
    refine holds_run_ofText options text (State.ColonsFit (ColonAt text))
      (fun hle hstate => hstate.mono hle) ?_ trivial
    intro state next reached token htoken hle hstate hleads
    refine colonsFit_leads hle (fun hkind => ?_) hstate hleads
    exact ⟨colonAt_of_mem htoken hkind, Token.start_lt_stop htoken (by simp [hkind])⟩
  rw [ofText, ofTokens_eq_run] at hroot
  cases hrun : (State.start.run options (Token.ofText text ++ [Token.endOf text])).1 with
  | start | within => simp [hrun, State.tree] at hroot
  | root node =>
    obtain rfl : node = root := by simpa [hrun, State.tree] using hroot
    simpa [hrun, State.ColonsFit] using hstate
  | «over» tree =>
    obtain rfl : tree = some root := by simpa [hrun, State.tree] using hroot
    simpa [hrun, State.ColonsFit] using hstate

/-- A property that is laid out well and has its colon where it belongs. -/
theorem isProperty_of_fits {text : List Char} {node : Node} {colon : Option Nat}
    (hkind : node.kind = .property colon) (hschema : node.Schema)
    (hcolon : node.ColonFits (ColonAt text)) : node.IsProperty text colon := by
  obtain ⟨key, values, hchildren, hplace, hvalues⟩ := hcolon colon hkind
  simp only [Node.Schema, hkind] at hschema
  obtain ⟨name, span, hstart, hkey | ⟨value, hkey, hvalue⟩⟩ := hschema
  · obtain ⟨rfl, rfl⟩ := List.cons.inj (hchildren.symm.trans hkey)
    exact ⟨_, name, rfl, rfl, hstart, hplace, .inl hkey⟩
  · obtain ⟨rfl, rfl⟩ := List.cons.inj (hchildren.symm.trans hkey)
    exact ⟨_, name, rfl, rfl, hstart, hplace,
      .inr ⟨value, hkey, hvalue, hvalues value (List.mem_singleton_self value)⟩⟩

/-- Only objects have properties for children. -/
theorem kind_eq_object {node child : Node} (hschema : node.Schema)
    (hchild : child ∈ node.children.toList) (hkind : child.kind.isProperty = true) :
    node.kind = .object := by
  have hvalue (hfalse : child.kind.isProperty = false) : node.kind = .object :=
    absurd (hkind.symm.trans hfalse) (by decide)
  unfold Node.Schema at hschema
  split at hschema
  · assumption
  · exact hvalue (hschema child hchild)
  · obtain ⟨name, span, -, hkey | ⟨value, hkey, hnot⟩⟩ := hschema
    · rw [hkey, List.mem_singleton] at hchild
      exact hvalue (by rw [hchild]; rfl)
    · rw [hkey, List.mem_pair] at hchild
      rcases hchild with rfl | rfl
      · exact hvalue rfl
      · exact hvalue hnot
  · rw [hschema] at hchild
    contradiction

/-- The tree of every text obeys the schema of nodes, whatever is wrong with the text. -/
theorem obeys_ofText {options : Options} {text : List Char} {root : Node}
    (hroot : (ofText options text).tree = some root) : root.Obeys text := by
  have hfits := rootFits_ofText hroot
  have hcolons := Node.all_toForest.2 (colonFits_ofText hroot)
  have hschema {number : Nat} {above : Option Nat} {node : Node}
      (hhas : root.Has number above node) : node.Schema := (hhas.isFit hfits.all).1.schema
  refine ⟨hfits.value, fun hhas hkind => ?_, fun hhas hkind => ?_, fun hhas hkind => ?_,
    fun hhas hkind => ?_⟩
  · have hchildren := hschema hhas
    simpa only [Node.Schema, hkind] using hchildren
  · rcases hhas.parent_cases with ⟨-, rfl⟩ | ⟨parent, parentAbove, object, rfl, -, hparent, hmem⟩
    · -- The root is a value.
      obtain ⟨-, rfl⟩ := hhas.unique root.has_zero
      exact absurd (hkind.symm.trans hfits.value) (by decide)
    · obtain ⟨child, hchild, hhas'⟩ := hparent.child hmem
      obtain ⟨-, rfl⟩ := hhas.unique hhas'
      exact ⟨parent, parentAbove, object, rfl, hparent,
        kind_eq_object (hschema hparent) hchild hkind, hchild⟩
  · exact isProperty_of_fits hkind (hschema hhas) (Forest.Has.of_all hhas hcolons).1
  · have hchildren := hschema hhas
    unfold Node.Schema at hchildren
    split at hchildren <;> simp_all [Node.Kind.isScalar]

/-- A property without a colon, one without a value and a colon that is skipped in an
object that is never closed. -/
theorem obeys_ofText_unclosed :
    ∃ root, (ofText default "\x7b\"a\" 1, \"b\": :, \"c\": [\"d\": 2".toList).tree = some root ∧
      root.size = 9 ∧ root.Obeys "\x7b\"a\" 1, \"b\": :, \"c\": [\"d\": 2".toList := by
  obtain ⟨root, hroot⟩ : ∃ root,
      (ofText default "\x7b\"a\" 1, \"b\": :, \"c\": [\"d\": 2".toList).tree = some root :=
    Option.isSome_iff_exists.1 (by decide +kernel)
  refine ⟨root, hroot, ?_, obeys_ofText hroot⟩
  have hsize : ((ofText default "\x7b\"a\" 1, \"b\": :, \"c\": [\"d\": 2".toList).tree.map
      Node.size) = some 9 := by decide +kernel
  rw [hroot] at hsize
  exact Option.some.inj hsize

end Document

end TaskFile
