import TaskFile.Proofs.Document.Move
import TaskFile.Proofs.Token.Stream
import TaskFile.Proofs.Tree.Layout

/-!
# The tree of a document is well laid out

Whatever the text, every node of its tree is as it should be
(`Node.IsFit`): `rootFits_ofText`.

While a document is read, the nodes that are finished end before the next
token, and the containers that are open start before it.  `State.IsFit` says
so for a state and the offset that the reading has come to.  Where a container
is closed early, because the text ends or a token was skipped, its end is only
then known, and it lies after all that the container holds.
-/

namespace TaskFile.Document

/-! ## The invariant -/

section Invariant

variable (Offset : Nat → Prop)

/-- An open container: what is finished in it ends before an offset. -/
structure Level.IsFit (level : Level) (reached : Nat) : Prop where
  start : Offset level.start
  start_lt : level.start < reached
  children : Node.InOrder level.start reached level.children.reverse.toList
  all : level.children.All (Node.IsFit Offset)
  kinds : ∀ child ∈ level.children.toList, child.kind.isProperty = (level.shape == .object)

/-- The key of an unfinished property ends before an offset. -/
structure Key.IsFit (key : Key) (reached : Nat) : Prop where
  start : Offset key.span.start
  stop : Offset key.span.stop
  nonempty : key.span.start < key.span.stop
  stop_le : key.span.stop ≤ reached

/-- A container around a value that starts at or after an offset. -/
def Frame.IsFit (reached : Nat) : Frame → Prop
  | .element level => level.IsFit Offset reached ∧ level.shape = .array
  | .member level key _ =>
    level.IsFit Offset key.span.start ∧ level.shape = .object ∧ key.IsFit Offset reached

/-- Containers around a value that starts at or after an offset, each of them
around the next one further in. -/
def FramesFit : List Frame → Nat → Prop
  | [], _ => True
  | frame :: outer, reached => frame.IsFit Offset reached ∧ FramesFit outer frame.level.start

/-- The innermost container in a phase. -/
def PhaseFits (level : Level) (reached : Nat) (phase : Phase) : Prop :=
  match phase.key? with
  | none => level.IsFit Offset reached
  | some (key, _) =>
    level.IsFit Offset key.span.start ∧ level.shape = .object ∧ key.IsFit Offset reached

/-- A finished tree that ends before an offset. -/
structure RootFits (node : Node) (reached : Nat) : Prop where
  all : node.All (Node.IsFit Offset)
  value : node.kind.isProperty = false
  stop_le : node.span.stop ≤ reached

/-- A state after the text before an offset has been read. -/
def State.IsFit (reached : Nat) : State → Prop
  | .start | .over none => True
  | .within level phase outer =>
    PhaseFits Offset level reached phase ∧ FramesFit Offset outer level.start
  | .root node | .over (some node) => RootFits Offset node reached

end Invariant

variable {Offset : Nat → Prop}

/-! ## Reading on -/

theorem Level.IsFit.mono {level : Level} {reached reached' : Nat}
    (hlevel : level.IsFit Offset reached) (hle : reached ≤ reached') :
    level.IsFit Offset reached' where
  start := hlevel.start
  start_lt := Nat.lt_of_lt_of_le hlevel.start_lt hle
  children := hlevel.children.mono hle
  all := hlevel.all
  kinds := hlevel.kinds

theorem Key.IsFit.mono {key : Key} {reached reached' : Nat} (hkey : key.IsFit Offset reached)
    (hle : reached ≤ reached') : key.IsFit Offset reached' where
  start := hkey.start
  stop := hkey.stop
  nonempty := hkey.nonempty
  stop_le := Nat.le_trans hkey.stop_le hle

theorem Frame.IsFit.mono {frame : Frame} {reached reached' : Nat}
    (hframe : frame.IsFit Offset reached) (hle : reached ≤ reached') :
    frame.IsFit Offset reached' := by
  cases frame with
  | element level => exact ⟨hframe.1.mono hle, hframe.2⟩
  | member level key colon => exact ⟨hframe.1, hframe.2.1, hframe.2.2.mono hle⟩

theorem FramesFit.mono {outer : List Frame} {reached reached' : Nat}
    (houter : FramesFit Offset outer reached) (hle : reached ≤ reached') :
    FramesFit Offset outer reached' := by
  cases outer with
  | nil => trivial
  | cons frame outer => exact ⟨houter.1.mono hle, houter.2⟩

theorem RootFits.mono {node : Node} {reached reached' : Nat}
    (hnode : RootFits Offset node reached) (hle : reached ≤ reached') :
    RootFits Offset node reached' :=
  ⟨hnode.all, hnode.value, Nat.le_trans hnode.stop_le hle⟩

theorem PhaseFits.mono {level : Level} {reached reached' : Nat} {phase : Phase}
    (hphase : PhaseFits Offset level reached phase) (hle : reached ≤ reached') :
    PhaseFits Offset level reached' phase := by
  unfold PhaseFits at hphase ⊢
  split at hphase
  · exact hphase.mono hle
  · exact ⟨hphase.1, hphase.2.1, hphase.2.2.mono hle⟩

theorem State.IsFit.mono {state : State} {reached reached' : Nat}
    (hstate : state.IsFit Offset reached) (hle : reached ≤ reached') :
    state.IsFit Offset reached' := by
  cases state with
  | start => trivial
  | within level phase outer => exact ⟨hstate.1.mono hle, hstate.2⟩
  | root node => exact RootFits.mono hstate hle
  | «over» tree =>
    cases tree with
    | none => trivial
    | some node => exact RootFits.mono hstate hle

/-! ## Where containers start -/

theorem PhaseFits.start_lt {level : Level} {phase : Phase} {reached : Nat}
    (hphase : PhaseFits Offset level reached phase) : level.start < reached := by
  unfold PhaseFits at hphase
  split at hphase
  · exact hphase.start_lt
  · obtain ⟨hlevel, -, hkey⟩ := hphase
    have hstart := hlevel.start_lt
    have hnonempty := hkey.nonempty
    have hstop := hkey.stop_le
    omega

theorem Frame.IsFit.start_lt {frame : Frame} {reached : Nat}
    (hframe : frame.IsFit Offset reached) : frame.level.start < reached := by
  cases frame with
  | element level => exact hframe.1.start_lt
  | member level key colon =>
    obtain ⟨hlevel, -, hkey⟩ := hframe
    have hstart := hlevel.start_lt
    have hnonempty := hkey.nonempty
    have hstop := hkey.stop_le
    show level.start < reached
    omega

theorem FramesFit.start_lt {outer : List Frame} {reached : Nat}
    (houter : FramesFit Offset outer reached) : ∀ frame ∈ outer, frame.level.start < reached := by
  induction outer generalizing reached with
  | nil => exact List.forall_mem_nil _
  | cons first outer ih =>
    have hfirst := houter.1.start_lt
    refine List.forall_mem_cons.2 ⟨hfirst, fun frame hframe => ?_⟩
    exact Nat.lt_trans (ih houter.2 frame hframe) hfirst

/-! ## Finishing nodes -/

/-- One more child that starts at or after the offset that was reached. -/
theorem Level.IsFit.push {level : Level} {reached reached' : Nat} {node : Node}
    (hlevel : level.IsFit Offset reached) (hnode : node.All (Node.IsFit Offset))
    (hkind : node.kind.isProperty = (level.shape == .object))
    (hstart : reached ≤ node.span.start) (hstop : node.span.stop ≤ reached') :
    (level.push node).IsFit Offset reached' where
  start := hlevel.start
  start_lt := by
    have := hlevel.start_lt
    have := hnode.1.nonempty
    simp only [Level.push]
    omega
  children := by
    have horder := hlevel.children.concat hstart hstop
    simpa [Level.push] using horder
  all := ⟨hnode.1, hnode.2, hlevel.all⟩
  kinds := by
    intro child hchild
    simp only [Level.push, Forest.toList_push, List.mem_cons] at hchild
    rcases hchild with rfl | hchild
    · exact hkind
    · exact hlevel.kinds child hchild

/-- The children of a closed container are those that it calls for. -/
theorem Level.IsFit.schema {level : Level} {reached : Nat} (hlevel : level.IsFit Offset reached)
    (stop : Nat) : (level.close stop).Schema := by
  have hkinds : ∀ child ∈ level.children.reverse.toList,
      child.kind.isProperty = (level.shape == .object) := by
    intro child hchild
    exact hlevel.kinds child (by simpa using hchild)
  unfold Node.Schema Level.close
  cases hshape : level.shape with
  | object =>
    intro child hchild
    rw [hkinds child hchild, hshape]
    rfl
  | array =>
    intro child hchild
    rw [hkinds child hchild, hshape]
    rfl

/-- A container is closed at or after the offset that was reached. -/
theorem Level.IsFit.close {level : Level} {reached stop : Nat}
    (hlevel : level.IsFit Offset reached) (hstop : Offset stop) (hle : reached ≤ stop) :
    (level.close stop).All (Node.IsFit Offset) ∧ (level.close stop).kind.isProperty = false ∧
      (level.close stop).span = ⟨level.start, stop⟩ := by
  have hlt := hlevel.start_lt
  have hmax : max level.start stop = stop := by omega
  have hspan : (level.close stop).span = ⟨level.start, stop⟩ := by simp [Level.close, hmax]
  refine ⟨⟨⟨?_, ?_, ?_, ?_, hlevel.schema stop⟩, Forest.all_reverse.2 hlevel.all⟩, ?_, hspan⟩
  · rw [hspan]
    exact hlevel.start
  · rw [hspan]
    exact hstop
  · rw [hspan]
    show level.start < stop
    omega
  · rw [hspan]
    exact hlevel.children.mono hle
  · cases hshape : level.shape <;> simp [Level.close, hshape, Shape.kind, Node.Kind.isProperty]

/-- The node of a key. -/
theorem Key.IsFit.node {key : Key} {reached : Nat} (hkey : key.IsFit Offset reached) :
    Node.IsFit Offset ⟨.string key.name, key.span, .nil⟩ where
  start := hkey.start
  stop := hkey.stop
  nonempty := hkey.nonempty
  children := Nat.le_of_lt hkey.nonempty
  schema := rfl

/-- A property without a value is finished at or after the end of its key. -/
theorem Key.IsFit.property_none {key : Key} {reached stop : Nat} (hkey : key.IsFit Offset reached)
    (colon : Option Nat) (hstop : Offset stop) (hle : reached ≤ stop) :
    (key.property colon none stop).All (Node.IsFit Offset) ∧
      (key.property colon none stop).span = ⟨key.span.start, stop⟩ := by
  have hnonempty := hkey.nonempty
  have hkeystop := hkey.stop_le
  have hmax : max key.span.start stop = stop := by omega
  have hspan : (key.property colon none stop).span = ⟨key.span.start, stop⟩ := by
    simp [Key.property, hmax]
  refine ⟨⟨⟨?_, ?_, ?_, ?_, ?_⟩, hkey.node, trivial, trivial⟩, hspan⟩
  · rw [hspan]
    exact hkey.start
  · rw [hspan]
    exact hstop
  · rw [hspan]
    show key.span.start < stop
    omega
  · rw [hspan]
    refine ⟨Nat.le_refl _, ?_⟩
    show key.span.stop ≤ stop
    omega
  · exact ⟨key.name, key.span, rfl, .inl rfl⟩

/-- A property with a value that starts at or after the end of its key. -/
theorem Key.IsFit.property_some {key : Key} {reached : Nat} {value : Node}
    (hkey : key.IsFit Offset reached) (colon : Option Nat)
    (hvalue : value.All (Node.IsFit Offset)) (hkind : value.kind.isProperty = false)
    (hstart : reached ≤ value.span.start) (stop : Nat) :
    (key.property colon (some value) stop).All (Node.IsFit Offset) ∧
      (key.property colon (some value) stop).span = ⟨key.span.start, value.span.stop⟩ := by
  have hnonempty := hkey.nonempty
  have hkeystop := hkey.stop_le
  have hvaluelt := hvalue.1.nonempty
  have hmax : max key.span.start value.span.stop = value.span.stop := by omega
  have hspan : (key.property colon (some value) stop).span =
      ⟨key.span.start, value.span.stop⟩ := by
    simp [Key.property, hmax]
  refine ⟨⟨⟨?_, ?_, ?_, ?_, ?_⟩, hkey.node, trivial, hvalue.1, hvalue.2, trivial⟩, hspan⟩
  · rw [hspan]
    exact hkey.start
  · rw [hspan]
    exact hvalue.1.stop
  · rw [hspan]
    show key.span.start < value.span.stop
    omega
  · rw [hspan]
    refine ⟨Nat.le_refl _, ?_, Nat.le_refl _⟩
    show key.span.stop ≤ value.span.start
    omega
  · exact ⟨key.name, key.span, rfl, .inr ⟨value, rfl, hkind⟩⟩

/-! ## Finishing values -/

/-- A container around a finished value. -/
theorem Frame.IsFit.put {frame : Frame} {reached reached' : Nat} {node : Node}
    (hframe : frame.IsFit Offset reached) (hnode : node.All (Node.IsFit Offset))
    (hkind : node.kind.isProperty = false) (hstart : reached ≤ node.span.start)
    (hstop : node.span.stop ≤ reached') : (frame.put node).IsFit Offset reached' := by
  cases frame with
  | element level =>
    obtain ⟨hlevel, hshape⟩ := hframe
    refine hlevel.push hnode ?_ hstart hstop
    rw [hkind, hshape]
    rfl
  | member level key colon =>
    obtain ⟨hlevel, hshape, hkey⟩ := hframe
    obtain ⟨hproperty, hspan⟩ := hkey.property_some (some colon) hnode hkind hstart 0
    refine hlevel.push hproperty ?_ ?_ ?_
    · rw [hshape]
      rfl
    · simp [hspan]
    · rw [hspan]
      exact hstop

@[simp] theorem Frame.put_start (frame : Frame) (node : Node) :
    (frame.put node).start = frame.level.start := by
  cases frame <;> rfl

@[simp] theorem Frame.put_shape (frame : Frame) (node : Node) :
    (frame.put node).shape = frame.level.shape := by
  cases frame <;> rfl

/-- A finished value inside the given containers. -/
theorem isFit_deliver {outer : List Frame} {reached reached' : Nat} {node : Node}
    (houter : FramesFit Offset outer reached) (hnode : node.All (Node.IsFit Offset))
    (hkind : node.kind.isProperty = false) (hstart : reached ≤ node.span.start)
    (hstop : node.span.stop ≤ reached') : (deliver node outer).IsFit Offset reached' := by
  cases outer with
  | nil => exact ⟨hnode, hkind, hstop⟩
  | cons frame outer =>
    refine ⟨houter.1.put hnode hkind hstart hstop, ?_⟩
    rw [Frame.put_start]
    exact houter.2

/-- The containers that the end of the text closes, the innermost first. -/
theorem rootFits_unwind {outer : List Frame} {reached : Nat} {finish : Token} {node : Node}
    (houter : FramesFit Offset outer reached) (hnode : node.All (Node.IsFit Offset))
    (hkind : node.kind.isProperty = false) (hstart : reached ≤ node.span.start)
    (hstop : node.span.stop ≤ finish.stop) (hoffset : Offset finish.stop) :
    RootFits Offset (unwind finish node outer).1 finish.stop := by
  induction outer generalizing node reached with
  | nil => exact ⟨hnode, hkind, hstop⟩
  | cons frame outer ih =>
    have hlevel := houter.1.put hnode hkind hstart hstop
    obtain ⟨hclosed, hclosedKind, hspan⟩ := hlevel.close hoffset (Nat.le_refl _)
    refine ih houter.2 hclosed hclosedKind ?_ ?_
    · simp [hspan]
    · simp [hspan]

/-! ## One move -/

/-- What a token has to be for the invariant: it comes after what was read, its
bounds are proper offsets, and only the end is empty. -/
structure Follows (Offset : Nat → Prop) (reached : Nat) (token : Token) : Prop where
  le_start : reached ≤ token.start
  start : Offset token.start
  stop : Offset token.stop
  nonempty : token.kind ≠ .finish → token.start < token.stop

variable {reached : Nat} {token : Token} {level : Level} {outer : List Frame}

theorem start_le_stop (token : Token) : token.start ≤ token.stop := Nat.le_add_right _ _

theorem Follows.le_stop (htoken : Follows Offset reached token) : reached ≤ token.stop :=
  Nat.le_trans htoken.le_start (start_le_stop token)

/-- The first token of a value, inside the given containers. -/
theorem isFit_enter? {move : Move} (hmove : enter? outer token = some move)
    (htoken : Follows Offset reached token) (houter : FramesFit Offset outer reached) :
    move.1.IsFit Offset token.stop := by
  have houter := houter.mono htoken.le_start
  rcases enter?_eq_some hmove with ⟨kind, hscalar, hstate⟩ | ⟨shape, hkind, rfl⟩
  · have hscalarKind := isScalar_of_scalar? hscalar
    have hliteral := isLiteral_of_scalar? hscalar
    have hne : token.kind ≠ .finish := by
      intro hfinish
      rw [hfinish] at hliteral
      contradiction
    have hnode : Node.IsFit Offset ⟨kind, token.span, .nil⟩ :=
      ⟨htoken.start, htoken.stop, htoken.nonempty hne, start_le_stop token, by
        cases kind <;> simp_all [Node.Schema, Node.Kind.isScalar]⟩
    have hvalue : kind.isProperty = false := by
      cases kind <;> simp_all [Node.Kind.isProperty, Node.Kind.isScalar]
    rw [hstate]
    exact isFit_deliver houter ⟨hnode, trivial⟩ hvalue (Nat.le_refl _) (Nat.le_refl _)
  · have hne : token.kind ≠ .finish := by
      rw [hkind]
      cases shape <;> simp [Shape.opener]
    exact ⟨⟨htoken.start, htoken.nonempty hne, start_le_stop token, trivial, by simp⟩, houter⟩

/-- A container once its unfinished property is finished. -/
theorem isFit_settle {phase : Phase} (htoken : Follows Offset reached token)
    (hphase : PhaseFits Offset level reached phase) :
    (level.settle phase token).IsFit Offset token.stop := by
  cases hkey : phase.key? with
  | none =>
    rw [Level.settle_of_key?_eq_none hkey]
    simp only [PhaseFits, hkey] at hphase
    exact hphase.mono htoken.le_stop
  | some unfinished =>
    obtain ⟨key, colon⟩ := unfinished
    simp only [PhaseFits, hkey] at hphase
    obtain ⟨hlevel, hshape, hkeyFit⟩ := hphase
    rw [Level.settle_of_key? hkey]
    have hobject : Node.Kind.isProperty (.property colon) = (level.shape == .object) := by
      rw [hshape]
      rfl
    have hle := start_le_stop token
    split
    · obtain ⟨hnode, hspan⟩ := hkeyFit.property_none colon htoken.start htoken.le_start
      refine hlevel.push hnode hobject ?_ ?_
      · simp [hspan]
      · rw [hspan]
        exact hle
    · obtain ⟨hnode, hspan⟩ := hkeyFit.property_none colon htoken.stop htoken.le_stop
      refine hlevel.push hnode hobject ?_ ?_
      · simp [hspan]
      · simp [hspan]

theorem Level.settle_start (level : Level) (phase : Phase) (token : Token) :
    (level.settle phase token).start = level.start := by
  unfold settle
  split <;> rfl

/-- One move keeps the invariant. -/
theorem isFit_leads {state next : State} (htoken : Follows Offset reached token)
    (hstate : state.IsFit Offset reached) (hleads : Leads token state next) :
    next.IsFit Offset token.stop := by
  have hstop := htoken.le_stop
  cases hleads with
  | nothing => trivial
  | value henter => exact isFit_enter? henter htoken trivial
  | comma hkind =>
    refine ⟨isFit_settle htoken hstate.1, ?_⟩
    rw [Level.settle_start]
    exact hstate.2
  | close hkind =>
    have hlevel := isFit_settle htoken hstate.1
    obtain ⟨hnode, hvalue, hspan⟩ := hlevel.close htoken.stop (Nat.le_refl _)
    refine isFit_deliver hstate.2 hnode hvalue ?_ ?_
    · simp [hspan, Level.settle_start]
    · simp [hspan]
  | finish hkind =>
    have hlevel := isFit_settle htoken hstate.1
    obtain ⟨hnode, hvalue, hspan⟩ := hlevel.close htoken.stop (Nat.le_refl _)
    refine rootFits_unwind hstate.2 hnode hvalue ?_ ?_ htoken.stop
    · simp [hspan, Level.settle_start]
    · simp [hspan]
  | element hkey hshape henter =>
    have hlevel := hstate.1
    simp only [PhaseFits, hkey] at hlevel
    exact isFit_enter? henter htoken ⟨⟨hlevel, hshape⟩, hstate.2⟩
  | name hkey hshape hkind =>
    have hlevel := hstate.1
    simp only [PhaseFits, hkey] at hlevel
    have hnonempty := htoken.nonempty (by simp [hkind])
    exact ⟨⟨hlevel.mono htoken.le_start, hshape,
      ⟨htoken.start, htoken.stop, hnonempty, Nat.le_refl _⟩⟩, hstate.2⟩
  | colon hkind => exact State.IsFit.mono hstate hstop
  | member henter => exact isFit_enter? henter htoken ⟨hstate.1, hstate.2⟩
  | lost hkey =>
    have hlevel := hstate.1
    simp only [PhaseFits, hkey] at hlevel
    exact ⟨hlevel.mono hstop, hstate.2⟩
  | stuck hkey =>
    have hlevel := hstate.1
    simp only [PhaseFits, hkey] at hlevel
    exact ⟨⟨hlevel.1, hlevel.2.1, hlevel.2.2.mono hstop⟩, hstate.2⟩
  | root => exact RootFits.mono hstate hstop
  | «over» => exact State.IsFit.mono hstate hstop

/-! ## Whole documents -/

section Tokens

variable {text : List Char}
  (hoffset : ∀ token ∈ Token.ofText text ++ [Token.endOf text],
    Offset token.start ∧ Offset token.stop)

include hoffset

/-- A move at a token of a text keeps the invariant. -/
theorem isFit_of_mem {state next : State}
    (htoken : token ∈ Token.ofText text ++ [Token.endOf text]) (hle : reached ≤ token.start)
    (hstate : state.IsFit Offset reached) (hleads : Leads token state next) :
    next.IsFit Offset token.stop :=
  isFit_leads ⟨hle, (hoffset token htoken).1, (hoffset token htoken).2,
    Token.start_lt_stop htoken⟩ hstate hleads

/-- The invariant holds wherever a reading of a text has come to. -/
theorem isFit_run (options : Options) {tokens : List Token} {before : List Char}
    (hcovers : Token.Covers 0 tokens before) (htokens : tokens ⊆ Token.ofText text) :
    (State.start.run options tokens).1.IsFit Offset (Text.width before) := by
  have hrun : (State.start.run options tokens).1.IsFit Offset (0 + Text.width before) :=
    holds_run (State.IsFit Offset) (fun hle hstate => hstate.mono hle) (isFit_of_mem hoffset)
      options hcovers (fun _ htoken => List.mem_append_left _ (htokens htoken)) trivial
  rwa [Nat.zero_add] at hrun

/-- What is read before a token is laid out well and ends before the token. -/
theorem isFit_before (options : Options) {past rest : List Token} {token : Token}
    (htokens : Token.ofText text ++ [Token.endOf text] = past ++ token :: rest) :
    (State.start.run options past).1.IsFit Offset token.start := by
  have hcovers := Token.covers_ofText text
  rcases List.eq_nil_or_concat rest with rfl | ⟨rest, last, rfl⟩
  · obtain ⟨rfl, hlast⟩ := List.append_inj' htokens rfl
    obtain rfl := List.singleton_inj.1 hlast
    exact isFit_run hoffset options hcovers (List.Subset.refl _)
  · rw [List.concat_eq_append, ← List.cons_append, ← List.append_assoc] at htokens
    have hpast := (List.append_inj' htokens rfl).1
    rw [hpast] at hcovers
    obtain ⟨before, after, -, hfront, hback⟩ := hcovers.exists_split
    rw [hback.start_eq, Nat.zero_add]
    exact isFit_run hoffset options hfront (hpast ▸ List.subset_append_left past _)

/-- A tree of a document is well laid out, and its bounds are offsets where tokens
of the text start or stop. -/
theorem rootFits_of_tokens {options : Options} {root : Node}
    (hroot : (ofText options text).tree = some root) :
    RootFits Offset root (Text.width text) := by
  have hstate : State.IsFit Offset (Text.width text)
      (State.start.run options (Token.ofText text ++ [Token.endOf text])).1 :=
    holds_run_ofText options text (State.IsFit Offset)
      (fun hle hstate => hstate.mono hle) (isFit_of_mem hoffset) trivial
  rw [ofText, ofTokens_eq_run] at hroot
  cases hrun : (State.start.run options (Token.ofText text ++ [Token.endOf text])).1 with
  | start => simp [hrun, State.tree] at hroot
  | within level phase outer => simp [hrun, State.tree] at hroot
  | root node =>
    obtain rfl : node = root := by simpa [hrun, State.tree] using hroot
    simpa [hrun, State.IsFit] using hstate
  | «over» tree =>
    obtain rfl : tree = some root := by simpa [hrun, State.tree] using hroot
    simpa [hrun, State.IsFit] using hstate

end Tokens

/-- A tree of a document is well laid out, and its bounds are boundaries of the
text. -/
theorem rootFits_ofText {options : Options} {text : List Char} {root : Node}
    (hroot : (ofText options text).tree = some root) :
    RootFits (Text.IsBoundary text) root (Text.width text) :=
  rootFits_of_tokens
    (fun _ htoken => ⟨Token.isBoundary_start htoken, Token.isBoundary_stop htoken⟩) hroot

end TaskFile.Document
