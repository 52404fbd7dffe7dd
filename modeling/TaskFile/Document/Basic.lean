import TaskFile.Token.Basic
import TaskFile.Tree.Basic
import TaskFile.Number.Numeral
import TaskFile.Token.Stream

/-!
# Documents

Reading a text as a document: its tree, if it has one, and its problems in the
order of the text.  Every text can be read.

The tokens of the text, the end included, are taken one after the other.  Each
one first gives the problems that it has on its own; the significant ones then
move the reading state.  Once a value has been read, or the first significant
token starts none, the rest of the text is not looked at.

The state is the stack of the containers that are still open, with what the
innermost one waits for, so that every significant token is looked at exactly
once and no text makes the reading fail.

* `State` is that stack, `State.step` the move at one significant token, with
  the problems met there.
* A token that does not fit is reported and skipped, together with what
  follows it, up to the next comma or closing bracket of the open container.
* `Options` only change which problems are reported, never the tree.
* `Document.ofText` is the document of a text.
-/

namespace TaskFile

/-! ## Problems -/

namespace Problem

/-- What is wrong: a fault of a token, or a token that does not fit. -/
inductive Kind
  | stray
  | numberFormat
  | nameExpected
  | valueExpected
  | colonExpected
  | commaExpected
  | braceExpected
  | bracketExpected
  | endExpected
  | commentForbidden
  | fault (fault : Token.Fault)
  deriving DecidableEq, Repr

namespace Kind

/-- The message of a problem. -/
def message : Kind → String
  | .stray => "invalid symbol"
  | .numberFormat => "invalid number format"
  | .nameExpected => "property name expected"
  | .valueExpected => "value expected"
  | .colonExpected => "colon expected"
  | .commaExpected => "comma expected"
  | .braceExpected => "closing brace expected"
  | .bracketExpected => "closing bracket expected"
  | .endExpected => "end of file expected"
  | .commentForbidden => "comments are not permitted"
  | .fault .openComment => "unexpected end of comment"
  | .fault .openString => "unexpected end of string"
  | .fault .openNumber => "unexpected end of number"
  | .fault .brokenUnicode => "invalid unicode sequence in string"
  | .fault .unknownEscape => "invalid escape character in string"
  | .fault .rawControl => "invalid character in string"

end Kind

end Problem

/-- A problem and the span of the token that it was met on. -/
structure Problem where
  kind : Problem.Kind
  span : Span
  deriving DecidableEq, Repr

/-- A problem as a line of text. -/
def Problem.display (problem : Problem) : String :=
  problem.kind.message ++ " at " ++ Nat.repr problem.span.start ++ ".." ++
    Nat.repr problem.span.stop

namespace Token

/-- What a token alone gives reason to report: its fault, and that it is stray
text or a comment where comments are forbidden. -/
def problems (forbidComments : Bool) (token : Token) : List Problem :=
  (token.fault.map fun fault => ⟨.fault fault, token.span⟩).toList ++
    (if token.kind.isComment && forbidComments then [⟨.commentForbidden, token.span⟩]
     else if token.kind = .stray then [⟨.stray, token.span⟩]
     else [])

end Token

/-! ## States -/

/-- What a document may hold without a problem being reported. -/
structure Options where
  forbidComments : Bool
  trailingComma : Bool
  emptyDocument : Bool
  deriving DecidableEq, Repr

/-- Comments are welcome, trailing commas and empty documents are not. -/
instance : Inhabited Options := ⟨⟨false, false, false⟩⟩

namespace Document

/-! ## Open containers -/

/-- The two containers. -/
inductive Shape
  | object
  | array
  deriving DecidableEq, Repr

namespace Shape

/-- The kind of the container's node. -/
def kind : Shape → Node.Kind
  | .object => .object
  | .array => .array

/-- The token that closes the container. -/
def closer : Shape → Token.Kind
  | .object => .braceClose
  | .array => .bracketClose

/-- The problem of a container that is never closed. -/
def unclosed : Shape → Problem.Kind
  | .object => .braceExpected
  | .array => .bracketExpected

end Shape

/-- An open container: where it starts and its finished children, the last one
first. -/
structure Level where
  shape : Shape
  start : Nat
  children : Forest
  deriving DecidableEq, Repr

/-- The key of a property. -/
structure Key where
  span : Span
  name : String
  deriving DecidableEq, Repr

/-- The property with a key, and with a value if it has one.  It ends with its
value, otherwise at a given offset. -/
def Key.property (key : Key) (colon : Option Nat) (value : Option Node) (stop : Nat) : Node :=
  ⟨.property colon,
   ⟨key.span.start, max key.span.start ((value.map (·.span.stop)).getD stop)⟩,
   .cons (.string key.name) key.span .nil ((value.map Node.toForest).getD .nil)⟩

namespace Level

/-- One more child. -/
def push (level : Level) (node : Node) : Level :=
  { level with children := level.children.push node }

/-- The finished container, ending at a given offset. -/
def close (level : Level) (stop : Nat) : Node :=
  ⟨level.shape.kind, ⟨level.start, max level.start stop⟩, level.children.reverse⟩

end Level

/-- A container around an unfinished value: an array of which the value will be
an element, or an object of which it will be the value of a property. -/
inductive Frame
  | element (level : Level)
  | member (level : Level) (key : Key) (colon : Nat)
  deriving DecidableEq, Repr

namespace Frame

/-- The container itself. -/
def level : Frame → Level
  | .element level => level
  | .member level _ _ => level

/-- The container with its value finished. -/
def put (node : Node) : Frame → Level
  | .element level => level.push node
  | .member level key colon => level.push (key.property (some colon) (some node) 0)

end Frame

/-- What the innermost container waits for. -/
inductive Phase
  /-- Nothing was read since the container was opened. -/
  | first
  /-- A child is finished: a comma or the end. -/
  | next
  /-- A comma was just read: a child. -/
  | comma
  /-- What was read is no child: the next comma or the end. -/
  | lost
  /-- A key was just read: its colon. -/
  | key (key : Key)
  /-- A key and its colon were just read: the value. -/
  | colon (key : Key) (colon : Nat)
  /-- A key was read that gets no value: the next comma or the end. -/
  | stuck (key : Key) (colon : Option Nat)
  deriving DecidableEq, Repr

/-- How far a document has been read. -/
inductive State
  /-- No significant token was read. -/
  | start
  /-- Containers are open, `level` the innermost of them. -/
  | within (level : Level) (phase : Phase) (outer : List Frame)
  /-- The value of the document is finished. -/
  | root (node : Node)
  /-- Nothing more is read. -/
  | over (tree : Option Node)
  deriving DecidableEq, Repr

/-! ## Moves -/

/-- A state and the problems met on the way to it. -/
abbrev Move := State × List Problem

/-- A problem met on a token. -/
def complain (kind : Problem.Kind) (token : Token) : Problem := ⟨kind, token.span⟩

/-- A move after further problems. -/
def Move.after (problems : List Problem) (move : Move) : Move :=
  (move.1, problems ++ move.2)

/-- The state after a value is finished inside the given containers. -/
def deliver (node : Node) : List Frame → State
  | [] => .root node
  | frame :: outer => .within (frame.put node) .next outer

/-- The tree when the document ends inside the given containers, and the
problems of those, the innermost first. -/
def unwind (finish : Token) (node : Node) : List Frame → Node × List Problem
  | [] => (node, [])
  | frame :: outer =>
    let (root, problems) := unwind finish ((frame.put node).close finish.stop) outer
    (root, complain frame.level.shape.unclosed finish :: problems)

/-- The move at a comma or at the end of a container or of the document.  No
other token is asked for. -/
def separate (level : Level) (outer : List Frame) (token : Token) : Move :=
  if token.kind = .comma then (.within level .comma outer, [])
  else if token.kind = .finish then
    let (root, problems) := unwind token (level.close token.stop) outer
    (.over (some root), complain level.shape.unclosed token :: problems)
  else (deliver (level.close token.stop) outer, [])

/-- Whether a token stops the skipping inside a container. -/
def isSeparator (shape : Shape) (token : Token) : Bool :=
  token.kind == .comma || token.kind == shape.closer || token.kind == .finish

/-- The scalar that a token is, and the problem of a number that is none. -/
def scalar? (token : Token) : Option (Node.Kind × List Problem) :=
  match token.kind with
  | .string => some (.string (token.string?.getD ""), [])
  | .number =>
    match (Numeral.ofChars token.text).value? with
    | some value => some (.number value, [])
    | none => some (.number .zero, [complain .numberFormat token])
  | .yes => some (.boolean true, [])
  | .no => some (.boolean false, [])
  | .null => some (.null, [])
  | _ => none

/-- The move at the first token of a value inside the given containers, if it
is one. -/
def enter? (outer : List Frame) (token : Token) : Option Move :=
  match token.kind with
  | .braceOpen => some (.within ⟨.object, token.start, .nil⟩ .first outer, [])
  | .bracketOpen => some (.within ⟨.array, token.start, .nil⟩ .first outer, [])
  | _ => (scalar? token).map fun (kind, problems) =>
    (deliver ⟨kind, token.span, .nil⟩ outer, problems)

/-- The move at a token after something that is no child.  In an object it is
reported once more where the skipping stops. -/
def skip (level : Level) (outer : List Frame) (token : Token) : Move :=
  if isSeparator level.shape token then
    (separate level outer token).after <|
      if level.shape = .object then [complain .valueExpected token] else []
  else (.within level .lost outer, [])

/-- The move at a token where a property has been given up.  The property ends
before a comma, and otherwise with the token that ends its object. -/
def abandon (level : Level) (outer : List Frame) (key : Key) (colon : Option Nat)
    (token : Token) : Move :=
  if isSeparator level.shape token then
    let stop := if token.kind = .comma then token.start else token.stop
    separate (level.push (key.property colon none stop)) outer token
  else (.within level (.stuck key colon) outer, [])

/-- The move at the first token of a child. -/
def child (level : Level) (outer : List Frame) (token : Token) : Move :=
  match level.shape with
  | .array =>
    (enter? (.element level :: outer) token).getD <|
      (skip level outer token).after [complain .valueExpected token]
  | .object =>
    if token.kind = .string then
      (.within level (.key ⟨token.span, token.string?.getD ""⟩) outer, [])
    else (skip level outer token).after [complain .nameExpected token]

/-- The move at a token inside a container. -/
def proceed (options : Options) (level : Level) (phase : Phase) (outer : List Frame)
    (token : Token) : Move :=
  match phase with
  | .first =>
    if token.kind = .comma then
      (separate level outer token).after [complain .valueExpected token]
    else if isSeparator level.shape token then separate level outer token
    else child level outer token
  | .next =>
    if isSeparator level.shape token then separate level outer token
    else (child level outer token).after [complain .commaExpected token]
  | .comma =>
    if token.kind = level.shape.closer && options.trailingComma then separate level outer token
    else child level outer token
  | .lost => skip level outer token
  | .key key =>
    if token.kind = .colon then (.within level (.colon key token.start) outer, [])
    else (abandon level outer key none token).after [complain .colonExpected token]
  | .colon key colon =>
    (enter? (.member level key colon :: outer) token).getD <|
      (abandon level outer key (some colon) token).after [complain .valueExpected token]
  | .stuck key colon => abandon level outer key colon token

namespace State

/-- Whether nothing more is read. -/
def isOver : State → Bool
  | .over _ => true
  | _ => false

/-- The tree read so far, once its value is finished. -/
def tree : State → Option Node
  | .root node => some node
  | .over tree => tree
  | _ => none

/-- The move at a significant token. -/
def step (options : Options) (state : State) (token : Token) : Move :=
  match state with
  | .start =>
    if token.kind = .finish then
      (.over none, if options.emptyDocument then [] else [complain .valueExpected token])
    else (enter? [] token).getD (.over none, [complain .valueExpected token])
  | .within level phase outer => proceed options level phase outer token
  | .root node =>
    (.over (some node),
      if token.kind = .finish then [] else [complain .endExpected token])
  | .over _ => (state, [])

end State

end Document

/-! ## Documents -/

/-- What is known of a document: its tree and its problems. -/
structure Document where
  tree : Option Node
  problems : List Problem
  deriving DecidableEq, Repr

namespace Document

/-- The state of a reading and the problems so far. -/
structure Reading where
  state : State
  problems : Array Problem

namespace Reading

/-- Nothing has been read. -/
def initial : Reading := ⟨.start, #[]⟩

/-- The reading after one more token. -/
def take (options : Options) (reading : Reading) (token : Token) : Reading :=
  if reading.state.isOver then reading
  else
    let alone := reading.problems ++ token.problems options.forbidComments
    if token.kind.isSignificant then
      let (state, problems) := reading.state.step options token
      ⟨state, alone ++ problems⟩
    else ⟨reading.state, alone⟩

end Reading

/-- The document that a list of tokens makes up. -/
def ofTokens (options : Options) (tokens : List Token) : Document :=
  let reading := tokens.foldl (Reading.take options) Reading.initial
  ⟨reading.state.tree, reading.problems.toList⟩

/-- The document of a text. -/
def ofText (options : Options) (text : List Char) : Document :=
  ofTokens options (Token.ofText text ++ [Token.endOf text])

/-- Whether a document has no problem. -/
def isValid (document : Document) : Bool := document.problems.isEmpty

end Document

end TaskFile
