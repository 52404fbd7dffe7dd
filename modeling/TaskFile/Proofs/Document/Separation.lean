import TaskFile.Proofs.Document.Scan

/-!
# Children between commas

However many commas are written around the children of a container, none of them is lost
and none is read twice: `ofText_write`.  A problem is reported unless the commas separate
the children, one between two of them and none elsewhere.

* `Shape.write` writes children with commas, and `Child.ReadsAs` says what they are read as.
* `scan_child`, `scan_commas` and `scan_close` take a child, its commas and the last bracket
  off the front, each with the problem that the phase before makes of it.
* `scan_rows` puts them together: what is left of a container is read without a problem if
  and only if it `IsSeparated` from the phase on, which `isSeparated_first_iff` counts out.
-/

namespace TaskFile.Document

open Text

/-! ## What is written -/

/-- A child of a container as it is written: an element of an array, or a member of an
object with its key. -/
inductive Child
  | element (value : List Char)
  | member (key value : List Char)
  deriving DecidableEq, Repr

namespace Child

/-- The container that a child belongs in. -/
def shape : Child → Shape
  | .element _ => .array
  | .member _ _ => .object

def text : Child → List Char
  | .element value => value
  | .member key value => key ++ ':' :: value

/-- The value is one on its own, and the key, if there is one, is a string without a
fault. -/
def IsAccepted (options : Options) : Child → Prop
  | .element value => IsValue options value
  | .member key value => Token.ofText key = [⟨⟨.string, key, none⟩, 0⟩] ∧ IsValue options value

instance (options : Options) : DecidablePred (IsAccepted options)
  | .element _ => inferInstanceAs (Decidable (IsValue _ _))
  | .member _ _ => inferInstanceAs (Decidable (_ ∧ _))

/-- A node is what a child reads as: the tree of its value on its own, further back in the
text, or the property with its key and this tree. -/
def ReadsAs (options : Options) : Child → Node → Prop
  | .element value, node =>
    ∃ root distance, (ofText options value).tree = some root ∧ node = root.shift distance
  | .member key value, node =>
    node.kind.isProperty = true ∧ node.key? = (Lexeme.mk .string key none).string? ∧
      ∃ root distance, (ofText options value).tree = some root ∧
        node.value? = some (root.shift distance)

end Child

/-- A child, the end of its line and the commas that follow. -/
structure Row where
  child : Child
  lineEnd : LineEnd
  commas : Nat
  deriving DecidableEq, Repr

def Row.text (row : Row) : List Char :=
  row.child.text ++ (row.lineEnd.chars ++ List.replicate row.commas ',')

/-- The phase of the container behind a child and its commas. -/
def Row.phase (row : Row) : Phase := if row.commas = 0 then .next else .comma

/-- A container with commas in front of its children and behind each of them. -/
def Shape.write (shape : Shape) (commas : Nat) (rows : List Row) : List Char :=
  shape.open :: (List.replicate commas ',' ++ (rows.flatMap Row.text ++ [shape.close]))

variable {options : Options} {offset : Nat} {rest : List Char} {level : Level} {phase : Phase}

/-! ## Children -/

/-- The key of a property and its colon lead to where its value is asked for. -/
theorem run_key (options : Options) {key : List Char} (hshape : level.shape = .object)
    (hphase : phase.IsOpen) (outer : List Frame) (tokens : List Token) :
    let name : Token := ⟨⟨.string, key, none⟩, offset⟩
    let colon : Token := ⟨⟨.colon, [':'], none⟩, offset + width key⟩
    (State.within level phase outer).run options (name :: colon :: tokens) =
      (State.within level (.colon ⟨name.span, name.string?.getD ""⟩ colon.start) outer).run options
        tokens := by
  intro name colon
  have hname : (State.within level phase outer).advance options name =
      (.within level (.key ⟨name.span, name.string?.getD ""⟩) outer, []) := by
    rw [State.advance_eq_step options rfl rfl, State.step,
      proceed_key options hphase hshape rfl rfl]
    rfl
  have hcolon (key : Key) : (State.within level (.key key) outer).advance options colon =
      (.within level (.colon key colon.start) outer, []) := rfl
  rw [State.run_cons, hname, State.run_cons, hcolon, Move.after_nil, Move.after_nil]

/-- The tokens of a child that is accepted lead to the child where it may start. -/
theorem run_child {child : Child} (haccepted : child.IsAccepted options)
    (hshape : level.shape = child.shape) (offset : Nat) (hrest : EndsLine rest)
    (outer : List Frame) :
    ∃ node tokens, child.ReadsAs options node ∧
      (Remainder.mk offset (child.text ++ rest)).printed =
        tokens ++ (Remainder.mk (offset + width child.text) rest).printed ∧
      (∃ first, StartsAt options tokens first) ∧
      ∀ {phase : Phase}, phase.IsOpen →
        (State.within level phase outer).run options tokens =
          (.within (level.push node) .next outer, []) := by
  cases child with
  | element value =>
    obtain ⟨root, htree, hfaults, hstarts, hrun⟩ := run_value haccepted offset
    exact ⟨root.shift offset, _, ⟨root, offset, htree, rfl⟩,
      Remainder.printed_append_of_endsLine hfaults hrest, hstarts,
      fun hphase => hrun (.element hphase hshape)⟩
  | member key value =>
    obtain ⟨hkey, haccepted⟩ := haccepted
    let place := offset + width key + width [':']
    let name : Token := ⟨⟨.string, key, none⟩, offset⟩
    let colon : Token := ⟨⟨.colon, [':'], none⟩, offset + width key⟩
    obtain ⟨root, htree, hfaults, -, hrun⟩ := run_value haccepted place
    have hseparator (shape : Shape) : isSeparator shape name = false := by
      cases shape <;> rfl
    have hreads : (Child.member key value).ReadsAs options
        (Key.property ⟨name.span, name.string?.getD ""⟩ (some colon.start)
          (some (root.shift place)) 0) :=
      ⟨rfl, rfl, root, place, htree, rfl⟩
    refine ⟨_, name :: colon :: (Remainder.mk place value).printed, hreads, ?_,
      ⟨name, [], _, rfl, by simp, rfl, rfl, hseparator⟩, fun hphase => ?_⟩
    · have hwidth : offset + width (Child.member key value).text = place + width value := by
        simp only [Child.text, width_append, width_cons, place, width_nil]
        omega
      rw [hwidth, Child.text, List.append_assoc, Remainder.printed_string hkey, List.cons_append,
        Remainder.printed_punctuation rfl, Remainder.printed_append_of_endsLine hfaults hrest]
      rfl
    · rw [run_key options hshape hphase, hrun .member]
      rfl

/-- The phases of a container in which commas, children and its end are all that is
looked for. -/
def Phase.IsReady (phase : Phase) : Prop := phase = .first ∨ phase = .next ∨ phase = .comma

/-- No property is left open in these phases. -/
theorem settle_of_isReady (hphase : phase.IsReady) (level : Level) (token : Token) :
    level.settle phase token = level := by
  rcases hphase with rfl | rfl | rfl <;> rfl

/-- A child is taken in any of these phases, and it is a problem that a comma is missing
before it. -/
theorem scan_child {child : Child} (haccepted : child.IsAccepted options)
    (hshape : level.shape = child.shape) (hphase : phase.IsReady) (offset : Nat)
    (hrest : EndsLine rest) (outer : List Frame) :
    ∃ node problems, child.ReadsAs options node ∧ (problems = [] ↔ phase ≠ .next) ∧
      (State.within level phase outer).scan options offset (child.text ++ rest) =
        ((State.within (level.push node) .next outer).scan options (offset + width child.text)
          rest).after problems := by
  obtain ⟨node, tokens, hreads, hprinted, ⟨first, hfirst⟩, hrun⟩ :=
    run_child haccepted hshape offset hrest outer
  have hopen {phase : Phase} (hphase : phase.IsOpen) :
      (State.within level phase outer).scan options offset (child.text ++ rest) =
        (State.within (level.push node) .next outer).scan options (offset + width child.text)
          rest := by
    rw [State.scan_append _ hprinted, hrun hphase]
    rfl
  rcases hphase with rfl | rfl | rfl
  · exact ⟨node, [], hreads, by simp, hopen (.inl rfl)⟩
  · -- The child is read as behind a comma, so the phase is all that the problem tells.
    refine ⟨node, [complain .commaExpected first], hreads, by simp, ?_⟩
    rw [← hopen (.inr rfl), State.scan, State.scan, hprinted, List.append_assoc,
      run_next (hfirst.append _)]
  · exact ⟨node, [], hreads, by simp, hopen (.inr rfl)⟩

/-! ## Commas -/

/-- A comma is a problem unless a child was finished before it. -/
theorem scan_comma (options : Options) (hphase : phase.IsReady) (level : Level)
    (outer : List Frame) (offset : Nat) (rest : List Char) :
    ∃ problems, (problems = [] ↔ phase = .next) ∧
      (State.within level phase outer).scan options offset (',' :: rest) =
        ((State.within level .comma outer).scan options (offset + width [',']) rest).after
          problems := by
  have hseparator : isSeparator level.shape ⟨⟨.comma, [','], none⟩, offset⟩ = true :=
    isSeparator_iff.2 (.inl rfl)
  have hstep : (State.within level phase outer).step options ⟨⟨.comma, [','], none⟩, offset⟩ =
      (.within level .comma outer,
        (proceed options level phase outer ⟨⟨.comma, [','], none⟩, offset⟩).2) := by
    refine Prod.ext ?_ rfl
    rw [State.step, fst_proceed_of_isSeparator hseparator, settle_of_isReady hphase,
      separate_comma rfl]
  refine ⟨_, ?_, scan_punctuation rfl rfl hstep rest⟩
  -- In the place of the first child, behind a child, behind another comma.
  rcases hphase with rfl | rfl | rfl
  · simp [proceed]
  · simp [proceed, hseparator, separate_comma]
  · simp [proceed, (closer_ne_comma _).symm, child_ne_nil_of_isSeparator hseparator]

theorem scan_commas (options : Options) (hphase : phase.IsReady) (level : Level)
    (outer : List Frame) (offset count : Nat) (rest : List Char) :
    ∃ problems stop, (problems = [] ↔ count = 0 ∨ count = 1 ∧ phase = .next) ∧
      (State.within level phase outer).scan options offset (List.replicate count ',' ++ rest) =
        ((State.within level (if count = 0 then phase else .comma) outer).scan options stop
          rest).after problems := by
  induction count generalizing phase offset with
  | zero => exact ⟨[], offset, by simp, rfl⟩
  | succ count ih =>
    obtain ⟨first, hfirst, hscan⟩ :=
      scan_comma options hphase level outer offset (List.replicate count ',' ++ rest)
    obtain ⟨others, stop, hothers, hscanOthers⟩ := ih (.inr (.inr rfl)) (offset + width [','])
    refine ⟨first ++ others, stop, ?_, ?_⟩
    · rw [List.append_eq_nil_iff, hfirst, hothers]
      simp [and_comm]
    · rw [List.replicate_succ, List.cons_append, hscan, hscanOthers, Move.after_after, ite_self]
      rfl

/-- The last bracket ends the document.  It is a problem behind a comma, unless the comma is
welcome there. -/
theorem scan_close (options : Options) (hphase : phase.IsReady) (level : Level) (offset : Nat) :
    ∃ problems stop, (problems = [] ↔ (phase = .comma → options.trailingComma = true)) ∧
      (State.within level phase []).scan options offset [level.shape.close] =
        (.over (some (level.close stop)), problems) := by
  let closer : Token := ⟨⟨level.shape.closer, [level.shape.close], none⟩, offset⟩
  have hkind : closer.kind = level.shape.closer := rfl
  have hseparator : isSeparator level.shape closer = true := isSeparator_of_closer hkind
  have hstep : (State.within level phase []).step options closer =
      (.root (level.close closer.stop), (proceed options level phase [] closer).2) := by
    refine Prod.ext ?_ rfl
    rw [State.step, fst_proceed_of_isSeparator hseparator, settle_of_isReady hphase,
      separate_closer hkind]
    rfl
  refine ⟨(proceed options level phase [] closer).2, closer.stop, ?_, ?_⟩
  · rcases hphase with rfl | rfl | rfl
    · simp [proceed_closer (.inl rfl) hkind]
    · simp [proceed_closer (.inr (.inl rfl)) hkind]
    · by_cases htrailing : options.trailingComma = true
      · simp [proceed_closer (.inr (.inr ⟨rfl, htrailing⟩)) hkind, htrailing]
      · simp [proceed, htrailing, child_ne_nil_of_isSeparator hseparator]
  · have hend (node : Node) (offset : Nat) :
        (State.root node).scan options offset [] = (.over (some node), []) := by
      rw [State.scan, Remainder.printed_nil]
      rfl
    rw [scan_punctuation (punctuation?_close level.shape) rfl hstep, hend]
    simp [Move.after]

/-! ## Children in a row -/

theorem Row.isReady_phase (row : Row) : row.phase.IsReady := by
  unfold Row.phase
  split
  · exact .inr (.inl rfl)
  · exact .inr (.inr rfl)

theorem Row.phase_eq_next_iff (row : Row) : row.phase = .next ↔ row.commas = 0 := by
  simp [Row.phase]

theorem Row.phase_eq_comma_iff (row : Row) : row.phase = .comma ↔ row.commas ≠ 0 := by
  simp [Row.phase]

/-- A child and its commas are taken off the front. -/
theorem scan_row {row : Row} (haccepted : row.child.IsAccepted options)
    (hshape : level.shape = row.child.shape) (hphase : phase.IsReady) (offset : Nat)
    (rest : List Char) (outer : List Frame) :
    ∃ node problems stop, row.child.ReadsAs options node ∧
      (problems = [] ↔ phase ≠ .next ∧ row.commas ≤ 1) ∧
      (State.within level phase outer).scan options offset (row.text ++ rest) =
        ((State.within (level.push node) row.phase outer).scan options stop rest).after
          problems := by
  have hends : EndsLine (row.lineEnd.chars ++ (List.replicate row.commas ',' ++ rest)) := by
    cases row.lineEnd <;> constructor
  obtain ⟨node, first, hreads, hfirst, hchild⟩ :=
    scan_child haccepted hshape hphase offset hends outer
  obtain ⟨second, stop, hsecond, hcommas⟩ := scan_commas options (.inr (.inl rfl))
    (level.push node) outer (offset + width row.child.text + width row.lineEnd.chars) row.commas
    rest
  refine ⟨node, first ++ second, stop, hreads, ?_, ?_⟩
  · rw [List.append_eq_nil_iff, hfirst, hsecond, Nat.le_one_iff_eq_zero_or_eq_one]
    simp
  · rw [Row.text, List.append_assoc, List.append_assoc, hchild, scan_lineEnd, hcommas,
      Move.after_after]
    rfl

/-- Neither is a comma missing nor is there one too many in what is left of a container, when
it waits as in a phase. -/
def IsSeparated (options : Options) : Phase → List Row → Prop
  | phase, [] => phase = .comma → options.trailingComma = true
  | phase, row :: rows =>
    phase ≠ .next ∧ row.commas ≤ 1 ∧ IsSeparated options row.phase rows

theorem isSeparated_cons_iff (first : Row) (rows : List Row) :
    IsSeparated options phase (first :: rows) ↔
      phase ≠ .next ∧ (∀ row ∈ (first :: rows).dropLast, row.commas = 1) ∧
        ∀ row ∈ (first :: rows).getLast?,
          row.commas = 0 ∨ options.trailingComma = true ∧ row.commas = 1 := by
  induction rows generalizing first phase with
  | nil =>
    simp only [IsSeparated, first.phase_eq_comma_iff, List.dropLast_singleton,
      List.getLast?_singleton, Option.mem_some_iff, List.not_mem_nil]
    grind
  | cons second rows ih =>
    have hone : first.commas = 1 ↔ first.commas ≤ 1 ∧ first.phase ≠ .next := by
      rw [Ne, first.phase_eq_next_iff]
      omega
    rw [IsSeparated, ih, List.dropLast_cons_cons, List.forall_mem_cons, List.getLast?_cons_cons,
      hone]
    simp only [and_assoc]

/-- From the start of a container on, one comma stands between two children and none
elsewhere, but for one at the end where it is welcome. -/
theorem isSeparated_first_iff (rows : List Row) :
    IsSeparated options .first rows ↔
      (∀ row ∈ rows.dropLast, row.commas = 1) ∧
        ∀ row ∈ rows.getLast?,
          row.commas = 0 ∨ options.trailingComma = true ∧ row.commas = 1 := by
  cases rows with
  | nil => simp [IsSeparated]
  | cons row rows => simp [isSeparated_cons_iff]

/-- All children are read, and a problem is met when they are not separated. -/
theorem scan_rows (level : Level) {rows : List Row}
    (hrows : ∀ row ∈ rows, level.shape = row.child.shape ∧ row.child.IsAccepted options)
    (hphase : phase.IsReady) (offset : Nat) :
    ∃ nodes stop problems,
      List.Forall₂ (fun row node => row.child.ReadsAs options node) rows nodes ∧
      (problems = [] ↔ IsSeparated options phase rows) ∧
      (State.within level phase []).scan options offset
          (rows.flatMap Row.text ++ [level.shape.close]) =
        (.over (some ((nodes.foldl Level.push level).close stop)), problems) := by
  induction rows generalizing level phase offset with
  | nil =>
    obtain ⟨problems, stop, hproblems, hscan⟩ := scan_close options hphase level offset
    exact ⟨[], stop, problems, .nil, hproblems, hscan⟩
  | cons row rows ih =>
    obtain ⟨⟨hshape, haccepted⟩, hrows⟩ := List.forall_mem_cons.1 hrows
    obtain ⟨node, first, place, hreads, hfirst, hrow⟩ := scan_row haccepted hshape hphase offset
      (rows.flatMap Row.text ++ [level.shape.close]) []
    obtain ⟨nodes, stop, others, hnodes, hothers, hrest⟩ :=
      ih (level.push node) hrows row.isReady_phase place
    refine ⟨node :: nodes, stop, first ++ others, .cons hreads hnodes, ?_, ?_⟩
    · rw [List.append_eq_nil_iff, hfirst, hothers, IsSeparated, and_assoc]
    · rw [List.flatMap_cons, List.append_assoc, hrow]
      exact congrArg (Move.after first) hrest

/-- **Commas neither lose nor double a child.**  Children that are accepted on their own are
read in order, however many commas are written in front of them, between them and behind
them, and no problem is reported if and only if there is one comma between two children and
none elsewhere, but for one behind the last child where trailing commas are allowed. -/
theorem ofText_write (options : Options) (shape : Shape) (commas : Nat) {rows : List Row}
    (hrows : ∀ row ∈ rows, shape = row.child.shape ∧ row.child.IsAccepted options) :
    ∃ root, (ofText options (shape.write commas rows)).tree = some root ∧
      root.kind = shape.kind ∧
      List.Forall₂ (fun row node => row.child.ReadsAs options node) rows root.children.toList ∧
      ((ofText options (shape.write commas rows)).problems = [] ↔
        commas = 0 ∧ (∀ row ∈ rows.dropLast, row.commas = 1) ∧
          ∀ row ∈ rows.getLast?,
            row.commas = 0 ∨ options.trailingComma = true ∧ row.commas = 1) := by
  let level : Level := ⟨shape, 0, .nil⟩
  have hstep : State.start.step options ⟨⟨shape.opener, [shape.open], none⟩, 0⟩ =
      (.within level .first [], []) := by
    cases shape <;> rfl
  obtain ⟨first, place, hfirst, hcommas⟩ := scan_commas options (.inl rfl) level []
    (0 + width [shape.open]) commas (rows.flatMap Row.text ++ [shape.close])
  have hready : Phase.IsReady (if commas = 0 then .first else .comma) := by
    split
    · exact .inl rfl
    · exact .inr (.inr rfl)
  obtain ⟨nodes, stop, others, hnodes, hothers, hscan⟩ :=
    scan_rows level hrows hready place
  have hdocument : ofText options (shape.write commas rows) =
      ⟨some ((nodes.foldl Level.push level).close stop), first ++ others⟩ := by
    rw [ofText_eq_scan, Shape.write, scan_punctuation (punctuation?_open shape) rfl hstep, hcommas,
      hscan]
    rfl
  obtain ⟨hchildren, hshape⟩ := toList_foldl_push nodes level
  rw [hdocument]
  refine ⟨_, rfl, congrArg Shape.kind hshape, ?_, ?_⟩
  · have hnil : level.children.toList = [] := rfl
    rwa [Level.close, Forest.toList_reverse, hchildren, hnil, List.append_nil,
      List.reverse_reverse]
  · rw [List.append_eq_nil_iff, hfirst, hothers, ← isSeparated_first_iff]
    simp +contextual

/-- A comma is missing behind a comment that ends with its line, and the last one is doubled. -/
theorem ofText_write_unseparated :
    let rows : List Row :=
      [⟨.member "\"a\"".toList "1 // ,".toList, .both, 0⟩,
        ⟨.member "\"a\"".toList "[[], \"]\"]".toList, .feed, 2⟩]
    Shape.write .object 0 rows = "\x7b\"a\":1 // ,\r\n\"a\":[[], \"]\"]\n,,\x7d".toList ∧
      ∃ root, (ofText default (Shape.write .object 0 rows)).tree = some root ∧
        root.kind = .object ∧ root.children.toList.length = 2 ∧
        (ofText default (Shape.write .object 0 rows)).problems ≠ [] := by
  intro rows
  have hrows : ∀ row ∈ rows, Shape.object = row.child.shape ∧ row.child.IsAccepted default := by
    decide +kernel
  obtain ⟨root, htree, hkind, hchildren, hproblems⟩ := ofText_write default .object 0 hrows
  refine ⟨by decide +kernel, root, htree, hkind, hchildren.length_eq.symm, fun hnone => ?_⟩
  have hfirst := (hproblems.1 hnone).2.1 ⟨_, .both, 0⟩ (.head _)
  contradiction

end TaskFile.Document
