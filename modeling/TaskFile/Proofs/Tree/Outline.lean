import TaskFile.Tree.Outline
import TaskFile.Proofs.Text.Line
import TaskFile.Proofs.Tree.Arena
import TaskFile.Proofs.Tree.Search

/-!
# Lines of an outline

The outline of a tree goes down the tree, and its entries are listed by number.  The two are
in the same order: the line of a node has its number, and the depth at which it is written is
the number of its ancestors (`Forest.Has.getElem?_outline`).

No value breaks its line.  Line breaks in a string are written as escapes, and numbers are
written with digits, signs and points.  So the lines of an outline are one for each node
(`Node.lines_outline`).
-/

namespace TaskFile

open Text

/-! ## Values on one line -/

section Digits

variable {base number : Nat} {c : Char}

theorem isLineBreak_digitChar_eq_false {digit : Nat} (hdigit : digit < 16) :
    isLineBreak (Nat.digitChar digit) = false := by
  decide +revert

/-- Digits end no line. -/
theorem isLineBreak_eq_false_of_mem_toDigits (hbase : 1 < base) (hle : base ≤ 16)
    (hc : c ∈ Nat.toDigits base number) : isLineBreak c = false := by
  induction number using Nat.strongRecOn with
  | ind number ih =>
    rw [Nat.toDigits_eq_if hbase] at hc
    split at hc
    · obtain rfl := List.mem_singleton.1 hc
      exact isLineBreak_digitChar_eq_false (by omega)
    · rename_i hge
      have hpos : 0 < number := by omega
      have hlast : number % base < base := Nat.mod_lt number (by omega)
      cases List.mem_append.1 hc with
      | inl hc => exact ih (number / base) (Nat.div_lt_self hpos hbase) hc
      | inr hc =>
        obtain rfl := List.mem_singleton.1 hc
        exact isLineBreak_digitChar_eq_false (by omega)

end Digits

namespace Quoted

/-- What stands for a character between quotes is on one line. -/
theorem isLineBreak_eq_false_of_mem_encodeChar {c d : Char} (hd : d ∈ encodeChar c) :
    isLineBreak d = false := by
  have hshort (e : Char) (he : isLineBreak e = false) (hmem : d ∈ ['\\', e]) :
      isLineBreak d = false := by
    rw [List.mem_pair] at hmem
    cases hmem with
    | inl hslash => rw [hslash]; rfl
    | inr hescaped => rw [hescaped, he]
  unfold encodeChar at hd
  split_ifs at hd with hquote hslash hfeed hreturn htab hnull hvisible
  · exact hshort '"' rfl hd
  · exact hshort '\\' rfl hd
  · exact hshort 'n' rfl hd
  · exact hshort 'r' rfl hd
  · exact hshort 't' rfl hd
  · exact hshort '0' rfl hd
  · obtain rfl := List.mem_singleton.1 hd
    simp [isLineBreak, hfeed, hreturn]
  · rw [byCode, List.append_assoc, List.mem_append, List.mem_append] at hd
    rcases hd with hfront | hdigit | hback
    · simp only [List.mem_cons, List.not_mem_nil, or_false] at hfront
      rcases hfront with rfl | rfl | rfl <;> rfl
    · exact isLineBreak_eq_false_of_mem_toDigits (by omega) (by omega) hdigit
    · rw [List.mem_singleton.1 hback]
      rfl

/-- A quoted text is on one line. -/
theorem isLineBreak_eq_false_of_mem_encode {text : List Char} {d : Char} (hd : d ∈ encode text) :
    isLineBreak d = false := by
  rw [encode, List.cons_append, List.mem_cons, List.mem_append, List.mem_flatMap] at hd
  rcases hd with hquote | ⟨c, -, hencoded⟩ | hquote
  · rw [hquote]
    rfl
  · exact isLineBreak_eq_false_of_mem_encodeChar hencoded
  · rw [List.mem_singleton.1 hquote]
    rfl

end Quoted

namespace Layout

variable {layout : Layout} {digits : List Char} {c : Char}

/-- Digits with a point are on one line. -/
theorem isLineBreak_eq_false_of_mem_insertPoint {places : Nat}
    (hdigits : ∀ d ∈ digits, isLineBreak d = false) (hc : c ∈ insertPoint digits places) :
    isLineBreak c = false := by
  have hpadded : ∀ d ∈ List.replicate (places + 1 - digits.length) '0' ++ digits,
      isLineBreak d = false := by
    refine List.forall_mem_append.2 ⟨fun d hd => ?_, hdigits⟩
    rw [List.eq_of_mem_replicate hd]
    rfl
  rw [insertPoint, List.mem_append, List.mem_cons] at hc
  rcases hc with hfront | rfl | hback
  · exact hpadded c (List.mem_of_mem_take hfront)
  · rfl
  · exact hpadded c (List.mem_of_mem_drop hback)

theorem isLineBreak_eq_false_of_mem_writePositional {power : Int}
    (hdigits : ∀ d ∈ digits, isLineBreak d = false)
    (hc : c ∈ layout.writePositional digits power) : isLineBreak c = false := by
  unfold writePositional at hc
  split_ifs at hc with hwhole hfraction
  · simp only [List.mem_append, List.mem_replicate, List.mem_pair] at hc
    rcases hc with (hdigit | hzero) | rfl | rfl
    · exact hdigits c hdigit
    · rw [hzero.2]
      rfl
    · rfl
    · rfl
  · simp only [List.mem_append, List.mem_replicate, List.not_mem_nil, or_false] at hc
    rcases hc with hdigit | hzero
    · exact hdigits c hdigit
    · rw [hzero.2]
      rfl
  · exact isLineBreak_eq_false_of_mem_insertPoint hdigits hc

/-- A number in an outline is on one line. -/
theorem isLineBreak_eq_false_of_mem_write {number : Binary64}
    (hc : c ∈ (outlineNumber.write number).toList) : isLineBreak c = false := by
  have hdigits : ∀ d ∈ Nat.toDigits 10 (Decimal.shortest number).digits,
      isLineBreak d = false := fun d => isLineBreak_eq_false_of_mem_toDigits (by omega) (by omega)
  have hsign : ∀ d ∈ if number.negative then ['-'] else [], isLineBreak d = false := by
    split
    · exact List.forall_mem_singleton.2 rfl
    · exact List.forall_mem_nil _
  unfold write outlineNumber at hc
  by_cases hfinite : number.isFinite
  · rw [if_pos hfinite, String.toList_ofList, List.mem_append] at hc
    cases hc with
    | inl hc => exact hsign c hc
    | inr hc => exact isLineBreak_eq_false_of_mem_writePositional hdigits hc
  · rw [if_neg hfinite, String.toList_ofList, List.mem_append] at hc
    cases hc with
    | inl hc => exact hsign c hc
    | inr hc =>
      have hname : c = 'i' ∨ c = 'n' ∨ c = 'f' := by simpa using hc
      rcases hname with rfl | rfl | rfl <;> rfl

end Layout

/-! ## Lines of nodes -/

/-- What an outline shows of the value of a node. -/
def Node.Kind.shown? : Node.Kind → Option (List Char)
  | .string value => some (Quoted.encode value.toList)
  | .number value => some (outlineNumber.write value).toList
  | .boolean true => some "true".toList
  | .boolean false => some "false".toList
  | .object | .array | .property _ | .null => none

/-- The line of a node with a number of ancestors: two spaces for each of them, the name of
its kind, its value behind a space if it shows one, and its span. -/
def Entry.line (ancestors : Nat) (entry : Entry) : List Char :=
  List.replicate (2 * ancestors) ' ' ++ entry.kind.name.toList ++
    (entry.kind.shown?.elim [] (' ' :: ·)) ++ " @".toList ++
    Nat.toDigits 10 entry.span.start ++ "..".toList ++ Nat.toDigits 10 entry.span.stop

theorem Node.Kind.isLineBreak_eq_false_of_mem_shown? {kind : Node.Kind} {value : List Char}
    (hvalue : kind.shown? = some value) : ∀ c ∈ value, isLineBreak c = false := by
  unfold shown? at hvalue
  split at hvalue
  case h_1 =>
    obtain rfl := Option.some.inj hvalue
    exact fun c hc => Quoted.isLineBreak_eq_false_of_mem_encode hc
  case h_2 =>
    obtain rfl := Option.some.inj hvalue
    exact fun c hc => Layout.isLineBreak_eq_false_of_mem_write hc
  case h_3 | h_4 =>
    obtain rfl := Option.some.inj hvalue
    simp [isLineBreak]
  all_goals contradiction

/-- The line of a node is on one line. -/
theorem Entry.isLineBreak_eq_false_of_mem_line {ancestors : Nat} {entry : Entry} :
    ∀ c ∈ entry.line ancestors, isLineBreak c = false := by
  simp only [line, List.forall_mem_append]
  refine ⟨⟨⟨⟨⟨⟨?indent, ?name⟩, ?value⟩, ?mark⟩, ?start⟩, ?dots⟩, ?stop⟩
  case indent =>
    intro c hc
    rw [List.eq_of_mem_replicate hc]
    rfl
  case name => cases entry.kind <;> simp [Node.Kind.name, isLineBreak]
  case value =>
    cases hvalue : entry.kind.shown? with
    | none => exact List.forall_mem_nil _
    | some value =>
      exact List.forall_mem_cons.2 ⟨rfl, Node.Kind.isLineBreak_eq_false_of_mem_shown? hvalue⟩
  case mark | dots => simp [isLineBreak]
  case start | stop => exact fun c => isLineBreak_eq_false_of_mem_toDigits (by omega) (by omega)

theorem toList_outlineValue (kind : Node.Kind) :
    kind.outlineValue.toList = kind.shown?.elim [] (' ' :: ·) := by
  cases kind with
  | string | number => simp [Node.Kind.outlineValue, Node.Kind.shown?]
  | boolean value => cases value <;> rfl
  | _ => rfl

namespace Forest

variable {forest : Forest} {up above : Option Nat} {next number : Nat} {node : Node}

@[simp] theorem length_outline (forest : Forest) (depth : Nat) :
    (forest.outline depth).length = forest.size := by
  induction forest generalizing depth with
  | nil => rfl
  | cons kind span children siblings ihChildren ihSiblings =>
    rw [outline, size, List.length_cons, List.length_append, ihChildren, ihSiblings]
    omega

/-- The outline has the line of a node at the number of the node.  The nodes above it are the
others on the trail that leads to it. -/
theorem Has.getElem?_outline (hhas : forest.Has up next number above node) {index count : Nat}
    (htrail : (forest.trail number next index).length = count + 1) (depth : Nat) :
    ((forest.outline depth)[number - next]?).map String.toList =
      some ((entryOf number above node).line (depth + count) ++ ['\n']) := by
  induction hhas generalizing index count depth with
  | @here kind span children siblings up next =>
    rw [trail, if_neg (Nat.lt_irrefl next), if_pos (by omega), trail_of_lt _ _ (by omega)] at htrail
    obtain rfl : count = 0 := by simpa using htrail.symm
    simp [outline, entryOf, Entry.line, toList_outlineValue, Span.outline]
  | @child kind span children siblings up next number above node hchildren ih =>
    have hrange := hchildren.range
    obtain ⟨path, place, hinner, -⟩ := hchildren.trail_eq 0
    rw [trail, if_neg (by omega), if_pos (by omega), List.length_cons] at htrail
    have hcount : (children.trail number (next + 1) 0).length = path.length + 1 := by
      rw [hinner, List.length_append, List.length_singleton]
    have hdepth : depth + 1 + path.length = depth + count := by omega
    rw [outline, getElem?_inner (by omega) (by rw [length_outline]; omega), ih hcount, hdepth]
  | @sibling kind span children siblings up next number above node hsiblings ih =>
    have hrange := hsiblings.range
    rw [trail, if_neg (by omega), if_neg (by omega)] at htrail
    have hlength : ((children.outline (depth + 1)).length) = children.size := length_outline _ _
    rw [outline, getElem?_outer (by omega), hlength, ih htrail]

end Forest

namespace Node

variable {root node : Node} {number : Nat} {above : Option Nat}

/-- The trail to a node leads through its ancestors. -/
theorem Has.length_trail (hhas : root.Has number above node) :
    (root.toForest.trail number 0 0).length = (root.ancestors number).length + 1 := by
  obtain ⟨path, place, htrail, -⟩ := Forest.Has.trail_eq hhas 0
  rw [ancestors, trail, htrail, List.dropLast_concat, List.length_append, List.length_reverse,
    List.length_singleton]

/-- The outline of a tree puts the lines of its nodes one below the other. -/
theorem map_toList_outline (root : Node) :
    (root.toForest.outline 0).map String.toList =
      (root.entries.mapIdx fun number entry => entry.line (root.ancestors number).length).map
        (· ++ ['\n']) := by
  apply List.ext_getElem?'
  intro number hlt
  have hsize : number < 0 + root.toForest.size := by simpa [entries] using hlt
  obtain ⟨above, node, hhas⟩ := root.toForest.exists_has none 0 (Nat.zero_le number) hsize
  have hline := hhas.getElem?_outline (Has.length_trail hhas) 0
  have hentry := getElem?_entries.2 ⟨above, node, hhas, rfl⟩
  rw [Nat.sub_zero, Nat.zero_add] at hline
  rw [List.getElem?_map, hline, List.getElem?_map, List.getElem?_mapIdx, hentry]
  rfl

/-- The lines of the outline of a tree are those of its nodes, in the order of their numbers.
Behind the line feed of the last one there is nothing. -/
theorem lines_outline (root : Node) :
    Text.lines root.outline.toList =
      (root.entries.mapIdx fun number entry => entry.line (root.ancestors number).length) ++
        [[]] := by
  have hrows : ∀ row ∈ root.entries.mapIdx fun number entry =>
      entry.line (root.ancestors number).length, ∀ c ∈ row, isLineBreak c = false := by
    intro row hrow
    obtain ⟨number, hnumber, rfl⟩ := List.mem_mapIdx.1 hrow
    exact Entry.isLineBreak_eq_false_of_mem_line
  rw [outline, String.toList_join, List.flatMap_def, map_toList_outline, ← List.flatMap_def]
  exact Text.lines_flatMap_feed hrows

example : outline ⟨.array, ⟨0, 6⟩, .cons (.string "\n") ⟨1, 5⟩ .nil .nil⟩ =
    "array @0..6\n  string \"\\n\" @1..5\n" := by
  decide +kernel

end Node

end TaskFile
