import TaskFile.Proofs.Text.Place
import Mathlib.Order.Monotone.Basic

/-!
# Texts with other line ends

`LineEnd.recast` replaces every line feed of a text by another line end.  What is
known of the new text falls into two groups.

* Offsets move.  `LineEnd.shift` is where an offset goes; it keeps the order of
  offsets (`strictMono_shift`), and the end of a front part goes to the end of the
  new front part (`shift_width`).
* Positions stay.  An offset that moves has the position that it had
  (`ofOffset_recast`), and a position leads to the offset that moves to where
  it led before (`toOffset_recast`).  The text must have no carriage return:
  one right before a line feed would be part of the same line break.
-/

namespace TaskFile

open Text

/-- The ways to end a line. -/
inductive LineEnd
  | feed
  | carriage
  | both
  deriving DecidableEq, Repr

namespace LineEnd

/-- The characters of a line end. -/
def chars : LineEnd → List Char
  | .feed => ['\n']
  | .carriage => ['\r']
  | .both => ['\r', '\n']

/-- What stands for a character once the line ends are replaced. -/
def recastChar (style : LineEnd) (c : Char) : List Char :=
  if c = '\n' then style.chars else [c]

/-- A text with every line feed replaced by a line end. -/
def recast (style : LineEnd) (text : List Char) : List Char :=
  text.flatMap style.recastChar

variable {style : LineEnd} {c : Char}

/-! ## Characters -/

@[simp] theorem recast_nil (style : LineEnd) : style.recast [] = [] := rfl

theorem recast_feed (style : LineEnd) (rest : List Char) :
    style.recast ('\n' :: rest) = style.chars ++ style.recast rest := rfl

theorem recast_cons (hc : c ≠ '\n') (rest : List Char) :
    style.recast (c :: rest) = c :: style.recast rest := by
  rw [recast, List.flatMap_cons, recastChar, if_neg hc]
  rfl

@[simp] theorem recast_append (first second : List Char) :
    style.recast (first ++ second) = style.recast first ++ style.recast second :=
  List.flatMap_append

theorem ne_feed_of_isLineBreak (hc : isLineBreak c = false) : c ≠ '\n' := by
  rintro rfl
  contradiction

/-- A text on one line stays as it is. -/
theorem recast_eq_self {text : List Char} (htext : ∀ c ∈ text, isLineBreak c = false) :
    style.recast text = text := by
  induction text with
  | nil => rfl
  | cons c rest ih =>
    obtain ⟨hc, hrest⟩ := List.forall_mem_cons.1 htext
    rw [recast_cons (ne_feed_of_isLineBreak hc), ih hrest]

/-- A line end starts with a line break. -/
theorem chars_eq_cons (style : LineEnd) :
    ∃ c rest, style.chars = c :: rest ∧ isLineBreak c = true := by
  cases style with
  | feed => exact ⟨'\n', [], rfl, rfl⟩
  | carriage => exact ⟨'\r', [], rfl, rfl⟩
  | both => exact ⟨'\r', ['\n'], rfl, rfl⟩

/-- No line end starts with a character of the text. -/
theorem exists_cons_of_recast (hc : isLineBreak c = false) {text after : List Char}
    (hafter : style.recast text = c :: after) : ∃ rest, text = c :: rest := by
  cases text with
  | nil => contradiction
  | cons d rest =>
    by_cases hd : d = '\n'
    · subst hd
      obtain ⟨e, more, hchars, he⟩ := style.chars_eq_cons
      rw [recast_feed, hchars] at hafter
      obtain ⟨rfl, -⟩ := List.cons.inj hafter
      simp [he] at hc
    · rw [recast_cons hd] at hafter
      obtain ⟨rfl, -⟩ := List.cons.inj hafter
      exact ⟨rest, rfl⟩

/-- A line end does not go on in what follows it. -/
def Stops (style : LineEnd) (rest : List Char) : Prop :=
  style = .carriage → rest.head? ≠ some '\n'

theorem stops_feed (rest : List Char) : feed.Stops rest := nofun

theorem stops_recast (style : LineEnd) (text : List Char) : style.Stops (style.recast text) := by
  rintro rfl
  cases text with
  | nil => simp
  | cons c rest =>
    by_cases hc : c = '\n'
    · subst hc
      simp [recast_feed, chars]
    · simpa [recast_cons hc] using hc

/-! ## Offsets -/

/-- Where an offset of a text goes when the line ends are replaced.  What lies
inside a character stays inside of it. -/
def shift (style : LineEnd) : (text : List Char) → (offset : Nat) → Nat
  | [], offset => offset
  | c :: rest, offset =>
    if offset < c.utf8Size then offset
    else width (style.recastChar c) + style.shift rest (offset - c.utf8Size)

theorem utf8Size_le_width_recastChar (style : LineEnd) (c : Char) :
    c.utf8Size ≤ width (style.recastChar c) := by
  unfold recastChar
  split
  · rename_i hc
    subst hc
    cases style <;> decide
  · simp

theorem shift_of_lt {offset : Nat} (hlt : offset < c.utf8Size) (rest : List Char) :
    style.shift (c :: rest) offset = offset := by
  rw [shift, if_pos hlt]

theorem shift_of_le {offset : Nat} (hle : c.utf8Size ≤ offset) (rest : List Char) :
    style.shift (c :: rest) offset =
      width (style.recastChar c) + style.shift rest (offset - c.utf8Size) := by
  rw [shift, if_neg (Nat.not_lt.2 hle)]

theorem shift_add (c : Char) (rest : List Char) (offset : Nat) :
    style.shift (c :: rest) (c.utf8Size + offset) =
      width (style.recastChar c) + style.shift rest offset := by
  rw [shift_of_le (Nat.le_add_right _ _), Nat.add_sub_cancel_left]

theorem shift_character (hc : c ≠ '\n') (rest : List Char) (offset : Nat) :
    style.shift (c :: rest) (c.utf8Size + offset) = c.utf8Size + style.shift rest offset := by
  rw [shift_add, recastChar, if_neg hc]
  rfl

/-- Moving keeps the order of offsets. -/
theorem strictMono_shift (style : LineEnd) (text : List Char) : StrictMono (style.shift text) := by
  intro first second hlt
  induction text generalizing first second with
  | nil => exact hlt
  | cons c rest ih =>
    have hsize := style.utf8Size_le_width_recastChar c
    by_cases hsecond : second < c.utf8Size
    · rw [shift_of_lt hsecond, shift_of_lt (Nat.lt_trans hlt hsecond)]
      exact hlt
    rw [shift_of_le (Nat.not_lt.1 hsecond)]
    by_cases hfirst : first < c.utf8Size
    · rw [shift_of_lt hfirst]
      omega
    · have hrest : first - c.utf8Size < second - c.utf8Size := by omega
      have := ih hrest
      rw [shift_of_le (Nat.not_lt.1 hfirst)]
      omega

theorem shift_zero (style : LineEnd) (text : List Char) : style.shift text 0 = 0 := by
  cases text with
  | nil => rfl
  | cons c rest => exact shift_of_lt (Char.utf8Size_pos c) rest

/-- The end of the first part of a text goes to the end of the new first part. -/
theorem shift_width (before rest : List Char) :
    style.shift (before ++ rest) (width before) = width (style.recast before) := by
  induction before with
  | nil => exact shift_zero style rest
  | cons c before ih =>
    rw [List.cons_append, width_cons, shift_add, ih, recast, recast, List.flatMap_cons,
      width_append]

end LineEnd

/-! ## Positions -/

namespace Position

variable {style : LineEnd} {c : Char} {rest text : List Char}

theorem isLineBreak_eq_false (hc : c ≠ '\n') (htext : '\r' ∉ c :: rest) :
    isLineBreak c = false := by
  have hreturn : c ≠ '\r' := fun hreturn => htext (by simp [hreturn])
  simp [isLineBreak, hc, hreturn]

/-! ### From offsets -/

/-- At its start a text has the position that it starts at. -/
theorem after_zero (position : Position) (text : List Char) : position.after 0 text = position := by
  unfold after
  split
  · rfl
  · rw [if_pos rfl]
  · rw [if_pos (Char.utf8Size_pos _)]

/-- Behind a line end a new line starts. -/
theorem after_lineEnd (hrest : style.Stops rest) (position : Position) (offset : Nat) :
    position.after (width style.chars + offset) (style.chars ++ rest) =
      after ⟨position.line + 1, 0⟩ offset rest := by
  cases style with
  | feed =>
    rw [LineEnd.chars, List.cons_append, List.nil_append, after]
    · show (if 1 + offset < 1 then _ else after _ (1 + offset - 1) rest) = _
      rw [if_neg (by omega), Nat.add_sub_cancel_left]
    · exact nofun
  | carriage =>
    rw [LineEnd.chars, List.cons_append, List.nil_append, after]
    · show (if 1 + offset < 1 then _ else after _ (1 + offset - 1) rest) = _
      rw [if_neg (by omega), Nat.add_sub_cancel_left]
    · rintro after - rfl
      exact hrest rfl rfl
  | both =>
    show after position (2 + offset) ('\r' :: '\n' :: rest) = _
    rw [after, if_neg (by omega), if_neg (by omega), Nat.add_sub_cancel_left]

theorem after_character (hc : isLineBreak c = false) (position : Position) (offset : Nat) :
    position.after (c.utf8Size + offset) (c :: rest) =
      after ⟨position.line, position.character + units c⟩ offset rest := by
  rw [after, if_neg (by omega), hc, Nat.add_sub_cancel_left]
  · rfl
  · rintro after rfl -
    contradiction

theorem after_inside {offset : Nat} (hc : isLineBreak c = false) (hlt : offset < c.utf8Size)
    (position : Position) (rest : List Char) : position.after offset (c :: rest) = position := by
  rw [after, if_pos hlt]
  rintro after rfl -
  contradiction

/-- Where a text starts does not matter for what the line ends do to positions. -/
theorem after_recast (htext : '\r' ∉ text) (position : Position) (offset : Nat) :
    position.after (style.shift text offset) (style.recast text) = position.after offset text := by
  induction text generalizing position offset with
  | nil => rfl
  | cons c rest ih =>
    have hrest : '\r' ∉ rest := fun hmem => htext (List.mem_cons_of_mem c hmem)
    by_cases hc : c = '\n'
    · subst hc
      cases offset with
      | zero => rw [LineEnd.shift_zero, after_zero, after_zero]
      | succ offset =>
        have hshift : style.shift ('\n' :: rest) (offset + 1) =
            width style.chars + style.shift rest offset := by
          rw [Nat.add_comm]
          exact LineEnd.shift_add '\n' rest offset
        have hfeed : position.after (offset + 1) ('\n' :: rest) =
            after ⟨position.line + 1, 0⟩ offset rest := by
          rw [Nat.add_comm]
          exact after_lineEnd (LineEnd.stops_feed rest) position offset
        rw [hshift, LineEnd.recast_feed, after_lineEnd (LineEnd.stops_recast style rest), ih hrest,
          hfeed]
    · have hbreak := isLineBreak_eq_false hc htext
      rw [LineEnd.recast_cons hc]
      by_cases hlt : offset < c.utf8Size
      · rw [LineEnd.shift_of_lt hlt, after_inside hbreak hlt, after_inside hbreak hlt]
      · obtain ⟨more, rfl⟩ := Nat.exists_eq_add_of_le (Nat.not_lt.1 hlt)
        rw [LineEnd.shift_character hc, after_character hbreak, after_character hbreak, ih hrest]

/-- An offset that moves with the line ends keeps its position. -/
theorem ofOffset_recast (htext : '\r' ∉ text) (offset : Nat) :
    ofOffset (style.recast text) (style.shift text offset) = ofOffset text offset :=
  after_recast htext ⟨0, 0⟩ offset

/-! ### To offsets -/

theorem distance_lineEnd (hrest : style.Stops rest) (line character : Nat) :
    distance (line + 1) character (style.chars ++ rest) =
      width style.chars + distance line character rest := by
  cases style with
  | feed =>
    have hfeed : '\n' = '\r' → rest.head? ≠ some '\n' := fun h => absurd h (by decide)
    exact distance_lineBreak rfl hfeed line character
  | carriage =>
    have hfeed : '\r' = '\r' → rest.head? ≠ some '\n' := fun _ => hrest rfl
    exact distance_lineBreak rfl hfeed line character
  | both => exact distance_bothBreaks line character rest

theorem distance_zero_lineEnd (hrest : style.Stops rest) (character : Nat) :
    distance 0 character (style.chars ++ rest) = 0 := by
  cases style with
  | feed =>
    have hfeed : '\n' = '\r' → rest.head? ≠ some '\n' := fun h => absurd h (by decide)
    exact distance_zero_lineBreak rfl hfeed character
  | carriage =>
    have hfeed : '\r' = '\r' → rest.head? ≠ some '\n' := fun _ => hrest rfl
    exact distance_zero_lineBreak rfl hfeed character
  | both => rw [LineEnd.chars, List.cons_append, List.cons_append, distance]

theorem distance_recast (htext : '\r' ∉ text) (line character : Nat) :
    distance line character (style.recast text) =
      style.shift text (distance line character text) := by
  induction text generalizing line character with
  | nil => rfl
  | cons c rest ih =>
    have hrest : '\r' ∉ rest := fun hmem => htext (List.mem_cons_of_mem c hmem)
    by_cases hc : c = '\n'
    · subst hc
      have hstops := LineEnd.stops_recast style rest
      have hfeed := LineEnd.stops_feed rest
      rw [LineEnd.recast_feed]
      cases line with
      | zero =>
        have hzero : distance 0 character ('\n' :: rest) = 0 :=
          distance_zero_lineEnd hfeed character
        rw [distance_zero_lineEnd hstops, hzero, LineEnd.shift_zero]
      | succ line =>
        have hline : distance (line + 1) character ('\n' :: rest) =
            '\n'.utf8Size + distance line character rest := distance_lineEnd hfeed line character
        rw [distance_lineEnd hstops, ih hrest, hline, LineEnd.shift_add]
        rfl
    · have hbreak := isLineBreak_eq_false hc htext
      rw [LineEnd.recast_cons hc]
      cases line with
      | zero =>
        by_cases hlt : character < units c
        · rw [distance_of_lt_units hbreak hlt, distance_of_lt_units hbreak hlt, LineEnd.shift_zero]
        · have hle := Nat.not_lt.1 hlt
          rw [distance_same_line hbreak hle, distance_same_line hbreak hle, ih hrest,
            LineEnd.shift_character hc]
      | succ line =>
        rw [distance_later_line hbreak, distance_later_line hbreak, ih hrest,
          LineEnd.shift_character hc]

/-- A position leads to where the offset moves to that it led to before. -/
theorem toOffset_recast (htext : '\r' ∉ text) (position : Position) :
    toOffset (style.recast text) position = style.shift text (toOffset text position) :=
  distance_recast htext position.line position.character

end Position

end TaskFile
