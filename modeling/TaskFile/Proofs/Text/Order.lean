import TaskFile.Proofs.Text.Boundary
import TaskFile.Proofs.Text.LineEnd
import Mathlib.Data.Prod.Lex

/-!
# The order of positions

Positions are ordered by their lines, and on one line by their characters.  The two
conversions are tied together by this order: the position of a place is at or before
another position exactly when the place is at or before where that one leads
(`Position.ofOffset_le_iff`).  So both keep the order (`Position.monotone_toOffset`,
`Position.ofOffset_lt_of_isPlace`).  Inside a line break, which is no place, the
position is one character behind that of the line's end.

The proofs go over a text by its line ends and the characters between them
(`Text.byLines`), with the position that was reached so far.
-/

namespace TaskFile

open Text

namespace Text

/-! ## Texts line by line -/

/-- A text is empty, or it starts with a line end or with another character. -/
theorem byLines {motive : List Char → Prop} (nil : motive [])
    (lineEnd : ∀ (style : LineEnd) (rest : List Char), style.Stops rest → motive rest →
      motive (style.chars ++ rest))
    (character : ∀ (c : Char) (rest : List Char), isLineBreak c = false → motive rest →
      motive (c :: rest)) (text : List Char) : motive text := by
  induction hlength : text.length using Nat.strongRecOn generalizing text with
  | ind length ih =>
    subst hlength
    match text with
    | [] => exact nil
    | c :: rest =>
      have hrest : motive rest := ih _ (by simp) rest rfl
      by_cases hfeed : c = '\n'
      · subst hfeed
        exact lineEnd .feed rest (LineEnd.stops_feed rest) hrest
      by_cases hreturn : c = '\r'
      · subst hreturn
        by_cases hboth : rest.head? = some '\n'
        · obtain ⟨after, rfl⟩ := List.head?_eq_some_iff.1 hboth
          have hafter : motive after := by
            refine ih _ ?_ after rfl
            rw [List.length_cons, List.length_cons]
            omega
          exact lineEnd .both after nofun hafter
        · exact lineEnd .carriage rest (fun _ => hboth) hrest
      · exact character c rest (by simp [isLineBreak, hfeed, hreturn]) hrest

variable {style : LineEnd} {c : Char} {rest : List Char} {place : Nat}

/-- A place is in front of a line end or behind it. -/
theorem isPlace_lineEnd_iff (hrest : style.Stops rest) :
    IsPlace (style.chars ++ rest) place ↔
      place = 0 ∨ ∃ later, IsPlace rest later ∧ place = width style.chars + later := by
  constructor
  · intro hplace
    cases style with
    | feed | carriage =>
      exact (isPlace_cons hplace).imp_right
        fun ⟨later, hlater, hwidth, _⟩ => ⟨later, hlater, hwidth⟩
    | both => exact isPlace_bothBreaks hplace
  · rintro (rfl | ⟨later, hlater, rfl⟩)
    · exact isPlace_zero _
    cases style with
    | feed => exact hlater.cons fun hreturn => absurd hreturn (by decide)
    | carriage => exact hlater.cons fun _ hfeed => absurd hfeed (hrest rfl)
    | both => exact hlater.bothBreaks

theorem isPlace_character_iff (hc : isLineBreak c = false) :
    IsPlace (c :: rest) place ↔
      place = 0 ∨ ∃ later, IsPlace rest later ∧ place = c.utf8Size + later := by
  constructor
  · intro hplace
    exact (isPlace_cons hplace).imp_right fun ⟨later, hlater, hwidth, _⟩ => ⟨later, hlater, hwidth⟩
  · rintro (rfl | ⟨later, hlater, rfl⟩)
    · exact isPlace_zero _
    · refine hlater.cons ?_
      rintro rfl
      contradiction

end Text

namespace Position

/-! ## The order -/

/-- The order of lines, and on a line the order of characters. -/
instance : LinearOrder Position :=
  LinearOrder.lift' (fun position => toLex (position.line, position.character))
    fun first second hkeys => by
      obtain ⟨hline, hcharacter⟩ := Prod.mk.inj (toLex.injective hkeys)
      cases first
      cases second
      simp_all

variable {first second position start : Position}

theorem le_iff : first ≤ second ↔
    first.line < second.line ∨ first.line = second.line ∧ first.character ≤ second.character :=
  Prod.Lex.toLex_le_toLex

theorem lt_iff : first < second ↔
    first.line < second.line ∨ first.line = second.line ∧ first.character < second.character :=
  Prod.Lex.toLex_lt_toLex

variable {text rest : List Char} {c : Char} {style : LineEnd}

theorem le_after (position : Position) (offset : Nat) (text : List Char) :
    position ≤ position.after offset text :=
  le_iff.2 (isAfter_after position offset text)

/-! ## Places and positions -/

theorem distanceFrom_lineEnd (hrest : style.Stops rest)
    (hstart : ⟨start.line + 1, 0⟩ ≤ position) :
    start.distanceFrom position (style.chars ++ rest) =
      width style.chars + distanceFrom ⟨start.line + 1, 0⟩ position rest := by
  rw [distanceFrom_later_line (le_iff.1 hstart), distanceFrom_lineStart, distance_lineEnd hrest]

/-- Over a text that starts at a position, a place is reached at or before a later
position exactly when it is on the way there. -/
theorem after_le_iff (hstart : start ≤ position) {place : Nat} (hplace : IsPlace text place) :
    start.after place text ≤ position ↔ place ≤ start.distanceFrom position text := by
  induction text using byLines generalizing start place with
  | nil =>
    obtain rfl := eq_zero_of_isPlace_nil hplace
    exact iff_of_true hstart (Nat.zero_le _)
  | lineEnd style rest hrest ih =>
    rcases (isPlace_lineEnd_iff hrest).1 hplace with rfl | ⟨later, hlater, rfl⟩
    · rw [after_zero]
      exact iff_of_true hstart (Nat.zero_le _)
    rw [after_lineEnd hrest]
    by_cases hline : ⟨start.line + 1, 0⟩ ≤ position
    · rw [distanceFrom_lineEnd hrest hline, ih hline hlater]
      omega
    · -- The position is on the line that ends here.
      have hsame : start.line = position.line := by
        rw [le_iff] at hstart hline
        simp only at hline
        omega
      have hpos : 0 < width style.chars := by cases style <;> decide
      rw [distanceFrom, if_pos hsame, distance_zero_lineEnd hrest]
      exact iff_of_false (fun hle => hline ((le_after _ _ _).trans hle)) (by omega)
  | character c rest hc ih =>
    rcases (isPlace_character_iff hc).1 hplace with rfl | ⟨later, hlater, rfl⟩
    · rw [after_zero]
      exact iff_of_true hstart (Nat.zero_le _)
    rw [after_character hc]
    by_cases hnext : ⟨start.line, start.character + units c⟩ ≤ position
    · rw [distanceFrom_character hc (le_iff.1 hnext), ih hnext hlater]
      omega
    · -- The position is in front of the character or inside of it.
      have hsame : start.line = position.line ∧
          position.character - start.character < units c := by
        have hunits := units_pos c
        rw [le_iff] at hstart hnext
        simp only at hnext
        omega
      have hpos := Char.utf8Size_pos c
      rw [distanceFrom, if_pos hsame.1, distance_of_lt_units hc hsame.2]
      exact iff_of_false (fun hle => hnext ((le_after _ _ _).trans hle)) (by omega)

/-- The position of a place is at or before another one exactly when the place is at
or before where that one leads. -/
theorem ofOffset_le_iff {place : Nat} (hplace : IsPlace text place) (position : Position) :
    ofOffset text place ≤ position ↔ place ≤ toOffset text position := by
  have hstart : (⟨0, 0⟩ : Position) ≤ position := by
    rw [le_iff]
    simp only
    omega
  have hway := distanceFrom_lineStart 0 position text
  rw [ofOffset, after_le_iff hstart hplace, hway]
  rfl

/-- Where a position leads to is at or before it. -/
theorem ofOffset_toOffset_le (text : List Char) (position : Position) :
    ofOffset text (toOffset text position) ≤ position :=
  (ofOffset_le_iff (isPlace_distance _ _ _) position).2 (Nat.le_refl _)

/-- Later positions lead to later offsets. -/
theorem monotone_toOffset (text : List Char) : Monotone (toOffset text) := by
  intro first second hle
  apply (ofOffset_le_iff (isPlace_distance _ _ _) second).1
  exact (ofOffset_toOffset_le text first).trans hle

/-- A place has a later position than all offsets before it. -/
theorem ofOffset_lt_of_isPlace {offset place : Nat} (hplace : IsPlace text place)
    (hlt : offset < place) : ofOffset text offset < ofOffset text place := by
  rw [← not_le, ofOffset_le_iff hplace, le_toOffset_ofOffset_iff hplace]
  exact Nat.not_le.2 hlt

/-! ## Texts one after the other -/

/-- Through the first of two texts the way leads to where it ends, and on from there.
The two must not share a line break. -/
theorem after_append {before rest : List Char}
    (hbetween : ¬(before.getLast? = some '\r' ∧ rest.head? = some '\n')) (start : Position)
    (offset : Nat) :
    start.after (width before + offset) (before ++ rest) =
      (start.after (width before) before).after offset rest := by
  induction before using byLines generalizing start with
  | nil => rw [width_nil, Nat.zero_add, List.nil_append, after_zero]
  | lineEnd style before hbefore ih =>
    have htail : ¬(before.getLast? = some '\r' ∧ rest.head? = some '\n') := by
      rintro ⟨hreturn, hfeed⟩
      exact hbetween ⟨by rw [List.getLast?_append, hreturn, Option.some_or], hfeed⟩
    have hstops : style.Stops (before ++ rest) := by
      rintro rfl
      cases before with
      | nil => exact fun hfeed => hbetween ⟨rfl, hfeed⟩
      | cons d before => exact hbefore rfl
    rw [width_append, Nat.add_assoc, List.append_assoc, after_lineEnd hstops,
      after_lineEnd hbefore, ih htail]
  | character c before hc ih =>
    have htail : ¬(before.getLast? = some '\r' ∧ rest.head? = some '\n') := by
      rintro ⟨hreturn, hfeed⟩
      exact hbetween ⟨by rw [List.getLast?_cons, hreturn]; rfl, hfeed⟩
    rw [width_cons, Nat.add_assoc, List.cons_append, after_character hc, after_character hc,
      ih htail]

/-- Inside a line break the position is one character behind the end of the line. -/
theorem ofOffset_insideBreak {offset : Nat} (hinside : IsInsideBreak text offset) :
    ofOffset text offset =
      ⟨(ofOffset text (offset - 1)).line, (ofOffset text (offset - 1)).character + 1⟩ := by
  obtain ⟨before, after, rfl, rfl⟩ := hinside
  have hbetween : ¬(before.getLast? = some '\r' ∧ ('\r' :: '\n' :: after).head? = some '\n') :=
    fun hfeed => absurd (Option.some.inj hfeed.2) (by decide)
  have hthrough := after_append hbetween ⟨0, 0⟩
  have hfront := hthrough 0
  have hinside := hthrough 1
  rw [Nat.add_zero, after_zero] at hfront
  rw [Position.after, if_neg Nat.one_ne_zero, if_pos rfl, ← hfront] at hinside
  rw [Nat.add_sub_cancel]
  exact hinside

/-- Both conversions keep the order.  Later positions lead to offsets that are not
earlier, and of two boundaries the later one has a later position, also inside a line
break. -/
theorem monotone_toOffset_and_strictMonoOn_ofOffset (text : List Char) :
    Monotone (toOffset text) ∧ StrictMonoOn (ofOffset text) {offset | IsBoundary text offset} := by
  refine ⟨monotone_toOffset text, fun first _ second hsecond hlt => ?_⟩
  by_cases hinside : IsInsideBreak text second
  · have hplace := hinside.isPlace
    have hlast : ofOffset text (second - 1) < ofOffset text second := by
      rw [ofOffset_insideBreak hinside, lt_iff]
      exact .inr ⟨rfl, Nat.lt_succ_self _⟩
    rcases Nat.eq_or_lt_of_le (Nat.le_sub_one_of_lt hlt) with rfl | hbefore
    · exact hlast
    · exact (ofOffset_lt_of_isPlace hplace hbefore).trans hlast
  · exact ofOffset_lt_of_isPlace (isPlace_iff.2 ⟨hsecond, hinside⟩) hlt

end Position

end TaskFile
