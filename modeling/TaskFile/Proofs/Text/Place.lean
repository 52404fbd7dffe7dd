import TaskFile.Text.Basic

/-!
# Places of a cursor

A cursor stands between two characters of a text, but never between the two
characters of one line break.  `Text.IsPlace` says so of a byte offset.

The position of an offset, taken back to an offset, is the last place at or
before it: `Position.le_toOffset_ofOffset_iff`.  So it is the offset itself when
that is a place: `Position.toOffset_ofOffset`.  Both conversions count from the
start of the text.  The proof goes over the text with the position that was
reached so far, so it is about the way from one position to a later one:
`Position.distanceFrom`.
-/

namespace TaskFile

open Text

namespace Text

/-! ## Places -/

/-- The offsets where a cursor can stand: between the characters of a text, its
two ends included, but not inside a line break. -/
def IsPlace (text : List Char) (offset : Nat) : Prop :=
  ∃ before after, before ++ after = text ∧ width before = offset ∧
    ¬(before.getLast? = some '\r' ∧ after.head? = some '\n')

theorem isPlace_zero (text : List Char) : IsPlace text 0 := ⟨[], text, rfl, rfl, by simp⟩

theorem isPlace_width (text : List Char) : IsPlace text (width text) :=
  ⟨text, [], by simp, rfl, by simp⟩

variable {c : Char} {rest : List Char} {place : Nat}

theorem eq_zero_of_isPlace_nil (hplace : IsPlace [] place) : place = 0 := by
  obtain ⟨before, after, happend, rfl, -⟩ := hplace
  rw [(List.append_eq_nil_iff.1 happend).1]
  rfl

/-- A place is at the start, or it is a place of the text after the first
character, and not the start of that inside a line break. -/
theorem isPlace_cons (hplace : IsPlace (c :: rest) place) :
    place = 0 ∨ ∃ later, IsPlace rest later ∧ place = c.utf8Size + later ∧
      (c = '\r' → rest.head? = some '\n' → later ≠ 0) := by
  obtain ⟨before, after, happend, rfl, hbreak⟩ := hplace
  cases before with
  | nil => exact .inl rfl
  | cons d before =>
    obtain ⟨rfl, rfl⟩ := List.cons.inj happend
    refine .inr ⟨width before, ⟨before, after, rfl, rfl, ?_⟩, rfl, ?_⟩
    · intro hbreak'
      apply hbreak
      rw [List.getLast?_cons, hbreak'.1]
      exact ⟨rfl, hbreak'.2⟩
    · intro hreturn hfeed hzero
      cases before with
      | nil => exact hbreak ⟨by rw [hreturn]; rfl, hfeed⟩
      | cons e before =>
        have hpos := Char.utf8Size_pos e
        rw [width_cons] at hzero
        omega

/-- No place is inside a line break. -/
theorem isPlace_bothBreaks (hplace : IsPlace ('\r' :: '\n' :: rest) place) :
    place = 0 ∨ ∃ later, IsPlace rest later ∧ place = 2 + later := by
  rcases isPlace_cons hplace with hzero | ⟨middle, hmiddle, rfl, hne⟩
  · exact .inl hzero
  rcases isPlace_cons hmiddle with hzero | ⟨later, hlater, rfl, -⟩
  · exact absurd hzero (hne rfl rfl)
  · refine .inr ⟨later, hlater, ?_⟩
    show 1 + (1 + later) = 2 + later
    omega

/-- A place further on in a text, unless it is inside a line break. -/
theorem IsPlace.cons (hplace : IsPlace rest place)
    (hbreak : c = '\r' → rest.head? = some '\n' → place ≠ 0) :
    IsPlace (c :: rest) (c.utf8Size + place) := by
  obtain ⟨before, after, rfl, rfl, hbetween⟩ := hplace
  refine ⟨c :: before, after, rfl, rfl, ?_⟩
  rintro ⟨hlast, hfeed⟩
  cases before with
  | nil =>
    obtain rfl : c = '\r' := by simpa using hlast
    exact hbreak rfl hfeed rfl
  | cons d before => exact hbetween ⟨by rwa [List.getLast?_cons_cons] at hlast, hfeed⟩

/-- A place behind a line break. -/
theorem IsPlace.bothBreaks (hplace : IsPlace rest place) :
    IsPlace ('\r' :: '\n' :: rest) (2 + place) := by
  have hfeed : IsPlace ('\n' :: rest) (1 + place) :=
    hplace.cons fun hreturn => absurd hreturn (by decide)
  have hboth : IsPlace ('\r' :: '\n' :: rest) (1 + (1 + place)) := hfeed.cons fun _ _ => by omega
  rwa [← Nat.add_assoc] at hboth

theorem units_pos (c : Char) : 0 < units c := by
  unfold units
  split <;> omega

end Text

namespace Position

/-! ## Distances -/

section Distances

variable {c : Char} {rest : List Char}

/-- No character can be passed over without moving on. -/
theorem distance_zero (text : List Char) : distance 0 0 text = 0 := by
  match text with
  | [] => rfl
  | c :: rest =>
    by_cases hboth : c = '\r' ∧ rest.head? = some '\n'
    · obtain ⟨rfl, hfeed⟩ := hboth
      obtain ⟨after, rfl⟩ : ∃ after, rest = '\n' :: after := List.head?_eq_some_iff.1 hfeed
      rw [distance]
    · rw [distance, if_pos (Or.inr (units_pos c))]
      intro after hreturn hrest
      exact hboth ⟨hreturn, by rw [hrest]; rfl⟩

theorem distance_bothBreaks (line character : Nat) (rest : List Char) :
    distance (line + 1) character ('\r' :: '\n' :: rest) = 2 + distance line character rest := by
  rw [distance]

theorem distance_lineBreak (hbreak : isLineBreak c = true)
    (hfeed : c = '\r' → rest.head? ≠ some '\n') (line character : Nat) :
    distance (line + 1) character (c :: rest) = c.utf8Size + distance line character rest := by
  rw [distance, if_pos hbreak]
  intro after hreturn hrest
  exact hfeed hreturn (by rw [hrest]; rfl)

/-- On a line nothing lies behind its line break. -/
theorem distance_zero_lineBreak (hbreak : isLineBreak c = true)
    (hfeed : c = '\r' → rest.head? ≠ some '\n') (character : Nat) :
    distance 0 character (c :: rest) = 0 := by
  rw [distance, if_pos (.inl hbreak)]
  intro after hreturn hrest
  exact hfeed hreturn (by rw [hrest]; rfl)

theorem distance_same_line (hbreak : isLineBreak c = false) {character : Nat}
    (hle : units c ≤ character) :
    distance 0 character (c :: rest) =
      c.utf8Size + distance 0 (character - units c) rest := by
  rw [distance, if_neg (by simp [hbreak, hle])]
  intro after hreturn hrest
  subst hreturn
  contradiction

theorem distance_of_lt_units (hbreak : isLineBreak c = false) {character : Nat}
    (hlt : character < units c) (rest : List Char) : distance 0 character (c :: rest) = 0 := by
  rw [distance, if_pos (.inr hlt)]
  rintro after rfl -
  contradiction

theorem distance_later_line (hbreak : isLineBreak c = false) (line character : Nat) :
    distance (line + 1) character (c :: rest) =
      c.utf8Size + distance (line + 1) character rest := by
  rw [distance, if_neg (by simp [hbreak])]
  intro after hreturn hrest
  subst hreturn
  contradiction

end Distances

/-! ## The way between two positions -/

/-- A position is on a later line, or on the same line and not further left. -/
def IsAfter (first second : Position) : Prop :=
  first.line < second.line ∨ first.line = second.line ∧ first.character ≤ second.character

/-- The bytes from one position to a later one, over the text that starts at the
first. -/
def distanceFrom (first second : Position) (text : List Char) : Nat :=
  if first.line = second.line then distance 0 (second.character - first.character) text
  else distance (second.line - first.line) second.character text

section Ways

variable {first second : Position} {c : Char} {rest : List Char}

theorem distanceFrom_self (position : Position) (text : List Char) :
    position.distanceFrom position text = 0 := by
  rw [distanceFrom, if_pos rfl, Nat.sub_self, distance_zero]

/-- From the start of a line on the characters are counted from zero. -/
theorem distanceFrom_lineStart (line : Nat) (second : Position) (text : List Char) :
    distanceFrom ⟨line, 0⟩ second text =
      distance (second.line - line) second.character text := by
  unfold distanceFrom
  split
  · rename_i hline
    have hzero : second.line - line = 0 := by
      simp only at hline
      omega
    rw [hzero, Nat.sub_zero]
  · rfl

/-- The way to a later line ends at least one line. -/
theorem distanceFrom_later_line (hafter : IsAfter ⟨first.line + 1, 0⟩ second) (text : List Char) :
    first.distanceFrom second text =
      distance (second.line - (first.line + 1) + 1) second.character text := by
  simp only [IsAfter] at hafter
  have hline : ¬first.line = second.line := by omega
  have hlines : second.line - first.line = second.line - (first.line + 1) + 1 := by omega
  rw [distanceFrom, if_neg hline, hlines]

theorem distanceFrom_bothBreaks (hafter : IsAfter ⟨first.line + 1, 0⟩ second) :
    first.distanceFrom second ('\r' :: '\n' :: rest) =
      2 + distanceFrom ⟨first.line + 1, 0⟩ second rest := by
  rw [distanceFrom_later_line hafter, distanceFrom_lineStart, distance_bothBreaks]

theorem distanceFrom_lineBreak (hbreak : isLineBreak c = true)
    (hfeed : c = '\r' → rest.head? ≠ some '\n')
    (hafter : IsAfter ⟨first.line + 1, 0⟩ second) :
    first.distanceFrom second (c :: rest) =
      c.utf8Size + distanceFrom ⟨first.line + 1, 0⟩ second rest := by
  rw [distanceFrom_later_line hafter, distanceFrom_lineStart, distance_lineBreak hbreak hfeed]

theorem distanceFrom_character (hbreak : isLineBreak c = false)
    (hafter : IsAfter ⟨first.line, first.character + units c⟩ second) :
    first.distanceFrom second (c :: rest) =
      c.utf8Size + distanceFrom ⟨first.line, first.character + units c⟩ second rest := by
  simp only [IsAfter] at hafter
  by_cases hline : first.line = second.line
  · have hle : units c ≤ second.character - first.character := by omega
    have hsub : second.character - first.character - units c =
        second.character - (first.character + units c) := by omega
    rw [distanceFrom, distanceFrom, if_pos hline, if_pos hline, distance_same_line hbreak hle, hsub]
  · obtain ⟨lines, hlines⟩ : ∃ lines, second.line - first.line = lines + 1 :=
      ⟨second.line - first.line - 1, by omega⟩
    rw [distanceFrom, distanceFrom, if_neg hline, if_neg hline, hlines, distance_later_line hbreak]

end Ways

/-! ## There and back -/

theorem IsAfter.of_lineStart {first second : Position}
    (hafter : IsAfter ⟨first.line + 1, 0⟩ second) : first.IsAfter second := by
  simp only [IsAfter] at hafter ⊢
  omega

/-- Going on in a text leads to a later position. -/
theorem isAfter_after (position : Position) (offset : Nat) (text : List Char) :
    position.IsAfter (position.after offset text) := by
  fun_induction after position offset text with
  | case1 | case2 | case5 => exact .inr ⟨rfl, Nat.le_refl _⟩
  | case3 => exact .inr ⟨rfl, Nat.le_succ _⟩
  | case4 | case6 =>
    rename_i ih
    exact ih.of_lineStart
  | case7 =>
    rename_i ih
    simp only [IsAfter] at ih ⊢
    omega

/-- The way to the position that is reached ends at the last place before the
offset. -/
theorem le_distanceFrom_after_iff (position : Position) (offset : Nat) (text : List Char)
    {place : Nat} (hplace : IsPlace text place) :
    place ≤ position.distanceFrom (position.after offset text) text ↔ place ≤ offset := by
  fun_induction after position offset text generalizing place with
  | case1 position offset =>
    rw [eq_zero_of_isPlace_nil hplace]
    simp
  | case2 position rest =>
    rw [distanceFrom_self]
  | case3 position rest hne =>
    -- Inside the line break the position is that of its start.
    have hzero : position.distanceFrom ⟨position.line, position.character + 1⟩
        ('\r' :: '\n' :: rest) = 0 := by
      rw [distanceFrom, if_pos rfl, distance]
    rw [hzero]
    rcases isPlace_bothBreaks hplace with rfl | ⟨later, -, rfl⟩ <;> omega
  | case4 position offset rest hzero hone ih =>
    rw [distanceFrom_bothBreaks (isAfter_after _ _ _)]
    rcases isPlace_bothBreaks hplace with rfl | ⟨later, hlater, rfl⟩
    · omega
    · have := ih hlater
      omega
  | case5 position offset c rest hboth hlt =>
    rw [distanceFrom_self]
    rcases isPlace_cons hplace with rfl | ⟨later, -, rfl, -⟩ <;> omega
  | case6 position offset c rest hboth hle hbreak ih =>
    have hfeed : c = '\r' → rest.head? ≠ some '\n' := by
      intro hreturn hfeed
      obtain ⟨after, hrest⟩ := List.head?_eq_some_iff.1 hfeed
      exact hboth after hreturn hrest
    rw [distanceFrom_lineBreak hbreak hfeed (isAfter_after _ _ _)]
    rcases isPlace_cons hplace with rfl | ⟨later, hlater, rfl, -⟩
    · omega
    · have := ih hlater
      omega
  | case7 position offset c rest hboth hle hbreak ih =>
    rw [distanceFrom_character (by simpa using hbreak) (isAfter_after _ _ _)]
    rcases isPlace_cons hplace with rfl | ⟨later, hlater, rfl, -⟩
    · omega
    · have := ih hlater
      omega

/-- The position of an offset leads back to the last place at or before it. -/
theorem le_toOffset_ofOffset_iff {text : List Char} {place : Nat} (hplace : IsPlace text place)
    (offset : Nat) : place ≤ toOffset text (ofOffset text offset) ↔ place ≤ offset := by
  have hway : toOffset text (ofOffset text offset) =
      distanceFrom ⟨0, 0⟩ (after ⟨0, 0⟩ offset text) text := by
    rw [distanceFrom_lineStart]
    rfl
  rw [hway]
  exact le_distanceFrom_after_iff ⟨0, 0⟩ offset text hplace

/-- Every position leads to a place. -/
theorem isPlace_distance (line character : Nat) (text : List Char) :
    IsPlace text (distance line character text) := by
  fun_induction distance line character text with
  | case1 | case2 | case4 => exact isPlace_zero _
  | case3 line character rest ih => exact ih.bothBreaks
  | case5 character c rest hboth hgo ih =>
    refine ih.cons fun hreturn => ?_
    subst hreturn
    exact absurd (.inl rfl) hgo
  | case6 line character c rest hboth ih =>
    refine ih.cons fun hreturn hfeed => ?_
    obtain ⟨after, hrest⟩ := List.head?_eq_some_iff.1 hfeed
    exact absurd hrest (hboth after hreturn)

/-- The position of a place leads back to it. -/
theorem toOffset_ofOffset {text : List Char} {place : Nat} (hplace : IsPlace text place) :
    toOffset text (ofOffset text place) = place := by
  have hback : IsPlace text (toOffset text (ofOffset text place)) := isPlace_distance _ _ _
  apply Nat.le_antisymm
  · exact (le_toOffset_ofOffset_iff hback place).1 (Nat.le_refl _)
  · exact (le_toOffset_ofOffset_iff hplace place).2 (Nat.le_refl _)

/-- Inside a line break the position is on the line that it ends, and leads back
to the end of that line. -/
example : ofOffset "a\r\nb".toList 2 = ⟨0, 2⟩ ∧ toOffset "a\r\nb".toList ⟨0, 2⟩ = 1 := by
  decide

end Position

end TaskFile
