import TaskFile.Proofs.Text.Place
import TaskFile.Proofs.Token.Remainder

/-!
# Offsets that are not places

An offset is at a boundary between two characters, inside a character, or past the
end of the text.  A boundary is a place of a cursor unless it is inside a line break
(`Text.isPlace_iff`).

The position of an offset leads back to the last place at or before it, and which
one that is depends on the kind of the offset (`Position.toOffset_ofOffset_cases`):
a place comes back, inside a line break it is the offset before, inside a character
the one of its start, and past the end that of the end.
-/

namespace TaskFile

open Text

namespace Text

variable {text : List Char} {offset : Nat}

/-! ## Kinds of offsets -/

/-- The offsets between the two characters of a line break. -/
def IsInsideBreak (text : List Char) (offset : Nat) : Prop :=
  ∃ before after, before ++ '\r' :: '\n' :: after = text ∧ width before + 1 = offset

/-- An offset is inside the character that starts at another one. -/
def IsInsideCharacter (text : List Char) (start offset : Nat) : Prop :=
  ∃ before c after, before ++ c :: after = text ∧ width before = start ∧ start < offset ∧
    offset < start + c.utf8Size

/-- Where a text is cut at an offset there is one way to do so. -/
theorem append_inj_of_width {before after first rest : List Char}
    (happend : before ++ after = first ++ rest) (hwidth : width before = width first) :
    before = first ∧ after = rest := by
  have hcut := splitAt?_width before after
  rw [happend, hwidth, splitAt?_width] at hcut
  obtain ⟨rfl, rfl⟩ := Prod.mk.inj (Option.some.inj hcut)
  exact ⟨rfl, rfl⟩

/-- A boundary is a place unless it is inside a line break. -/
theorem isPlace_iff :
    IsPlace text offset ↔ IsBoundary text offset ∧ ¬IsInsideBreak text offset := by
  constructor
  · rintro ⟨before, after, rfl, rfl, hbetween⟩
    refine ⟨⟨before, List.prefix_append _ _, rfl⟩, ?_⟩
    rintro ⟨front, rest, happend, hwidth⟩
    have hcut : (front ++ ['\r']) ++ '\n' :: rest = before ++ after := by simpa using happend
    obtain ⟨rfl, rfl⟩ := append_inj_of_width hcut ((width_append front ['\r']).trans hwidth)
    exact hbetween ⟨List.getLast?_concat, rfl⟩
  · rintro ⟨⟨before, ⟨after, rfl⟩, rfl⟩, hinside⟩
    refine ⟨before, after, rfl, rfl, ?_⟩
    rintro ⟨hreturn, hfeed⟩
    obtain ⟨front, rfl⟩ := List.getLast?_eq_some_iff.1 hreturn
    obtain ⟨rest, rfl⟩ := List.head?_eq_some_iff.1 hfeed
    exact hinside ⟨front, rest, by simp, (width_append front ['\r']).symm⟩

theorem IsPlace.isBoundary (hplace : IsPlace text offset) : IsBoundary text offset :=
  (isPlace_iff.1 hplace).1

/-- The offset before one inside a line break is a place. -/
theorem IsInsideBreak.isPlace (hinside : IsInsideBreak text offset) :
    IsPlace text (offset - 1) := by
  obtain ⟨before, after, rfl, rfl⟩ := hinside
  refine ⟨before, '\r' :: '\n' :: after, rfl, (Nat.add_sub_cancel ..).symm, ?_⟩
  rintro ⟨-, hfeed⟩
  exact absurd (Option.some.inj hfeed) (by decide)

/-- No boundary lies between the start of a character and an offset inside of it. -/
theorem IsInsideCharacter.le_iff {start bound : Nat}
    (hinside : IsInsideCharacter text start offset) (hbound : IsBoundary text bound) :
    bound ≤ offset ↔ bound ≤ start := by
  obtain ⟨before, c, after, rfl, rfl, hstart, hstop⟩ := hinside
  obtain ⟨front, ⟨rest, happend⟩, rfl⟩ := hbound
  refine ⟨fun hle => ?_, fun hle => by omega⟩
  rcases List.append_eq_append_iff.1 happend with ⟨between, rfl, -⟩ | ⟨between, rfl, hrest⟩
  · simp
  · cases between with
    | nil => simp
    | cons d between =>
      obtain ⟨rfl, -⟩ := List.cons.inj hrest
      rw [width_append, width_cons] at hle
      omega

/-- Every offset is at a boundary, inside a character or past the end. -/
theorem offset_cases (text : List Char) (offset : Nat) :
    IsBoundary text offset ∨ (∃ start, IsInsideCharacter text start offset) ∨
      width text < offset := by
  induction text generalizing offset with
  | nil =>
    cases offset with
    | zero => exact .inl (isBoundary_width [])
    | succ offset => exact .inr (.inr (Nat.succ_pos offset))
  | cons c rest ih =>
    by_cases hzero : offset = 0
    · exact .inl ⟨[], List.nil_prefix, hzero.symm⟩
    by_cases hinside : offset < c.utf8Size
    · exact .inr (.inl ⟨0, [], c, rest, rfl, rfl, Nat.pos_of_ne_zero hzero, by omega⟩)
    obtain ⟨more, rfl⟩ := Nat.exists_eq_add_of_le (Nat.not_lt.1 hinside)
    rcases ih more with
      ⟨before, hprefix, rfl⟩ | ⟨_, before, d, after, rfl, rfl, hstart, hstop⟩ | hpast
    · exact .inl ⟨c :: before, List.cons_prefix_cons.2 ⟨rfl, hprefix⟩, rfl⟩
    · exact .inr (.inl ⟨_, c :: before, d, after, rfl, rfl, by simpa, by simp; omega⟩)
    · exact .inr (.inr (by simpa))

end Text

namespace Position

variable {text : List Char}

/-! ## There and back -/

/-- Two offsets with no place in between lead back to the same place. -/
theorem toOffset_ofOffset_congr {first second : Nat}
    (hplaces : ∀ place, IsPlace text place → (place ≤ first ↔ place ≤ second)) :
    toOffset text (ofOffset text first) = toOffset text (ofOffset text second) := by
  have hfirst : IsPlace text (toOffset text (ofOffset text first)) := isPlace_distance _ _ _
  have hsecond : IsPlace text (toOffset text (ofOffset text second)) := isPlace_distance _ _ _
  apply Nat.le_antisymm
  · have hle := (le_toOffset_ofOffset_iff hfirst first).1 (Nat.le_refl _)
    exact (le_toOffset_ofOffset_iff hfirst second).2 ((hplaces _ hfirst).1 hle)
  · have hle := (le_toOffset_ofOffset_iff hsecond second).1 (Nat.le_refl _)
    exact (le_toOffset_ofOffset_iff hsecond first).2 ((hplaces _ hsecond).2 hle)

/-- Inside a line break the position leads back to the end of the line. -/
theorem toOffset_ofOffset_insideBreak {offset : Nat} (hinside : IsInsideBreak text offset) :
    toOffset text (ofOffset text offset) = offset - 1 := by
  rw [← toOffset_ofOffset hinside.isPlace]
  apply toOffset_ofOffset_congr
  intro place hplace
  have hne : place ≠ offset := by
    rintro rfl
    exact (isPlace_iff.1 hplace).2 hinside
  omega

/-- The position of an offset leads back to the offset itself when that is a boundary
between two characters, and to the offset before inside a line break.  Inside a
character it leads to where the start of the character does, and past the end to the
end.  There are no other offsets. -/
theorem toOffset_ofOffset_cases (text : List Char) (offset : Nat) :
    (IsBoundary text offset → ¬IsInsideBreak text offset →
        toOffset text (ofOffset text offset) = offset) ∧
      (IsInsideBreak text offset → toOffset text (ofOffset text offset) = offset - 1) ∧
      (∀ start, IsInsideCharacter text start offset →
        toOffset text (ofOffset text offset) = toOffset text (ofOffset text start)) ∧
      (width text < offset → toOffset text (ofOffset text offset) = width text) ∧
      (IsBoundary text offset ∨ (∃ start, IsInsideCharacter text start offset) ∨
        width text < offset) := by
  refine ⟨fun hboundary hinside => ?_, toOffset_ofOffset_insideBreak, fun start hinside => ?_,
    fun hpast => ?_, offset_cases text offset⟩
  · exact toOffset_ofOffset (isPlace_iff.2 ⟨hboundary, hinside⟩)
  · exact toOffset_ofOffset_congr fun place hplace => hinside.le_iff hplace.isBoundary
  · have hend := toOffset_ofOffset (isPlace_width text)
    rw [← hend]
    apply toOffset_ofOffset_congr
    intro place hplace
    have hle := hplace.isBoundary.le_width
    omega

/-- One offset of each kind. -/
theorem toOffset_ofOffset_cases_mixed :
    (IsBoundary "é\r\n".toList 2 ∧ ¬IsInsideBreak "é\r\n".toList 2 ∧
        toOffset "é\r\n".toList (ofOffset "é\r\n".toList 2) = 2) ∧
      (IsInsideBreak "é\r\n".toList 3 ∧
        toOffset "é\r\n".toList (ofOffset "é\r\n".toList 3) = 2) ∧
      (IsInsideCharacter "é\r\n".toList 0 1 ∧
        toOffset "é\r\n".toList (ofOffset "é\r\n".toList 1) =
          toOffset "é\r\n".toList (ofOffset "é\r\n".toList 0)) ∧
      (width "é\r\n".toList < 9 ∧
        toOffset "é\r\n".toList (ofOffset "é\r\n".toList 9) = 4) := by
  have hplace : IsPlace "é\r\n".toList 2 := ⟨['é'], ['\r', '\n'], rfl, rfl, by decide⟩
  have hbreak : IsInsideBreak "é\r\n".toList 3 := ⟨['é'], [], rfl, rfl⟩
  have hcharacter : IsInsideCharacter "é\r\n".toList 0 1 :=
    ⟨[], 'é', ['\r', '\n'], rfl, rfl, by decide, by decide⟩
  have hpast : width "é\r\n".toList < 9 := by decide
  obtain ⟨hboundary, hinside⟩ := isPlace_iff.1 hplace
  exact ⟨⟨hboundary, hinside, (toOffset_ofOffset_cases _ 2).1 hboundary hinside⟩,
    ⟨hbreak, (toOffset_ofOffset_cases _ 3).2.1 hbreak⟩,
    ⟨hcharacter, (toOffset_ofOffset_cases _ 1).2.2.1 0 hcharacter⟩,
    ⟨hpast, (toOffset_ofOffset_cases _ 9).2.2.2.1 hpast⟩⟩

end Position

end TaskFile
