import TaskFile.Proofs.Text.Order
import TaskFile.Proofs.Text.Literal

/-!
# Lines of a text

A position stands in a text when the text has its line and the line has its
character, which must not be inside a surrogate pair (`Position.StandsIn`).  These
are the positions of places (`Position.exists_place_iff`), and every other position
is led to one of them (`Position.ofOffset_toOffset_normal`).

What comes first in a text moves the positions of what follows.
`Position.after_eq_further` says how: on the same line it adds to their characters,
and on later lines only to their lines.  So the positions in two texts one after the other
are put together from those in each of them, unless a line break is cut in two
(`Position.ofOffset_append_iff`).  Characters that end no line do not lead off their line
(`Position.line_ofOffset_eq`), and rows of them with a line feed behind each are the lines of
their text (`Text.lines_flatMap_feed`).
-/

namespace TaskFile

open Text

/-! ## Units -/

namespace Utf16

variable {c : Char} {text : List Char}

/-- A place in a sequence of units is inside a surrogate pair. -/
def IsInsidePair (units : List Nat) (place : Nat) : Prop :=
  ∃ front high low back, front ++ high :: low :: back = units ∧ isHigh high = true ∧
    isLow low = true ∧ front.length + 1 = place

@[simp] theorem length_encodeChar (c : Char) : (encodeChar c).length = units c := by
  have hcode : c.toNat < 0x10000 ↔ c.val < 0x10000 := Iff.rfl
  by_cases hlow : c.toNat < 0x10000
  · rw [encodeChar, units, if_pos hlow, if_pos (hcode.1 hlow)]
    rfl
  · rw [encodeChar, units, if_neg hlow, if_neg (mt hcode.2 hlow)]
    rfl

@[simp] theorem encode_nil : encode [] = [] := rfl

@[simp] theorem encode_cons (c : Char) (text : List Char) :
    encode (c :: text) = encodeChar c ++ encode text := rfl

@[simp] theorem encode_append (front back : List Char) :
    encode (front ++ back) = encode front ++ encode back :=
  List.flatMap_append

theorem IsInsidePair.append {units : List Nat} {place : Nat} (hinside : IsInsidePair units place)
    (first : List Nat) : IsInsidePair (first ++ units) (first.length + place) := by
  obtain ⟨front, high, low, back, rfl, hhigh, hlow, rfl⟩ := hinside
  refine ⟨first ++ front, high, low, back, List.append_assoc .., hhigh, hlow, ?_⟩
  rw [List.length_append, Nat.add_assoc]

/-- Inside the units of a character is inside a pair. -/
theorem isInsidePair_of_lt {place : Nat} (hpos : 0 < place) (hlt : place < units c)
    (rest : List Nat) : IsInsidePair (encodeChar c ++ rest) place := by
  rw [← length_encodeChar, encodeChar] at hlt
  rw [encodeChar]
  split at hlt
  · rw [List.length_singleton] at hlt
    omega
  · rename_i hcode
    obtain ⟨hhigh, hlow, -⟩ := Escape.pair_toNat hcode
    rw [List.length_cons, List.length_singleton] at hlt
    obtain rfl : place = 1 := by omega
    rw [if_neg hcode]
    exact ⟨[], _, _, rest, rfl, hhigh, hlow, rfl⟩

/-- The end of a front part is not inside a pair: the second half of the pair would be
the first unit of a character. -/
theorem not_isInsidePair_front (front back : List Char) :
    ¬IsInsidePair (encode (front ++ back)) (encode front).length := by
  rintro ⟨before, high, low, after, happend, -, hlow, hlength⟩
  have hcut : (before ++ [high]) ++ low :: after = encode front ++ encode back := by
    simpa using happend
  obtain ⟨-, hback⟩ := List.append_inj hcut (by simpa using hlength)
  cases back with
  | nil => contradiction
  | cons c back =>
    have hhead : low ∈ (encodeChar c ++ encode back).head? := by
      rw [← encode_cons, ← hback]
      rfl
    rw [isLow_head_encodeChar c _ low hhead] at hlow
    contradiction

/-- Every other place among the units of a text is the end of a front part. -/
theorem exists_front {place : Nat} (hle : place ≤ (encode text).length)
    (hinside : ¬IsInsidePair (encode text) place) :
    ∃ front, front <+: text ∧ (encode front).length = place := by
  induction text generalizing place with
  | nil => exact ⟨[], List.nil_prefix, (Nat.le_zero.1 hle).symm⟩
  | cons c text ih =>
    by_cases hzero : place = 0
    · exact ⟨[], List.nil_prefix, hzero.symm⟩
    have hunits : units c ≤ place := by
      by_contra hlt
      exact hinside (isInsidePair_of_lt (Nat.pos_of_ne_zero hzero) (Nat.not_le.1 hlt) _)
    obtain ⟨more, rfl⟩ := Nat.exists_eq_add_of_le hunits
    rw [encode_cons, List.length_append, length_encodeChar] at hle
    rw [encode_cons, ← length_encodeChar] at hinside
    obtain ⟨front, hfront, rfl⟩ :=
      ih (Nat.le_of_add_le_add_left hle) fun hmore => hinside (hmore.append _)
    exact ⟨c :: front, List.cons_prefix_cons.2 ⟨rfl, hfront⟩, by simp⟩

theorem exists_front_iff {place : Nat} :
    (∃ front, front <+: text ∧ (encode front).length = place) ↔
      place ≤ (encode text).length ∧ ¬IsInsidePair (encode text) place := by
  constructor
  · rintro ⟨front, ⟨back, rfl⟩, rfl⟩
    exact ⟨by simp, not_isInsidePair_front front back⟩
  · rintro ⟨hle, hinside⟩
    exact exists_front hle hinside

end Utf16

/-! ## Lines -/

namespace Text

/-- The lines of a text, without what ends them. -/
def lines : List Char → List (List Char)
  | [] => [[]]
  | '\r' :: '\n' :: rest => [] :: lines rest
  | c :: rest => if isLineBreak c then [] :: lines rest else (lines rest).modifyHead (c :: ·)

variable {style : LineEnd} {c : Char} {rest : List Char}

theorem lines_lineEnd (hrest : style.Stops rest) :
    lines (style.chars ++ rest) = [] :: lines rest := by
  cases style with
  | feed => rfl
  | both => rfl
  | carriage =>
    show lines ('\r' :: rest) = _
    rw [lines]
    · rfl
    · rintro after - rfl
      exact hrest rfl rfl

theorem lines_character (hc : isLineBreak c = false) (rest : List Char) :
    lines (c :: rest) = (lines rest).modifyHead (c :: ·) := by
  rw [lines, if_neg (by simp [hc])]
  rintro after rfl -
  contradiction

/-- Characters that end no line, up to a line end, are the first line. -/
theorem lines_append {line : List Char} (hline : ∀ c ∈ line, isLineBreak c = false)
    (hrest : style.Stops rest) : lines (line ++ (style.chars ++ rest)) = line :: lines rest := by
  induction line with
  | nil => exact lines_lineEnd hrest
  | cons c line ih =>
    have hc : isLineBreak c = false := hline c List.mem_cons_self
    rw [List.cons_append, lines_character hc, ih fun d hd => hline d (List.mem_cons_of_mem c hd),
      List.modifyHead_cons]

/-- Rows without line breaks, each with a line feed behind it, are the lines of a text.  What
is behind the last line feed is one more line, without a character. -/
theorem lines_flatMap_feed {rows : List (List Char)}
    (hrows : ∀ row ∈ rows, ∀ c ∈ row, isLineBreak c = false) :
    lines (rows.flatMap (· ++ ['\n'])) = rows ++ [[]] := by
  induction rows with
  | nil => rfl
  | cons row rows ih =>
    obtain ⟨hrow, hrows⟩ := List.forall_mem_cons.1 hrows
    have hfirst := lines_append hrow (LineEnd.stops_feed (rows.flatMap (· ++ ['\n'])))
    rw [ih hrows] at hfirst
    rw [List.flatMap_cons, List.append_assoc]
    exact hfirst

/-- Every text has a first line. -/
theorem exists_lines_eq_cons (text : List Char) : ∃ line more, lines text = line :: more := by
  induction text using byLines with
  | nil => exact ⟨[], [], rfl⟩
  | lineEnd style rest hrest _ => exact ⟨[], lines rest, lines_lineEnd hrest⟩
  | character c rest hc ih =>
    obtain ⟨line, more, hlines⟩ := ih
    exact ⟨c :: line, more, by rw [lines_character hc, hlines]; rfl⟩

example : lines "a\r\nb\r\rc\n".toList = [['a'], ['b'], [], ['c'], []] := by decide

end Text

namespace Position

variable {text rest : List Char} {c : Char} {style : LineEnd} {position : Position}

/-! ## Texts further on -/

/-- A position of a text that starts at another position. -/
def further (start position : Position) : Position :=
  if position.line = 0 then ⟨start.line, start.character + position.character⟩
  else ⟨start.line + position.line, position.character⟩

theorem further_lineStart (line : Nat) (position : Position) :
    further ⟨line, 0⟩ position = ⟨line + position.line, position.character⟩ := by
  unfold further
  split
  · rename_i hline
    rw [hline, Nat.zero_add, Nat.add_zero]
  · rfl

theorem further_assoc (first second third : Position) :
    (first.further second).further third = first.further (second.further third) := by
  unfold further
  split_ifs <;> simp_all [Nat.add_assoc]

/-- Inside a line end the position is still on the line that ends there. -/
theorem after_insideLineEnd {offset : Nat} (hlt : offset < width style.chars) (start : Position)
    (rest : List Char) :
    start.after offset (style.chars ++ rest) = ⟨start.line, start.character + offset⟩ := by
  by_cases hzero : offset = 0
  · rw [hzero, after_zero]
    rfl
  cases style with
  | feed | carriage =>
    have : offset < 1 := hlt
    omega
  | both =>
    obtain rfl : offset = 1 := by
      have : offset < 2 := hlt
      omega
    rfl

/-- Where a text starts moves all its positions. -/
theorem after_eq_further (start : Position) (offset : Nat) (text : List Char) :
    start.after offset text = start.further (ofOffset text offset) := by
  induction text using byLines generalizing start offset with
  | nil => rfl
  | lineEnd style rest hrest ih =>
    by_cases hinside : offset < width style.chars
    · rw [ofOffset, after_insideLineEnd hinside, after_insideLineEnd hinside, Nat.zero_add]
      rfl
    · obtain ⟨more, rfl⟩ := Nat.exists_eq_add_of_le (Nat.not_lt.1 hinside)
      rw [ofOffset, after_lineEnd hrest, after_lineEnd hrest, ih ⟨start.line + 1, 0⟩ more,
        ih ⟨0 + 1, 0⟩ more, ← further_assoc]
      rfl
  | character c rest hc ih =>
    by_cases hinside : offset < c.utf8Size
    · rw [ofOffset, after_inside hc hinside, after_inside hc hinside]
      rfl
    · obtain ⟨more, rfl⟩ := Nat.exists_eq_add_of_le (Nat.not_lt.1 hinside)
      rw [ofOffset, after_character hc, after_character hc,
        ih ⟨start.line, start.character + units c⟩ more, ih ⟨0, 0 + units c⟩ more, ← further_assoc,
        Nat.zero_add]
      rfl

theorem ofOffset_lineEnd (hrest : style.Stops rest) (offset : Nat) :
    ofOffset (style.chars ++ rest) (width style.chars + offset) =
      further ⟨1, 0⟩ (ofOffset rest offset) := by
  rw [ofOffset, after_lineEnd hrest, after_eq_further]

theorem ofOffset_character (hc : isLineBreak c = false) (offset : Nat) :
    ofOffset (c :: rest) (c.utf8Size + offset) = further ⟨0, units c⟩ (ofOffset rest offset) := by
  rw [ofOffset, after_character hc, after_eq_further, Nat.zero_add]

/-- Behind the first of two texts the positions are those of the second one, further on than
the end of the first.  This is so at every offset, also inside characters and line breaks and
past the end, just when the two texts do not share a line break. -/
theorem ofOffset_append_iff (front back : List Char) :
    (∀ offset, ofOffset (front ++ back) (width front + offset) =
      (ofOffset front (width front)).further (ofOffset back offset)) ↔
      ¬(front.getLast? = some '\r' ∧ back.head? = some '\n') := by
  constructor
  · rintro hfurther ⟨hreturn, hfeed⟩
    obtain ⟨before, rfl⟩ := List.getLast?_eq_some_iff.1 hreturn
    obtain ⟨after, rfl⟩ := List.head?_eq_some_iff.1 hfeed
    have hbetween (rest : List Char) :
        ¬(before.getLast? = some '\r' ∧ ('\r' :: rest).head? = some '\n') :=
      fun hbreak => absurd (Option.some.inj hbreak.2) (by decide)
    -- Where the texts meet, the first one has ended a line that the whole text is still on.
    have hwhole : ofOffset (before ++ '\r' :: '\n' :: after) (width before + 1) =
        ⟨(ofOffset before (width before)).line, (ofOffset before (width before)).character + 1⟩ :=
      after_append (hbetween _) ⟨0, 0⟩ 1
    have hfront : ofOffset (before ++ ['\r']) (width before + 1) =
        ⟨(ofOffset before (width before)).line + 1, 0⟩ :=
      after_append (hbetween _) ⟨0, 0⟩ 1
    have hmeet : ofOffset (before ++ '\r' :: '\n' :: after) (width before + 1) =
        further (ofOffset (before ++ ['\r']) (width before + 1)) ⟨0, 0⟩ := by
      simpa [ofOffset, after_zero, Char.utf8Size] using hfurther 0
    rw [hwhole, hfront] at hmeet
    exact Nat.succ_ne_self _ (congrArg line hmeet).symm
  · intro hbetween offset
    rw [ofOffset, after_append hbetween, after_eq_further]
    rfl

/-- Characters that end no line do not lead off their line. -/
theorem line_after_of_forall {middle : List Char} (hmiddle : ∀ c ∈ middle, isLineBreak c = false)
    (start : Position) (rest : List Char) :
    (start.after (width middle) (middle ++ rest)).line = start.line := by
  induction middle generalizing start with
  | nil => rw [width_nil, after_zero]
  | cons c middle ih =>
    have hc : isLineBreak c = false := hmiddle c List.mem_cons_self
    rw [width_cons, List.cons_append, after_character hc]
    exact ih (fun d hd => hmiddle d (List.mem_cons_of_mem c hd)) _

/-- The two ends of a part of a text that holds no line break are on the same line. -/
theorem line_ofOffset_eq {middle : List Char} (hmiddle : ∀ c ∈ middle, isLineBreak c = false)
    (before rest : List Char) :
    (ofOffset (before ++ (middle ++ rest)) (width before)).line =
      (ofOffset (before ++ (middle ++ rest)) (width before + width middle)).line := by
  cases middle with
  | nil => rfl
  | cons c middle =>
    have hbetween : ¬(before.getLast? = some '\r' ∧ (c :: middle ++ rest).head? = some '\n') := by
      intro hbreak
      obtain rfl : c = '\n' := Option.some.inj hbreak.2
      exact absurd (hmiddle '\n' List.mem_cons_self) (by decide)
    have hstart := after_append hbetween ⟨0, 0⟩ 0
    have hstop := after_append hbetween ⟨0, 0⟩ (width (c :: middle))
    rw [Nat.add_zero, after_zero] at hstart
    rw [ofOffset, ofOffset, hstart, hstop, line_after_of_forall hmiddle]

/-! ## Positions in a text -/

/-- A position stands in a text when the text has its line, the line reaches up to its
character, and that is not inside a surrogate pair. -/
def StandsIn (text : List Char) (position : Position) : Prop :=
  ∃ line, (lines text)[position.line]? = some line ∧
    position.character ≤ (Utf16.encode line).length ∧
    ¬Utf16.IsInsidePair (Utf16.encode line) position.character

/-- A position stands in a text when it is behind a front part of its line. -/
theorem standsIn_iff : StandsIn text position ↔
    ∃ line front, (lines text)[position.line]? = some line ∧ front <+: line ∧
      (Utf16.encode front).length = position.character := by
  simp only [StandsIn, ← Utf16.exists_front_iff, exists_and_left]

theorem standsIn_nil_iff : StandsIn [] position ↔ position = ⟨0, 0⟩ := by
  obtain ⟨line, character⟩ := position
  rw [standsIn_iff]
  constructor
  · rintro ⟨row, front, hrow, hfront, hcharacter⟩
    cases line with
    | succ line => contradiction
    | zero =>
      obtain rfl := Option.some.inj hrow
      obtain rfl := List.prefix_nil.1 hfront
      obtain rfl : 0 = character := hcharacter
      rfl
  · intro hposition
    obtain ⟨rfl, rfl⟩ := Position.mk.inj hposition
    exact ⟨[], [], rfl, List.nil_prefix, rfl⟩

/-- Behind a line end the lines of the rest come one line later. -/
theorem standsIn_lineEnd_iff (hrest : style.Stops rest) :
    StandsIn (style.chars ++ rest) position ↔
      position = ⟨0, 0⟩ ∨ ∃ later, StandsIn rest later ∧ position = further ⟨1, 0⟩ later := by
  obtain ⟨line, character⟩ := position
  simp only [standsIn_iff, lines_lineEnd hrest, further_lineStart]
  constructor
  · rintro ⟨row, front, hrow, hfront, hcharacter⟩
    cases line with
    | zero =>
      obtain rfl := Option.some.inj hrow
      obtain rfl := List.prefix_nil.1 hfront
      obtain rfl : 0 = character := hcharacter
      exact .inl rfl
    | succ line =>
      exact .inr ⟨⟨line, character⟩, ⟨row, front, hrow, hfront, hcharacter⟩, by rw [Nat.add_comm]⟩
  · rintro (hposition | ⟨later, ⟨row, front, hrow, hfront, hcharacter⟩, hposition⟩)
    · obtain ⟨rfl, rfl⟩ := Position.mk.inj hposition
      exact ⟨[], [], rfl, List.nil_prefix, rfl⟩
    · obtain ⟨rfl, rfl⟩ := Position.mk.inj hposition
      exact ⟨row, front, by rwa [Nat.add_comm], hfront, hcharacter⟩

/-- A character makes the first line of the rest longer and moves no other line. -/
theorem standsIn_character_iff (hc : isLineBreak c = false) :
    StandsIn (c :: rest) position ↔
      position = ⟨0, 0⟩ ∨ ∃ later, StandsIn rest later ∧ position = further ⟨0, units c⟩ later := by
  obtain ⟨line, character⟩ := position
  simp only [standsIn_iff, lines_character hc]
  constructor
  · rintro ⟨row, front, hrow, hfront, hcharacter⟩
    cases line with
    | zero =>
      rw [List.getElem?_modifyHead_zero, Option.map_eq_some_iff] at hrow
      obtain ⟨row, hrow, rfl⟩ := hrow
      cases front with
      | nil =>
        obtain rfl : 0 = character := hcharacter
        exact .inl rfl
      | cons d front =>
        obtain ⟨rfl, htail⟩ := List.cons_prefix_cons.1 hfront
        refine .inr ⟨⟨0, (Utf16.encode front).length⟩, ⟨row, front, hrow, htail, rfl⟩, ?_⟩
        rw [← hcharacter, Utf16.encode_cons, List.length_append, Utf16.length_encodeChar]
        rfl
    | succ line =>
      rw [List.getElem?_modifyHead_succ] at hrow
      refine .inr ⟨⟨line + 1, character⟩, ⟨row, front, hrow, hfront, hcharacter⟩, ?_⟩
      rw [further, if_neg (Nat.succ_ne_zero line), Nat.zero_add]
  · rintro (hposition | ⟨⟨later, character'⟩, ⟨row, front, hrow, hfront, hcharacter⟩, hposition⟩)
    · obtain ⟨rfl, rfl⟩ := Position.mk.inj hposition
      obtain ⟨row, rows, hrows⟩ := exists_lines_eq_cons rest
      exact ⟨c :: row, [], by rw [hrows]; rfl, List.nil_prefix, rfl⟩
    · cases later with
      | zero =>
        obtain ⟨rfl, rfl⟩ := Position.mk.inj hposition
        refine ⟨c :: row, c :: front, ?_, List.cons_prefix_cons.2 ⟨rfl, hfront⟩, ?_⟩
        · rw [List.getElem?_modifyHead_zero, hrow]
          rfl
        · rw [Utf16.encode_cons, List.length_append, Utf16.length_encodeChar, hcharacter]
      | succ later =>
        rw [further, if_neg (Nat.succ_ne_zero later), Nat.zero_add] at hposition
        obtain ⟨rfl, rfl⟩ := Position.mk.inj hposition
        exact ⟨row, front, by rwa [List.getElem?_modifyHead_succ], hfront, hcharacter⟩

/-- The position of a place is the start of the text, or what comes first there moves
the position of a place of the rest. -/
theorem exists_place_step {size : Nat} {first : Position}
    (hplaces : ∀ {place}, IsPlace text place ↔
      place = 0 ∨ ∃ later, IsPlace rest later ∧ place = size + later)
    (hfirst : ∀ offset, ofOffset text (size + offset) = further first (ofOffset rest offset)) :
    (∃ place, IsPlace text place ∧ ofOffset text place = position) ↔
      position = ⟨0, 0⟩ ∨ ∃ later, (∃ place, IsPlace rest place ∧ ofOffset rest place = later) ∧
        position = further first later := by
  constructor
  · rintro ⟨place, hplace, rfl⟩
    rcases hplaces.1 hplace with rfl | ⟨later, hlater, rfl⟩
    · exact .inl (after_zero _ _)
    · exact .inr ⟨_, ⟨later, hlater, rfl⟩, hfirst later⟩
  · rintro (rfl | ⟨_, ⟨later, hlater, rfl⟩, rfl⟩)
    · exact ⟨0, isPlace_zero _, after_zero _ _⟩
    · exact ⟨size + later, hplaces.2 (.inr ⟨later, hlater, rfl⟩), hfirst later⟩

/-- The positions that stand in a text are those of its places. -/
theorem exists_place_iff (text : List Char) (position : Position) :
    (∃ place, IsPlace text place ∧ ofOffset text place = position) ↔ StandsIn text position := by
  induction text using byLines generalizing position with
  | nil =>
    rw [standsIn_nil_iff]
    constructor
    · rintro ⟨place, -, rfl⟩
      rfl
    · rintro rfl
      exact ⟨0, isPlace_zero [], rfl⟩
  | lineEnd style rest hrest ih =>
    rw [standsIn_lineEnd_iff hrest,
      exists_place_step (isPlace_lineEnd_iff hrest) (ofOffset_lineEnd hrest)]
    simp only [ih]
  | character c rest hc ih =>
    rw [standsIn_character_iff hc,
      exists_place_step (isPlace_character_iff hc) (ofOffset_character hc)]
    simp only [ih]

/-! ## There and back -/

/-- A position leads to a place, at or before it, and the position of that place leads
there again.  It is the position itself exactly when that stands in the text. -/
theorem ofOffset_toOffset_normal (text : List Char) (position : Position) :
    (IsBoundary text (toOffset text position) ∧ toOffset text position ≤ width text ∧
        ¬IsInsideBreak text (toOffset text position)) ∧
      ofOffset text (toOffset text position) ≤ position ∧
      toOffset text (ofOffset text (toOffset text position)) = toOffset text position ∧
      (ofOffset text (toOffset text position) = position ↔ StandsIn text position) := by
  have hplace : IsPlace text (toOffset text position) := isPlace_distance _ _ _
  obtain ⟨hboundary, hinside⟩ := isPlace_iff.1 hplace
  refine ⟨⟨hboundary, hboundary.le_width, hinside⟩, ofOffset_toOffset_le text position,
    toOffset_ofOffset hplace, fun hsame => ?_, fun hstands => ?_⟩
  · exact (exists_place_iff text position).1 ⟨_, hplace, hsame⟩
  · obtain ⟨place, hother, rfl⟩ := (exists_place_iff text position).2 hstands
    exact congrArg (ofOffset text) (toOffset_ofOffset hother)

end Position

end TaskFile
