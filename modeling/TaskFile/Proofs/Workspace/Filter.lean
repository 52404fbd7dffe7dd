import TaskFile.Workspace.Filter

/-!
# The default filter

Which paths a pattern covers is given by a `Glob`, of which the default filter needs two things
(`Glob.IsLawful`): plain characters match themselves, and two stars with a slash in front of a
pattern match any number of whole leading path components.  The paths that are left are the tails
of a path: the path itself and what follows one of its slashes (`Path.isTail_iff`).  So the filter
covers the paths that are `tasks.json` or end with it behind a slash
(`Filter.covers_default_iff`).

The patterns of the server are lawful (`Pattern.isLawful_glob`).  There the stars may also leave
nothing of a path, but what covers nothing at all covers every path
(`Pattern.coversAll_of_coversAll_nil`).
-/

namespace TaskFile

/-! ## Components -/

namespace Path

/-- A path with some components in front, a slash behind each of them. -/
def below (components : List String) (path : String) : String :=
  components.foldr (fun component rest => component ++ "/" ++ rest) path

/-- A tail of a path is what is left of it without some whole components at its front. -/
def IsTail (tail path : String) : Prop :=
  ∃ components : List String, (∀ component ∈ components, '/' ∉ component.toList) ∧
    path = below components tail

/-- What is in front of a slash is made of whole components. -/
theorem exists_components (front : List Char) (tail : String) :
    ∃ (first : List Char) (others : List String),
      '/' ∉ first ∧ (∀ component ∈ others, '/' ∉ component.toList) ∧
        front ++ '/' :: tail.toList = first ++ '/' :: (below others tail).toList := by
  induction front with
  | nil => exact ⟨[], [], by simp, by simp, rfl⟩
  | cons c front ih =>
    obtain ⟨first, others, hfirst, hothers, happend⟩ := ih
    by_cases hslash : c = '/'
    · subst hslash
      refine ⟨[], String.ofList first :: others, by simp, ?_, ?_⟩
      · rw [List.forall_mem_cons, String.toList_ofList]
        exact ⟨hfirst, hothers⟩
      · rw [List.cons_append, happend]
        simp [below]
    · refine ⟨c :: first, others, ?_, hothers, by rw [List.cons_append, happend]; rfl⟩
      rw [List.mem_cons, not_or]
      exact ⟨Ne.symm hslash, hfirst⟩

/-- The tails of a path are the path itself and what follows one of its slashes. -/
theorem isTail_iff {tail path : String} :
    IsTail tail path ↔ path = tail ∨ ∃ directory, path = directory ++ "/" ++ tail := by
  constructor
  · rintro ⟨components, -, rfl⟩
    induction components with
    | nil => exact .inl rfl
    | cons component components ih =>
      refine .inr ?_
      rcases ih with hself | ⟨directory, hdirectory⟩
      · exact ⟨component, congrArg (component ++ "/" ++ ·) hself⟩
      · refine ⟨component ++ "/" ++ directory, ?_⟩
        rw [below, List.foldr_cons, ← below, hdirectory]
        simp only [String.append_assoc]
  · rintro (rfl | ⟨directory, rfl⟩)
    · exact ⟨[], by simp, rfl⟩
    · obtain ⟨first, others, hfirst, hothers, happend⟩ := exists_components directory.toList tail
      refine ⟨String.ofList first :: others, ?_, String.toList_inj.1 ?_⟩
      · rw [List.forall_mem_cons, String.toList_ofList]
        exact ⟨hfirst, hothers⟩
      · simpa [below] using happend

end Path

/-! ## What patterns promise -/

namespace Glob

/-- A text whose characters stand for themselves in a pattern. -/
def IsPlain (text : String) : Prop :=
  ∀ c ∈ text.toList, c ≠ '?' ∧ c ≠ '*' ∧ c ≠ '['

/-- What is documented of path patterns, as far as the default filter needs it. -/
structure IsLawful (glob : Glob) : Prop where
  /-- A text without pattern characters is a pattern.  Its characters match themselves. -/
  plain {text : String} (hplain : IsPlain text) :
    ∃ covers, glob text = some covers ∧ ∀ path, covers path = true ↔ path = text
  /-- Two stars and a slash in front of a pattern match zero or more whole leading components of
  a path, each with its slash.  The pattern matches the rest. -/
  components {pattern : String} {covers : String → Bool} (hne : pattern ≠ "")
    (hpattern : glob pattern = some covers) :
    ∃ deeper, glob ("**/" ++ pattern) = some deeper ∧
      ∀ path, deeper path = true ↔ ∃ tail, Path.IsTail tail path ∧ covers tail = true

end Glob

/-! ## The patterns of the server -/

namespace Pattern

variable {name text rest : List Char} {pieces : List Piece} {c : Char}

/-- A plain text is read as a piece for each of its characters. -/
theorem pieces?_of_isPlain (hplain : ∀ c ∈ text, c ≠ '?' ∧ c ≠ '*' ∧ c ≠ '[')
    (previous : Option Char) : pieces? previous text = some (text.map .literal) := by
  induction text generalizing previous with
  | nil => rw [pieces?, List.map_nil]
  | cons c text ih =>
    obtain ⟨⟨hmark, hstar, hbracket⟩, hplain⟩ := List.forall_mem_cons.1 hplain
    rw [pieces?, ih hplain]
    · rfl
    -- The rows of the reading that take `c` for something else.
    · exact hmark
    · exact fun _ hc _ => hstar hc
    · exact hstar
    · exact fun _ hc _ => hbracket hc
    · exact hbracket

/-- Pieces for characters cover their text and nothing else. -/
theorem coversAll_literal_iff : coversAll (name.map .literal) text = true ↔ text = name := by
  induction name generalizing text with
  | nil => exact List.isEmpty_iff
  | cons c name ih =>
    cases text with
    | nil => simp [coversAll, Piece.leave]
    | cons d text =>
      by_cases hadmits : d = c
      · simp [coversAll, Piece.leave, Piece.admits, hadmits, ih]
      · simp [coversAll, Piece.leave, Piece.admits, hadmits]

/-- What may be left after one or more components is what follows a slash, or nothing. -/
theorem mem_afterComponents_iff :
    rest ∈ afterComponents text ↔ rest = [] ∨ ∃ front, text = front ++ '/' :: rest := by
  induction text with
  | nil => simp [afterComponents]
  | cons c text ih =>
    have hsplit : (∃ front, c :: text = front ++ '/' :: rest) ↔
        (c = '/' ∧ rest = text) ∨ ∃ front, text = front ++ '/' :: rest := by
      constructor
      · rintro ⟨front, happend⟩
        cases front with
        | nil =>
          obtain ⟨rfl, rfl⟩ := List.cons.inj happend
          exact .inl ⟨rfl, rfl⟩
        | cons d front => exact .inr ⟨front, (List.cons.inj happend).2⟩
      · rintro (⟨rfl, rfl⟩ | ⟨front, rfl⟩)
        · exact ⟨[], rfl⟩
        · exact ⟨c :: front, rfl⟩
    rw [hsplit, afterComponents]
    by_cases hslash : c = '/'
    · rw [if_pos hslash, List.mem_cons, ih]
      simp only [hslash, true_and]
      exact or_left_comm
    · rw [if_neg hslash, ih]
      simp only [hslash, false_and, false_or]

/-- A pattern is read behind a slash as at the beginning. -/
theorem pieces?_slash (text : List Char) : pieces? (some '/') text = pieces? none text := by
  rw [pieces?.eq_def, pieces?.eq_def none]
  simp only [Option.all_some, Option.all_none, beq_self_eq_true]

/-- Only nothing is read as no pieces. -/
theorem ne_nil_of_pieces? {previous : Option Char} (hpieces : pieces? previous text = some pieces)
    (hne : text ≠ []) : pieces ≠ [] := by
  rintro rfl
  revert hpieces
  fun_cases pieces? previous text <;> simp_all

theorem nil_mem_suffixes (text : List Char) : [] ∈ suffixes text := by
  induction text with
  | nil => exact List.mem_singleton_self _
  | cons c text ih => exact List.mem_cons_of_mem _ ih

/-- What covers nothing at all starts with a star, which may as well stand for a whole text. -/
theorem coversAll_of_coversAll_nil (hne : pieces ≠ []) (hnil : coversAll pieces [] = true)
    (text : List Char) : coversAll pieces text = true := by
  obtain ⟨piece, pieces, rfl⟩ := List.exists_cons_of_ne_nil hne
  rw [coversAll, List.any_eq_true] at hnil ⊢
  obtain ⟨left, hleft, hcovers⟩ := hnil
  cases piece with
  | anyText =>
    rw [List.mem_singleton.1 hleft] at hcovers
    exact ⟨[], nil_mem_suffixes text, hcovers⟩
  | anyComponents =>
    have hnone : left = [] := by simpa [Piece.leave, afterComponents] using hleft
    rw [hnone] at hcovers
    exact ⟨[], List.mem_cons_of_mem _ (mem_afterComponents_iff.2 (.inl rfl)), hcovers⟩
  | literal | anyChar | inside | outside => simp [Piece.leave] at hleft

/-- Components in front of some pieces: they cover a tail of the path. -/
theorem covers_anyComponents_iff (hne : pieces ≠ []) {path : String} :
    covers ⟨.anyComponents :: pieces⟩ path = true ↔
      ∃ tail, Path.IsTail tail path ∧ covers ⟨pieces⟩ tail = true := by
  simp only [Path.isTail_iff]
  rw [covers, coversAll, List.any_eq_true]
  simp only [Piece.leave, List.mem_cons, mem_afterComponents_iff]
  constructor
  · rintro ⟨rest, rfl | rfl | ⟨front, hfront⟩, hcovers⟩
    · exact ⟨path, .inl rfl, hcovers⟩
    · exact ⟨path, .inl rfl, coversAll_of_coversAll_nil hne hcovers _⟩
    · refine ⟨String.ofList rest, .inr ⟨String.ofList front, String.toList_inj.1 ?_⟩, ?_⟩
      · simp [hfront]
      · rwa [covers, String.toList_ofList]
  · rintro ⟨tail, rfl | ⟨directory, rfl⟩, hcovers⟩
    · exact ⟨path.toList, .inl rfl, hcovers⟩
    · exact ⟨tail.toList, .inr (.inr ⟨directory.toList, by simp⟩), hcovers⟩

/-- The patterns that the server reads keep what is documented. -/
theorem isLawful_glob : Glob.IsLawful glob where
  plain {text} hplain := by
    refine ⟨covers ⟨text.toList.map .literal⟩, ?_, fun path => ?_⟩
    · rw [glob, ofText?, pieces?_of_isPlain hplain]
      rfl
    · rw [covers, coversAll_literal_iff, String.toList_inj]
  components {pattern _} hne hpattern := by
    obtain ⟨_, hread, rfl⟩ := Option.map_eq_some_iff.1 hpattern
    obtain ⟨pieces, hpieces, rfl⟩ := Option.map_eq_some_iff.1 hread
    have hdeeper : pieces? none ("**/" ++ pattern).toList = some (.anyComponents :: pieces) := by
      have hstars : pieces? none ('*' :: '*' :: '/' :: pattern.toList) =
          (pieces? (some '/') pattern.toList).map (.anyComponents :: ·) := by
        rw [pieces?]
        rfl
      rw [pieces?_slash, hpieces] at hstars
      rw [String.toList_append]
      exact hstars
    refine ⟨covers ⟨.anyComponents :: pieces⟩, ?_, fun path => ?_⟩
    · rw [glob, ofText?, hdeeper]
      rfl
    · exact covers_anyComponents_iff (ne_nil_of_pieces? hpieces (by simpa using hne))

end Pattern

namespace Filter

variable {glob : Glob}

/-- The default filter looks after the documents whose path is `tasks.json`, or ends with it
behind a slash. -/
theorem covers_default_iff (hglob : glob.IsLawful) (uri : Uri) :
    (standard glob).covers uri = true ↔
      uri.path = "tasks.json" ∨ ∃ directory, uri.path = directory ++ "/tasks.json" := by
  have hplain : Glob.IsPlain "tasks.json" := by simp [Glob.IsPlain]
  obtain ⟨covers, hname, hself⟩ := hglob.plain hplain
  obtain ⟨deeper, hpattern, hdeeper⟩ := hglob.components (by simp) hname
  have hpatterns : (standard glob).patterns = [deeper] := by
    show ["**/" ++ "tasks.json"].filterMap glob = [deeper]
    rw [List.filterMap_cons, hpattern, List.filterMap_nil]
  have htail : (∃ tail, Path.IsTail tail uri.path ∧ covers tail = true) ↔
      Path.IsTail "tasks.json" uri.path := by
    simp only [hself, exists_eq_right]
  rw [Filter.covers, hpatterns, List.any_cons, List.any_nil, Bool.or_false, hdeeper, htail,
    Path.isTail_iff]
  simp only [String.append_assoc]
  rfl

/-- With the patterns of the server, a task file in a folder is looked after, and a directory of
that name is not. -/
theorem covers_default_iff_glob :
    (∃ uri, Uri.ofText? "file:///w/.vscode/tasks.json" = some uri ∧
      (standard Pattern.glob).covers uri = true) ∧
    ∃ uri, Uri.ofText? "file:///w/tasks.json/" = some uri ∧
      (standard Pattern.glob).covers uri = false := by
  have hfile : Uri.ofText? "file:///w/.vscode/tasks.json" =
      some ⟨"file", some "", "/w/.vscode/tasks.json", none, none⟩ := by decide +kernel
  have hdirectory : Uri.ofText? "file:///w/tasks.json/" =
      some ⟨"file", some "", "/w/tasks.json/", none, none⟩ := by decide +kernel
  refine ⟨⟨_, hfile, (covers_default_iff Pattern.isLawful_glob _).2 (.inr ⟨"/w/.vscode", rfl⟩)⟩,
    ⟨_, hdirectory, Bool.eq_false_iff.2 (mt (covers_default_iff Pattern.isLawful_glob _).1 ?_)⟩⟩
  rintro (hname | ⟨directory, hname⟩)
  · simp at hname
  · have hlast := congrArg (·.toList.getLast?) hname
    simp at hlast

end Filter

end TaskFile
