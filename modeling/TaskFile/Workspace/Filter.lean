import TaskFile.Uri.Basic
import TaskFile.Workspace.Config

/-!
# Filters

A filter decides by its path whether a document is looked after.  It is made of
the patterns of a configuration; those that cannot be read are left out.

What a pattern is and which paths it covers is not the filter's business: it is
given by a `Glob`.  The one that the server runs with is `Pattern.glob`.  There
a question mark stands for one character, a star for any characters, slashes
included, and brackets for one character of a set.  Two stars stand for any
number of whole path components and must be a component themselves.  All else
stands for itself.

* `Pattern.ofText?` reads a pattern; some texts are none.
* `Pattern.covers` decides whether a pattern covers a path.
* `Filter.ofConfig` is the filter of a configuration, and `Filter.standard` the
  one without a configuration.
-/

namespace TaskFile

/-- A way of reading path patterns: the paths that a text covers, if it is a
pattern. -/
abbrev Glob := String → Option (String → Bool)

namespace Pattern

/-- A member of a bracket set: the characters from one to another. -/
structure Range where
  first : Char
  last : Char
  deriving DecidableEq, Repr

/-- A part of a pattern. -/
inductive Piece
  | literal (c : Char)
  | anyChar
  | anyText
  | anyComponents
  | inside (members : List Range)
  | outside (members : List Range)
  deriving DecidableEq, Repr

end Pattern

/-- A path pattern. -/
structure Pattern where
  pieces : List Pattern.Piece
  deriving DecidableEq, Repr

namespace Pattern

/-! ## Reading -/

/-- The members of a bracket set: a hyphen between two characters makes a
range. -/
def ranges : List Char → List Range
  | first :: '-' :: last :: rest => ⟨first, last⟩ :: ranges rest
  | c :: rest => ⟨c, c⟩ :: ranges rest
  | [] => []

/-- What is between a bracket and the bracket that closes it, and what follows.
The first character is always a member. -/
def takeSet? : List Char → Option (List Char × List Char)
  | [] => none
  | first :: rest =>
    match rest.dropWhile (· != ']') with
    | [] => none
    | _ :: after => some (first :: rest.takeWhile (· != ']'), after)

theorem length_lt_of_takeSet? {cs members rest : List Char}
    (hset : takeSet? cs = some (members, rest)) : rest.length < cs.length := by
  cases cs with
  | nil => simp [takeSet?] at hset
  | cons first tail =>
    simp only [takeSet?] at hset
    split at hset
    · simp at hset
    · rename_i close after hafter
      have hle := (List.dropWhile_sublist (l := tail) (· != ']')).length_le
      simp only [hafter, List.length_cons] at hle
      simp only [Option.some.injEq, Prod.mk.injEq] at hset
      simp only [← hset.2, List.length_cons]
      omega

/-- The pieces of a pattern, when `previous` is the character before it. -/
def pieces? (previous : Option Char) : List Char → Option (List Piece)
  | [] => some []
  | '?' :: rest => (pieces? '?' rest).map (.anyChar :: ·)
  | '*' :: '*' :: rest =>
    if previous.all (· == '/') then
      match rest with
      | [] => some [.anyComponents]
      | '/' :: rest => (pieces? '/' rest).map (.anyComponents :: ·)
      | _ => none
    else none
  | '*' :: rest => (pieces? '*' rest).map (.anyText :: ·)
  | '[' :: '!' :: rest =>
    match _hset : takeSet? rest with
    | some (members, rest) => (pieces? ']' rest).map (.outside (ranges members) :: ·)
    | none => none
  | '[' :: rest =>
    match _hset : takeSet? rest with
    | some (members, rest) => (pieces? ']' rest).map (.inside (ranges members) :: ·)
    | none => none
  | c :: rest => (pieces? c rest).map (.literal c :: ·)
termination_by cs => cs.length
decreasing_by
  all_goals simp only [List.length_cons]
  · omega
  · omega
  · omega
  · have := length_lt_of_takeSet? ‹takeSet? _ = some _›
    omega
  · have := length_lt_of_takeSet? ‹takeSet? _ = some _›
    omega
  · omega

/-- The pattern that a text spells, if it is one. -/
def ofText? (text : String) : Option Pattern :=
  (pieces? none text.toList).map (⟨·⟩)

/-! ## Matching -/

/-- What may be left of a text after any characters at its front. -/
def suffixes : List Char → List (List Char)
  | [] => [[]]
  | c :: cs => (c :: cs) :: suffixes cs

/-- What may be left of a text after one or more path components at its front:
what follows a slash, and nothing. -/
def afterComponents : List Char → List (List Char)
  | [] => [[]]
  | c :: cs => if c = '/' then cs :: afterComponents cs else afterComponents cs

/-- Whether a character is one of the members of a bracket set. -/
def isMember (c : Char) (members : List Range) : Bool :=
  members.any fun range => range.first ≤ c && c ≤ range.last

namespace Piece

/-- Whether a piece stands for a single character. -/
def admits (c : Char) : Piece → Bool
  | .literal expected => c == expected
  | .anyChar => true
  | .inside members => isMember c members
  | .outside members => !isMember c members
  | .anyText | .anyComponents => false

/-- What may be left of a text after a piece at its front. -/
def leave (text : List Char) : Piece → List (List Char)
  | .anyText => suffixes text
  | .anyComponents => text :: afterComponents text
  | piece =>
    match text with
    | c :: rest => if piece.admits c then [rest] else []
    | [] => []

end Piece

/-- Whether some pieces, in order, make up a whole text. -/
def coversAll : List Piece → List Char → Bool
  | [], text => text.isEmpty
  | piece :: pieces, text => (piece.leave text).any (coversAll pieces)

/-- Whether a pattern covers a whole path. -/
def covers (pattern : Pattern) (path : String) : Bool :=
  coversAll pattern.pieces path.toList

/-- The reading of these patterns. -/
def glob : Glob := fun text => (ofText? text).map covers

end Pattern

/-! ## Filters -/

/-- The patterns of the documents that are looked after: for each of them the
paths that it covers. -/
structure Filter where
  patterns : List (String → Bool)

namespace Filter

/-- The filter of a configuration. -/
def ofConfig (config : Config) (glob : Glob := Pattern.glob) : Filter :=
  ⟨config.patterns.filterMap glob⟩

/-- The filter of the default configuration. -/
def standard (glob : Glob := Pattern.glob) : Filter := ofConfig default glob

/-- Whether a document is looked after. -/
def covers (filter : Filter) (uri : Uri) : Bool :=
  filter.patterns.any (· uri.path)

end Filter

end TaskFile
