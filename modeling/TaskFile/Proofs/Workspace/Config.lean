import TaskFile.Proofs.Document.Strict
import TaskFile.Workspace.Config

/-!
# Configurations read back

A configuration may be any object of strict JSON.  Its patterns are those of the only member
that is named for them, wherever this member stands and whatever escapes its key and the
patterns are written with (`load_of_isObject`).  The values of the other members do not matter.

How JSON and a record in it are read is given by a decoder, of which `Decoder.IsLawful` says what
is needed here, one fact for each kind of text and for each way in which a field can be given.
The members with other names are skipped one after the other (`Decoder.IsLawful.field?_filter`),
so that only those with the name of the patterns count.  The decoder of the server is lawful
(`Decoder.isLawful_standard`).
-/

namespace TaskFile

open Json

namespace Config

variable {decoder : Decoder} {fields : List (String × Member)}

/-! ## What decoders promise -/

/-- What is documented of reading strict JSON, and of reading a record with one field out of it,
as far as configurations need it. -/
structure Decoder.IsLawful (decoder : Decoder) : Prop where
  /-- An object whose keys spell names is read as its members in their order, with these names. -/
  object {fields : List (String × Member)} {text : List Char}
    (hobject : IsObject (fields.map (·.2)) text)
    (hnames : ∀ field ∈ fields, Escape.Spells field.1.toList field.2.key) :
    decoder.container? text =
      some (.object (fields.map fun field => (field.1, field.2.value)))
  /-- An array of strings is read as its strings, with their escapes decoded. -/
  strings {values : List String} {text : List Char} (htext : Lists values text) :
    decoder.strings? text = some values
  /-- A member that has not the name of the field is skipped, whatever its value. -/
  skips {name other : String} {read : List Char → Option (List String)} {missing : List String}
    {value : List Char} (before after : List (String × List Char)) (hother : other ≠ name) :
    decoder.field? name read missing (.object (before ++ (other, value) :: after)) =
      decoder.field? name read missing (.object (before ++ after))
  /-- A field that is not there has its default. -/
  missing (name : String) (read : List Char → Option (List String)) (missing : List String) :
    decoder.field? name read missing (.object []) = some missing
  /-- A field that is there is read from its value. -/
  once (name : String) (read : List Char → Option (List String)) (missing : List String)
    (value : List Char) :
    decoder.field? name read missing (.object [(name, value)]) = read value
  /-- A field that is there again is refused. -/
  again (name : String) (read : List Char → Option (List String)) (missing : List String)
    (first second : List Char) (rest : List (String × List Char)) :
    decoder.field? name read missing (.object ((name, first) :: (name, second) :: rest)) = none

/-- The decoder of the server keeps what is documented. -/
theorem Decoder.isLawful_standard : Decoder.standard.IsLawful where
  object := container?_of_isObject
  strings := strings?_of_lists
  skips before after hother := by
    simp [Decoder.standard, Container.field?, List.filter_append, hother]
  missing name read missing := rfl
  once name read missing value := by simp [Decoder.standard, Container.field?]
  again name read missing first second rest := by simp [Decoder.standard, Container.field?]

/-- Only the members with its name count for a field. -/
theorem Decoder.IsLawful.field?_filter (hdecoder : decoder.IsLawful) (name : String)
    (read : List Char → Option (List String)) (missing : List String)
    (before after : List (String × List Char)) :
    decoder.field? name read missing (.object (before ++ after)) =
      decoder.field? name read missing (.object (before ++ after.filter (·.1 == name))) := by
  induction after generalizing before with
  | nil => rfl
  | cons member after ih =>
    obtain ⟨other, value⟩ := member
    by_cases hname : other = name
    · rw [List.filter_cons_of_pos (by simpa using hname), List.append_cons, ih, ← List.append_cons]
    · rw [List.filter_cons_of_neg (by simpa using hname), hdecoder.skips before after hname, ih]

/-- The patterns of an object are the field that its members with their name make. -/
theorem ofText?_of_isObject (hdecoder : decoder.IsLawful) {text : List Char}
    (hobject : IsObject (fields.map (·.2)) text)
    (hnames : ∀ field ∈ fields, Escape.Spells field.1.toList field.2.key) :
    ofText? text decoder =
      (decoder.field? patternsKey decoder.strings? (default : Config).patterns (.object
        ((fields.filter (·.1 == patternsKey)).map fun field =>
          (field.1, field.2.value)))).map Config.mk := by
  have hfilter := hdecoder.field?_filter patternsKey decoder.strings? (default : Config).patterns []
    (fields.map fun field => (field.1, field.2.value))
  rw [List.nil_append, List.nil_append, List.filter_map] at hfilter
  rw [ofText?, hdecoder.object hobject hnames, Option.bind_eq_bind, Option.bind_some, hfilter,
    Option.map_eq_bind]
  rfl

/-! ## Outcomes -/

/-- What comes of the named members of a configuration: no patterns are given, or they are given
once, or more than once. -/
inductive Outcome (fields : List (String × Member)) :
    Except Failure (Option Config) → Prop where
  | none (hnone : fields.filter (·.1 == "filePatterns") = []) :
      Outcome fields (.ok (some default))
  | once {name member values} (honce : fields.filter (·.1 == "filePatterns") = [(name, member)])
      (hvalues : Lists values member.value) : Outcome fields (.ok (some ⟨values⟩))
  | again (hagain : 2 ≤ (fields.filter (·.1 == "filePatterns")).length) :
      Outcome fields (.error .malformed)

/-- The key of the patterns with an escape in it. -/
theorem spells_patternsKey :
    Escape.Spells patternsKey.toList "file\\u0050atterns".toList := by
  have hunit : Escape.IsHex 0x50 ['0', '0', '5', '0'] := ⟨rfl, rfl, rfl, rfl⟩
  have hescape : Escape.Spells ['P'] ("\\u0050".toList ++ []) :=
    .unicode (.cons hunit .nil) .nil
  have hfile : Escape.Spells "file".toList "file".toList :=
    Escape.spells_self (by simp [Text.isRawControl])
  have hatterns : Escape.Spells "atterns".toList "atterns".toList :=
    Escape.spells_self (by simp [Text.isRawControl])
  exact (hfile.append hescape).append hatterns

/-- A value with a number that is too large and with half of a surrogate pair. -/
theorem isValue_foreign : IsValue "[1e999, \x7b\"\\ud800\":null\x7d]".toList := by
  have hwhole : Numeral.IsWhole ['1'] := .digits (by decide) ⟨by decide, by simp; decide⟩
  have hexponent : Numeral.IsExponent 1 ('e' :: ([] ++ ['9', '9', '9'])) :=
    .power (.inl rfl) (.inl rfl) ⟨by decide, by simp; decide⟩
  have hnumber : IsValue ([] ++ ['1'] ++ [] ++ 'e' :: ([] ++ ['9', '9', '9'])) :=
    .number (.parts (.inl rfl) hwhole .none hexponent)
  have hunit : Escape.IsHex 0xD800 ['d', '8', '0', '0'] := ⟨rfl, rfl, rfl, rfl⟩
  have hkey : Escape.IsLiteral ("\\ud800".toList ++ []) := ⟨_, .unicode hunit .nil⟩
  have hmember : Separated Member.text [⟨"\\ud800".toList, [], [], "null".toList⟩]
      "\"\\ud800\":null".toList := .last isSpace_nil isSpace_nil
  have hobject : IsValue "\x7b\"\\ud800\":null\x7d".toList :=
    .object (by simpa using ⟨hkey, isSpace_nil, isSpace_nil⟩) (by simpa using .null) hmember
  have hitems : Separated id ["1e999".toList, "\x7b\"\\ud800\":null\x7d".toList]
      "1e999, \x7b\"\\ud800\":null\x7d".toList :=
    .more isSpace_nil isSpace_nil (by simp) (.last isSpace_blank isSpace_nil)
  exact .array (by simpa using ⟨hnumber, hobject⟩) hitems

/-- An object that lists its patterns behind a member with such a value. -/
theorem exists_isObject_listed : ∃ fields : List (String × Member),
    IsObject (fields.map (·.2)) ("\x7b\"x\": [1e999, \x7b\"\\ud800\":null\x7d], " ++
        "\"file\\u0050atterns\": [\"a\\n\"]\x7d").toList ∧
      (∀ field ∈ fields, Escape.Spells field.1.toList field.2.key) ∧
      Outcome fields (.ok (some ⟨["a\n"]⟩)) := by
  have hx : Escape.Spells "x".toList "x".toList :=
    Escape.spells_self (by simp [Text.isRawControl])
  have hletter : ('n', '\n') ∈ Escape.shorts := by decide
  have hbody : Escape.Spells "a\n".toList "a\\n".toList :=
    .plain (by decide) (by decide) rfl (.short hletter .nil)
  have hitem : IsValue "\"a\\n\"".toList := .string ⟨_, Escape.denotes_of_spells hbody⟩
  have hitems : Separated id ["\"a\\n\"".toList] "\"a\\n\"".toList :=
    .last isSpace_nil isSpace_nil
  have hvalue : IsValue "[\"a\\n\"]".toList := .array (by simpa using hitem) hitems
  have hlists : Lists ["a\n"] "[\"a\\n\"]".toList :=
    ⟨[("a\n", "a\\n".toList)], "\"a\\n\"".toList, by decide, rfl, by simpa using hbody,
      .last isSpace_nil isSpace_nil⟩
  let other : Member := ⟨"x".toList, [], [' '], "[1e999, \x7b\"\\ud800\":null\x7d]".toList⟩
  let listed : Member := ⟨"file\\u0050atterns".toList, [], [' '], "[\"a\\n\"]".toList⟩
  have honce : [("x", other), (patternsKey, listed)].filter (·.1 == "filePatterns") =
      [(patternsKey, listed)] := rfl
  refine ⟨[("x", other), (patternsKey, listed)], ⟨?keys, ?values, ?text⟩, ?names,
    .once honce hlists⟩
  case keys =>
    simpa using ⟨⟨⟨_, Escape.denotes_of_spells hx⟩, isSpace_nil, isSpace_blank⟩,
      ⟨_, Escape.denotes_of_spells spells_patternsKey⟩, isSpace_nil, isSpace_blank⟩
  case values => simpa using ⟨isValue_foreign, hvalue⟩
  case text =>
    exact ⟨[], _, [], rfl, isSpace_nil,
      .more isSpace_nil isSpace_nil (by simp) (.last isSpace_blank isSpace_nil), isSpace_nil⟩
  case names => simpa using ⟨hx, spells_patternsKey⟩

/-- An object that gives its patterns twice. -/
theorem exists_isObject_again : ∃ fields : List (String × Member),
    IsObject (fields.map (·.2))
        "\x7b\"filePatterns\":null,\"file\\u0050atterns\":null\x7d".toList ∧
      (∀ field ∈ fields, Escape.Spells field.1.toList field.2.key) ∧
      Outcome fields (.error .malformed) := by
  have hplain : Escape.Spells patternsKey.toList "filePatterns".toList :=
    Escape.spells_self (by simp [patternsKey, Text.isRawControl])
  let first : Member := ⟨"filePatterns".toList, [], [], "null".toList⟩
  let second : Member := ⟨"file\\u0050atterns".toList, [], [], "null".toList⟩
  refine ⟨[(patternsKey, first), (patternsKey, second)], ⟨?keys, ?values, ?text⟩, ?names,
    .again (Nat.le_refl 2)⟩
  case keys =>
    simpa using ⟨⟨⟨_, Escape.denotes_of_spells hplain⟩, isSpace_nil, isSpace_nil⟩,
      ⟨_, Escape.denotes_of_spells spells_patternsKey⟩, isSpace_nil, isSpace_nil⟩
  case values => simpa using ⟨IsValue.null, IsValue.null⟩
  case text =>
    exact ⟨[], _, [], rfl, isSpace_nil,
      .more isSpace_nil isSpace_nil (by simp) (.last isSpace_nil isSpace_nil), isSpace_nil⟩
  case names => simpa using ⟨hplain, spells_patternsKey⟩

/-! ## Configurations -/

/-- What is loaded from a stored text. -/
theorem load_content (text : String) (decoder : Decoder) :
    load (.content text.toByteArray) decoder =
      (ofText? text.toList decoder).elim (.error .malformed) fun config => .ok (some config) := by
  have hback : String.fromUTF8? text.toByteArray = some text := dif_pos text.isValidUTF8
  simp only [load, hback]
  cases ofText? text.toList decoder <;> rfl

/-- **Configurations are read back.**  From the text of an object the patterns are loaded that
its only member with their name lists.  Without such a member the configuration is the default
one, and with several members it is malformed, whatever their values. -/
theorem load_of_isObject (hdecoder : decoder.IsLawful) {text : String}
    {outcome : Except Failure (Option Config)} (hobject : IsObject (fields.map (·.2)) text.toList)
    (hnames : ∀ field ∈ fields, Escape.Spells field.1.toList field.2.key)
    (houtcome : Outcome fields outcome) :
    load (.content text.toByteArray) decoder = outcome := by
  rw [load_content, ofText?_of_isObject hdecoder hobject hnames]
  -- The members that are left all have the name of the patterns.
  have hname : ∀ field ∈ fields.filter (·.1 == patternsKey), field.1 = patternsKey :=
    fun field hfield => by simpa using (List.mem_filter.1 hfield).2
  cases houtcome with
  | none hnone =>
    rw [patternsKey, hnone, List.map_nil, hdecoder.missing]
    rfl
  | once honce hvalues =>
    rw [patternsKey, honce] at hname ⊢
    rw [List.map_singleton, hname _ (List.mem_singleton_self _), hdecoder.once,
      hdecoder.strings hvalues]
    rfl
  | again hagain =>
    rw [← patternsKey] at hagain
    rcases hfilter : fields.filter (·.1 == patternsKey) with _ | ⟨first, _ | ⟨second, rest⟩⟩
    · simp [hfilter] at hagain
    · simp [hfilter] at hagain
    · rw [hfilter] at hname ⊢
      rw [List.map_cons, List.map_cons, hname first (by simp), hname second (by simp),
        hdecoder.again]
      rfl

/-- The patterns are listed behind another member, there is no member, and the patterns are given
twice. -/
theorem load_of_isObject_escaped :
    load (.content ("\x7b\"x\": [1e999, \x7b\"\\ud800\":null\x7d], " ++
        "\"file\\u0050atterns\": [\"a\\n\"]\x7d").toByteArray) .standard =
        .ok (some ⟨["a\n"]⟩) ∧
      load (.content "\x7b \x7d".toByteArray) .standard = .ok (some default) ∧
      load (.content "\x7b\"filePatterns\":null,\"file\\u0050atterns\":null\x7d".toByteArray)
        .standard = .error .malformed := by
  refine ⟨?listed, ?absent, ?again⟩
  case listed =>
    obtain ⟨fields, hobject, hnames, houtcome⟩ := exists_isObject_listed
    exact load_of_isObject Decoder.isLawful_standard hobject hnames houtcome
  case absent =>
    have hobject : IsObject (([] : List (String × Member)).map (·.2)) "\x7b \x7d".toList :=
      ⟨nofun, nofun, [], [' '], [], rfl, isSpace_nil, .none isSpace_blank, isSpace_nil⟩
    exact load_of_isObject Decoder.isLawful_standard hobject nofun (.none rfl)
  case again =>
    obtain ⟨fields, hobject, hnames, houtcome⟩ := exists_isObject_again
    exact load_of_isObject Decoder.isLawful_standard hobject hnames houtcome

end Config

end TaskFile
