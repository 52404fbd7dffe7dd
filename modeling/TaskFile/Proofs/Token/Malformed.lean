import TaskFile.Proofs.Token.Literal

/-!
# Malformed escapes

A string with escapes that are not well formed still stands for something.
`Escape.Resolves` is the grammar of literals (`Escape.Denotes`) taken to all texts: well
formed escapes give their units, and everything else gives the units of its characters,
backslashes that escape nothing included.

A `u` with fewer than four hexadecimal digits is where readers may differ, so what stays
of these digits is a parameter.  `Resolves id` keeps the escape as it is written.  The
reading here keeps the backslash and the `u` and drops the digits, and nothing else is
ever lost (`exists_resolves_decode`, `Token.resolves_string?_of_mem`).
-/

namespace TaskFile

open Text

namespace Escape

/-- A body and the units that it stands for, when `kept` is what stays of the digits of
a `u` escape that has fewer than four of them. -/
inductive Resolves (kept : List Char → List Char) : List Char → List Nat → Prop where
  | nil : Resolves kept [] []
  | plain {c body units} (hbackslash : c ≠ '\\') (hbody : Resolves kept body units) :
      Resolves kept (c :: body) (Utf16.encodeChar c ++ units)
  | short {letter c body units} (hletter : (letter, c) ∈ shorts)
      (hbody : Resolves kept body units) :
      Resolves kept ('\\' :: letter :: body) (Utf16.encodeChar c ++ units)
  | unicode {unit digits body units} (hdigits : IsHex unit digits)
      (hbody : Resolves kept body units) :
      Resolves kept ('\\' :: 'u' :: (digits ++ body)) (unit :: units)
  | unknown {c body units} (hunicode : c ≠ 'u') (hletter : ∀ d, (c, d) ∉ shorts)
      (hbody : Resolves kept body units) :
      Resolves kept ('\\' :: c :: body) (Utf16.encode ['\\', c] ++ units)
  | broken {digits body units} (hdigits : ∀ digit ∈ digits, isHexDigit digit = true)
      (hfew : digits.length < 4) (hend : ∀ next ∈ body.head?, isHexDigit next = false)
      (hbody : Resolves kept body units) :
      Resolves kept ('\\' :: 'u' :: (digits ++ body))
        (Utf16.encode ('\\' :: 'u' :: kept digits) ++ units)
  | trailing : Resolves kept ['\\'] (Utf16.encode ['\\'])

variable {kept : List Char → List Char} {body : List Char} {units : List Nat}

/-! ## Units of what is copied -/

theorem decodeLossy_encode (text : List Char) (units : List Nat) :
    Utf16.decodeLossy (Utf16.encode text ++ units) = text ++ Utf16.decodeLossy units := by
  induction text with
  | nil => rfl
  | cons c cs ih =>
    rw [Utf16.encode, List.flatMap_cons, List.append_assoc, Utf16.decodeLossy_encodeChar]
    exact congrArg (c :: ·) ih

/-- Where no escape of a closing surrogate stands, no unit of one is read. -/
theorem Resolves.isLow_head (hbody : Resolves kept body units) (hlow : lowSurrogate? body = none) :
    ∀ next ∈ units.head?, Utf16.isLow next = false := by
  cases hbody with
  | nil => exact nofun
  | @plain c _ units | @short _ c _ units => exact Utf16.isLow_head_encodeChar c units
  | unknown | broken | trailing =>
    simp only [Utf16.encode, List.flatMap_cons, List.append_assoc]
    exact Utf16.isLow_head_encodeChar '\\' _
  | @unicode unit digits body units hdigits =>
    intro next hnext
    obtain rfl : unit = next := Option.some.inj hnext
    rw [lowSurrogate?_unicode hdigits] at hlow
    simpa using hlow

/-! ## Digits -/

theorem mem_shorts_of_short? {letter c : Char} (hshort : short? letter = some c) :
    (letter, c) ∈ shorts := by
  unfold short? at hshort
  split at hshort
  case h_9 => contradiction
  all_goals
    obtain rfl := Option.some.inj hshort
    decide

/-- A unit is read off four digits at the front. -/
theorem exists_isHex_of_unit? {cs rest : List Char} {unit : Nat}
    (hunit : unit? cs = some (unit, rest)) : ∃ digits, cs = digits ++ rest ∧ IsHex unit digits := by
  obtain ⟨hlength, hdigits⟩ := (Lexeme.isSome_unit?_iff cs).1 (by simp [hunit])
  have hfour : 4 ≤ (cs.takeWhile isHexDigit).length := by
    rw [← List.take_append_drop 4 cs, List.takeWhile_append_of_pos hdigits, List.length_append,
      List.length_take]
    omega
  obtain ⟨unit', digits, after, rfl, hhex⟩ := exists_isHex_append hfour
  rw [unit?_append hhex] at hunit
  obtain ⟨rfl, rfl⟩ := Prod.mk.inj (Option.some.inj hunit)
  exact ⟨digits, rfl, hhex⟩

/-- Without a unit there are too few digits. -/
theorem length_takeWhile_lt_of_unit? {cs : List Char} (hunit : unit? cs = none) :
    (cs.takeWhile isHexDigit).length < 4 := by
  by_contra hfour
  obtain ⟨unit, digits, after, rfl, hhex⟩ := exists_isHex_append (Nat.not_lt.1 hfour)
  rw [unit?_append hhex] at hunit
  contradiction

theorem exists_isHex_of_lowSurrogate? {cs rest : List Char} {unit : Nat}
    (hunit : lowSurrogate? cs = some (unit, rest)) :
    ∃ digits, cs = '\\' :: 'u' :: (digits ++ rest) ∧ IsHex unit digits ∧
      Utf16.isLow unit = true := by
  unfold lowSurrogate? at hunit
  split at hunit
  · obtain ⟨hsome, hlow⟩ := Option.filter_eq_some_iff.1 hunit
    obtain ⟨digits, rfl, hhex⟩ := exists_isHex_of_unit? hsome
    exact ⟨digits, rfl, hhex, hlow⟩
  · contradiction

/-! ## Decoding -/

/-- A body is decoded to the text of its units, whatever is wrong with it.  Of a broken
`u` escape the digits are lost, and nothing else. -/
theorem exists_resolves_decode (body : List Char) :
    ∃ units, Resolves (fun _ => []) body units ∧ decode body = Utf16.decodeLossy units := by
  fun_induction decode body with
  | case1 => exact ⟨[], .nil, rfl⟩
  | case2 cs hunit ih =>
    obtain ⟨units, hbody, hdecode⟩ := ih
    have hdigits : ∀ digit ∈ cs.takeWhile isHexDigit, isHexDigit digit = true :=
      List.all_eq_true.1 List.all_takeWhile
    have hend : ∀ next ∈ (cs.dropWhile isHexDigit).head?, isHexDigit next = false := by
      intro next hnext
      have hnot := List.head?_dropWhile_not isHexDigit cs
      rwa [Option.mem_def.1 hnext] at hnot
    have hbroken := Resolves.broken hdigits (length_takeWhile_lt_of_unit? hunit) hend hbody
    rw [List.takeWhile_append_dropWhile] at hbroken
    refine ⟨_, hbroken, ?_⟩
    rw [decodeLossy_encode, hdecode]
    rfl
  | case3 cs unit rest hunit hhigh hlow ih =>
    obtain ⟨units, hbody, hdecode⟩ := ih
    obtain ⟨digits, rfl, hdigits⟩ := exists_isHex_of_unit? hunit
    refine ⟨unit :: units, .unicode hdigits hbody, ?_⟩
    rw [Utf16.decodeLossy_cons fun _ => hbody.isLow_head hlow, lone_of_isHigh hhigh, hdecode]
  | case4 cs high rest hunit hhigh low rest' hlow ih =>
    obtain ⟨units, hbody, hdecode⟩ := ih
    obtain ⟨first, rfl, hfirst⟩ := exists_isHex_of_unit? hunit
    obtain ⟨second, rfl, hsecond, hlow⟩ := exists_isHex_of_lowSurrogate? hlow
    refine ⟨high :: low :: units, .unicode hfirst (.unicode hsecond hbody), ?_⟩
    rw [Utf16.decodeLossy_pair hhigh hlow, hdecode]
  | case5 cs unit rest hunit hhigh ih =>
    obtain ⟨units, hbody, hdecode⟩ := ih
    obtain ⟨digits, rfl, hdigits⟩ := exists_isHex_of_unit? hunit
    refine ⟨unit :: units, .unicode hdigits hbody, ?_⟩
    rw [Utf16.decodeLossy_cons fun h => absurd h hhigh, hdecode]
  | case6 letter cs hunicode c hshort ih =>
    obtain ⟨units, hbody, hdecode⟩ := ih
    refine ⟨_, .short (mem_shorts_of_short? hshort) hbody, ?_⟩
    rw [Utf16.decodeLossy_encodeChar, hdecode]
  | case7 c cs hunicode hshort ih =>
    obtain ⟨units, hbody, hdecode⟩ := ih
    have hletter (d : Char) (hd : (c, d) ∈ shorts) : False := by
      rw [(short?_of_mem hd).1] at hshort
      contradiction
    refine ⟨_, .unknown hunicode hletter hbody, ?_⟩
    rw [decodeLossy_encode, hdecode]
    rfl
  | case8 c cs hunicode hescape ih =>
    obtain ⟨units, hbody, hdecode⟩ := ih
    by_cases hbackslash : c = '\\'
    · -- Nothing follows the backslash, or it would be an escape.
      subst hbackslash
      obtain rfl : cs = [] := by
        cases cs with
        | nil => rfl
        | cons d cs => exact (hescape d cs rfl rfl).elim
      refine ⟨_, .trailing, ?_⟩
      rw [← List.append_nil (Utf16.encode ['\\']), decodeLossy_encode, decode, Utf16.decodeLossy]
      rfl
    · refine ⟨_, .plain hbackslash hbody, ?_⟩
      rw [Utf16.decodeLossy_encodeChar, hdecode]

/-- What a broken `u` escape at the front stands for. -/
theorem Resolves.of_broken {digits : List Char}
    (hwhole : Resolves kept ('\\' :: 'u' :: (digits ++ body)) units)
    (hdigits : ∀ digit ∈ digits, isHexDigit digit = true) (hfew : digits.length < 4)
    (hend : ∀ next ∈ body.head?, isHexDigit next = false) :
    ∃ more, units = Utf16.encode ('\\' :: 'u' :: kept digits) ++ more ∧
      Resolves kept body more := by
  obtain ⟨hrun, hrest⟩ := takeWhile_append_rest hdigits hend
  generalize htext : '\\' :: 'u' :: (digits ++ body) = text at hwhole
  cases hwhole with
  | nil | trailing => simp at htext
  | plain hbackslash => exact absurd (List.cons.inj htext).1.symm hbackslash
  | short hletter =>
    obtain ⟨rfl, -⟩ := List.cons.inj (List.cons.inj htext).2
    exact absurd rfl (short?_of_mem hletter).2.1
  | unknown hunicode => exact absurd (List.cons.inj (List.cons.inj htext).2).1.symm hunicode
  | @unicode unit four after _ hfour =>
    obtain ⟨hlength, hhex⟩ := isHexDigit_of_isHex hfour
    rw [(List.cons.inj (List.cons.inj htext).2).2, List.takeWhile_append_of_pos hhex] at hrun
    have hsum := congrArg List.length hrun
    rw [List.length_append] at hsum
    omega
  | @broken digits' body' more hdigits' _ hend' hbody =>
    obtain ⟨hrun', hrest'⟩ := takeWhile_append_rest hdigits' hend'
    rw [(List.cons.inj (List.cons.inj htext).2).2] at hrun hrest
    obtain rfl : digits' = digits := hrun'.symm.trans hrun
    obtain rfl : body' = body := hrest'.symm.trans hrest
    exact ⟨more, rfl, hbody⟩

end Escape

/-! ## Tokens -/

namespace Token

open Escape

/-- Every string stands for the text of its body, whatever is wrong with it.  The body
ends before the closing quote if there is one, and all that is lost of it are the digits
of broken `u` escapes. -/
theorem resolves_string?_of_mem {text : List Char} {token : Token} (htoken : token ∈ ofText text)
    (hkind : token.kind = .string) :
    ∃ body units,
      (token.fault ≠ some .openString ∧ token.text = '"' :: (body ++ ['"']) ∧ IsBody body ∨
        token.fault = some .openString ∧ token.text = '"' :: body) ∧
      Resolves (fun _ => []) body units ∧
      token.string? = some (String.ofList (Utf16.decodeLossy units)) := by
  obtain ⟨c, cs, hform⟩ := (covers_ofText text).exists_form htoken
  obtain ⟨rest, hlexeme⟩ := hform.exists_stringTail hkind
  have hstring : Lexeme.IsStringAfter rest token.toLexeme := by
    rw [hlexeme]
    exact Lexeme.isStringAfter_first rest
  obtain ⟨body, hends, hbody⟩ : ∃ body,
      (token.fault ≠ some .openString ∧ token.text = '"' :: (body ++ ['"']) ∧ IsBody body ∨
        token.fault = some .openString ∧ token.text = '"' :: body) ∧ token.body = body := by
    rcases hstring.ends with ⟨body, hcloses⟩ | ⟨body, hopen⟩
    · have hfault : token.fault ≠ some .openString := by
        rw [hlexeme]
        exact hcloses.fst_stringTail.2
      have htext := (hstring.closed body hcloses).1
      refine ⟨body, .inl ⟨hfault, htext, hcloses.1⟩, ?_⟩
      simp [Lexeme.body, hfault, htext]
    · have hfault := hstring.openString_iff.2 ⟨body, hopen⟩
      have htext := hstring.unclosed body hopen
      exact ⟨body, .inr ⟨hfault, htext⟩, by simp [Lexeme.body, hfault, htext]⟩
  obtain ⟨units, hresolves, hdecode⟩ := exists_resolves_decode body
  refine ⟨body, units, hends, hresolves, ?_⟩
  rw [Lexeme.string?, if_pos hkind, hbody, hdecode]

/-- A `u` escape with two digits, one that escapes nothing and a last backslash, in a string
that is never closed. -/
theorem resolves_string?_of_mem_open :
    ∃ token ∈ ofText "\"\\u12x\\q\\".toList, token.kind = .string ∧
      token.string? = some "\\ux\\q\\" ∧ ∃ body units,
      (token.fault ≠ some .openString ∧ token.text = '"' :: (body ++ ['"']) ∧ IsBody body ∨
        token.fault = some .openString ∧ token.text = '"' :: body) ∧
      Resolves (fun _ => []) body units ∧
      token.string? = some (String.ofList (Utf16.decodeLossy units)) := by
  have htoken : (⟨⟨.string, "\"\\u12x\\q\\".toList, some .openString⟩, 0⟩ : Token) ∈
      ofText "\"\\u12x\\q\\".toList := by decide +kernel
  exact ⟨_, htoken, rfl, by decide +kernel, resolves_string?_of_mem htoken rfl⟩

/-- A broken `u` escape is not kept as it is written. -/
theorem string?_ne_of_resolves_id :
    ∃ token ∈ ofText "\"\\u12\"".toList, token.kind = .string ∧
      token.fault ≠ some .openString ∧ token.text = '"' :: ("\\u12".toList ++ ['"']) ∧
      ∀ units, Resolves id "\\u12".toList units →
        token.string? ≠ some (String.ofList (Utf16.decodeLossy units)) := by
  have htoken : (⟨⟨.string, "\"\\u12\"".toList, some .brokenUnicode⟩, 0⟩ : Token) ∈
      ofText "\"\\u12\"".toList := by decide +kernel
  refine ⟨_, htoken, rfl, by simp, rfl, fun units hunits => ?_⟩
  have hwhole : Resolves id ('\\' :: 'u' :: (['1', '2'] ++ [])) units := hunits
  have hdigits : ∀ digit ∈ ['1', '2'], isHexDigit digit = true := List.all_eq_true.1 rfl
  obtain ⟨more, rfl, hrest⟩ := hwhole.of_broken hdigits (by decide) nofun
  cases hrest
  rw [decodeLossy_encode]
  decide +kernel

end Token

end TaskFile
