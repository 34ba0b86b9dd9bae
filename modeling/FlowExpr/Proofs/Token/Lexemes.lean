import FlowExpr.Proofs.Cursor
import FlowExpr.Proofs.Expr.Members

/-!
# Spelled tokens are read back

A token can be spelled: a name as it is, an integer in decimal digits, a string in either quote
with its backslashes and quotes escaped, a keyword or a sign in one of its spellings. With a space
between two spellings, no token takes anything of its neighbours:

* `Lexeme`, `Lexeme.spelling`, `Lexeme.kind`: what can be spelled, how, and as what it is read;
* `read_word`, `readNumber_digits`, `stringBody_escaped`: words, numbers and strings end where
  their spelling does;
* `Lexeme.read_spelling`: so a reading takes exactly the spelling;
* `lex_spellings`: the spellings of any lexemes are read back, in order.
-/

namespace FlowExpr

open Text (byteLength)

/-! ## 1. Lexemes -/

/-- The word form of a sign. -/
def Sign.word? : Sign → Option String
  | .eqEq => some "eq" | .notEq => some "ne" | .lt => some "lt" | .gt => some "gt"
  | .ltEq => some "le" | .gtEq => some "ge" | .slash => some "div" | .percent => some "mod"
  | .and => some "and" | .or => some "or" | .not => some "not" | .empty => some "empty"
  | .instanceOf => some "instanceof"
  | _ => none

/-- What can be spelled. An integer fits in 64 bits, and zeros may stand in front of its digits. -/
inductive Lexeme where
  | name (text : String) (spelled : Lexer.isWord text.toList = true)
      (free : TokenKind.keyword? text = none)
  | integer (zeros value : Nat) (fits : value ≤ 0x7fffffffffffffff)
  | string (quote : Char) (known : quote = '"' ∨ quote = '\'') (text : List Char)
  | boolean (value : Bool)
  | null
  | symbol (sign : Sign)
  | word (sign : Sign) (text : String) (known : sign.word? = some text)

namespace Lexeme

/-- A text between quotes: a backslash stands in front of a backslash and of the quote. -/
def escaped (quote : Char) (text : List Char) : List Char :=
  text.flatMap fun c => if c = '\\' ∨ c = quote then ['\\', c] else [c]

/-- How a lexeme is written. -/
def spelling : Lexeme → List Char
  | name text _ _ => text.toList
  | integer zeros value _ => List.replicate zeros '0' ++ Nat.toDigits 10 value
  | string quote _ text => quote :: (escaped quote text ++ [quote])
  | boolean value => if value then ['t', 'r', 'u', 'e'] else ['f', 'a', 'l', 's', 'e']
  | null => ['n', 'u', 'l', 'l']
  | symbol sign => sign.symbol.toList
  | word _ text _ => text.toList

/-- What a lexeme is as a token. -/
def kind : Lexeme → TokenKind
  | name text _ _ => .identifier text
  | integer _ value _ => .integer value
  | string _ _ text => .string (String.ofList text)
  | boolean value => .boolean value
  | null => .null
  | symbol sign => .sign sign
  | word sign _ _ => .sign sign

end Lexeme

/-! ## 2. Where a reading ends -/

namespace Text

/-- No letter is a blank. -/
theorem isBlank_of_isAlphabetic {c : Char} (h : isAlphabetic c = true) : isBlank c = false := by
  unfold isAlphabetic at h
  by_cases hc : isAscii c = true
  · rw [if_pos hc] at h
    exact isBlank_of_isAsciiLetter h
  · rw [if_neg hc] at h
    rw [isBlank, if_neg hc, inRanges, List.any_eq_false]
    intro r hr hin
    obtain ⟨s, hs, hin'⟩ := List.any_eq_true.mp h
    have hapart : ∀ r ∈ blankRanges, ∀ s ∈ alphabeticRanges, r.2 < s.1 ∨ s.2 < r.1 := by
      decide +kernel
    have hdisjoint := hapart r hr s hs
    simp only [Bool.and_eq_true, decide_eq_true_eq] at hin hin'
    omega

end Text

namespace Lexer

/-- Nothing follows, or a space does. -/
def Spaced : List Char → Prop
  | [] => True
  | c :: _ => c = ' '

theorem spaced_space (rest : List Char) : Spaced (' ' :: rest) := rfl

/-- Characters of a class end in front of a space. -/
theorem takeWhile_spaced {p : Char → Bool} {cs rest : List Char} (hcs : ∀ c ∈ cs, p c = true)
    (hspace : p ' ' = false) (h : Spaced rest) : (cs ++ rest).takeWhile p = cs := by
  rw [List.takeWhile_append_of_pos hcs]
  cases rest with
  | nil => simp
  | cons c rest =>
    have hc : c = ' ' := h
    rw [hc, List.takeWhile_cons_of_neg (by simp [hspace]), List.append_nil]

/-- The first characters of signs. -/
def marks : List Char :=
  ['.', ',', '*', '/', '%', '?', ':', '(', ')', '[', ']', '{', '}', '+', '-', '=', '!', '<', '>',
    '&', '|']

/-- A table has no entry for what is none of its keys. -/
theorem lookup_eq_none {β : Type} {table : List (Char × β)} {keys : List Char} {c : Char}
    (hc : c ∉ keys) (hkeys : ∀ entry ∈ table, entry.1 ∈ keys) : table.lookup c = none := by
  by_contra h
  obtain ⟨value, hvalue⟩ := Option.ne_none_iff_exists'.mp h
  exact hc (of_lookup (P := fun c _ => c ∈ keys) hvalue hkeys)

/-- A character that begins no sign begins a string, a word, a number or nothing. -/
theorem read_of_not_mark {c : Char} (hc : c ∉ marks) (offset : Nat) (cs : List Char) :
    read offset c cs =
      if c = '"' || c = '\'' then readString offset c cs
      else if isNameStart c then readWord c cs
      else if Text.isDigit c then readNumber offset (c :: cs)
      else readInvalid offset c := by
  have hsingle : single? c = none := lookup_eq_none hc (by decide)
  have hpaired : paired? c = none := lookup_eq_none hc (by decide)
  have hdoubled : doubled? c = none := lookup_eq_none hc (by decide)
  have hpoint : c ≠ '.' := fun h => hc (h ▸ List.mem_cons_self)
  unfold read
  simp only [hpoint, decide_false, Bool.false_and, Bool.false_eq_true, if_false, hsingle, hpaired,
    hdoubled]

/-- A character of a class that has no mark and no quote begins a word, a number or nothing. -/
theorem read_of_class {p : Char → Bool} (hp : ('"' :: '\'' :: marks).any p = false) {c : Char}
    (hc : p c = true) (offset : Nat) (cs : List Char) :
    read offset c cs =
      if isNameStart c then readWord c cs
      else if Text.isDigit c then readNumber offset (c :: cs)
      else readInvalid offset c := by
  have hne : ∀ d ∈ '"' :: '\'' :: marks, c ≠ d := by
    rintro d hd rfl
    exact List.any_eq_false.mp hp c hd hc
  have hmark : c ∉ marks := fun h => hne c (by simp [h]) rfl
  rw [read_of_not_mark hmark, if_neg]
  simp [hne '"' (by simp), hne '\'' (by simp)]

/-! ### Words -/

theorem isBlank_of_isNameStart {c : Char} (h : isNameStart c = true) : Text.isBlank c = false := by
  rw [isNameStart, Bool.or_eq_true, Bool.or_eq_true, beq_iff_eq, beq_iff_eq] at h
  rcases h with (h | rfl) | rfl
  · exact Text.isBlank_of_isAlphabetic h
  · rfl
  · rfl

/-- A word ends in front of a space, and is a keyword or a name. -/
theorem read_word {c : Char} {cs rest : List Char} (hc : isWord (c :: cs) = true)
    (h : Spaced rest) (offset : Nat) : read offset c (cs ++ rest) =
      ⟨(TokenKind.keyword? (String.ofList (c :: cs))).getD (.identifier (String.ofList (c :: cs))),
        cs.length, []⟩ := by
  obtain ⟨hstart, hparts⟩ := Bool.and_eq_true_iff.mp hc
  rw [read_of_class (p := isNameStart) (by decide) hstart, if_pos hstart, readWord,
    takeWhile_spaced (List.all_eq_true.mp hparts) (by decide) h]

/-! ### Numbers -/

theorem value_zeros (zeros : Nat) (digits : List Char) :
    Numeral.value (List.replicate zeros '0' ++ digits) = Numeral.value digits := by
  induction zeros with
  | zero => rfl
  | succ zeros ih => exact ih

/-- A row of digits is an integer if it fits. -/
theorem integer?_digits {digits : List Char} (hne : digits ≠ [])
    (hdigits : ∀ c ∈ digits, Text.isDigit c = true)
    (hfits : Numeral.value digits ≤ 0x7fffffffffffffff) :
    Numeral.integer? digits = some (Numeral.value digits : Int) := by
  -- a sign in front of the digits is no digit
  have hsign : ∀ sign rest, Text.isDigit sign = false → digits ≠ sign :: rest := by
    rintro sign rest hs rfl
    simp [hdigits sign List.mem_cons_self] at hs
  have hread : Numeral.digits? digits = some (Numeral.value digits) :=
    if_pos ⟨hne, List.all_eq_true.mpr hdigits⟩
  unfold Numeral.integer?
  split
  · exact absurd rfl (hsign _ _ (by decide))
  · unfold Numeral.natural?
    split
    · exact absurd rfl (hsign _ _ (by decide))
    · rw [hread]
      show ((if _ then _ else none : Option Nat) >>= _) = _
      rw [if_pos hfits]
      rfl

/-- Digits are a number, and it ends in front of a space. -/
theorem readNumber_digits {digits rest : List Char} (hne : digits ≠ [])
    (hdigits : ∀ c ∈ digits, Text.isDigit c = true)
    (hfits : Numeral.value digits ≤ 0x7fffffffffffffff) (h : Spaced rest) (offset : Nat) :
    readNumber offset (digits ++ rest) =
      ⟨.integer (Numeral.value digits), digits.length - 1, []⟩ := by
  have hfraction : fractionOf rest = [] := by
    cases rest with
    | nil => rfl
    | cons c rest =>
      have hc : c = ' ' := h
      rw [hc]
      rfl
  have hexponent : exponentOf rest = [] := by
    cases rest with
    | nil => rfl
    | cons c rest =>
      have hc : c = ' ' := h
      rw [hc]
      cases rest <;> rfl
  have htext : numberText (digits ++ rest) = ⟨digits, [], []⟩ := by
    unfold numberText
    rw [takeWhile_spaced hdigits (by decide) h]
    dsimp only
    rw [List.drop_left, hfraction, List.length_nil, List.drop_zero, hexponent]
  have hkind : NumberText.kind? ⟨digits, [], []⟩ = some (.integer (Numeral.value digits)) := by
    simp [NumberText.kind?, integer?_digits hne hdigits hfits]
  unfold readNumber
  rw [htext]
  simp [NumberText.chars, hkind]

theorem read_of_isDigit {c : Char} (hc : Text.isDigit c = true) (offset : Nat) (cs : List Char) :
    read offset c cs = readNumber offset (c :: cs) := by
  have hrange : 48 ≤ c.toNat ∧ c.toNat ≤ 57 := by
    simpa [Text.isDigit, Char.le_def, UInt32.le_iff_toNat_le] using hc
  have hname : isNameStart c = false := by
    rw [Bool.eq_false_iff]
    intro h
    rw [isNameStart, Bool.or_eq_true, Bool.or_eq_true, beq_iff_eq, beq_iff_eq] at h
    rcases h with (h | rfl) | rfl
    · have hascii : Text.isAscii c = true := decide_eq_true (by omega)
      rw [Text.isAlphabetic, if_pos hascii] at h
      have hletter : 97 ≤ c.toNat ∧ c.toNat ≤ 122 ∨ 65 ≤ c.toNat ∧ c.toNat ≤ 90 := by
        simpa [Text.isAsciiLetter, Char.le_def, UInt32.le_iff_toNat_le] using h
      omega
    · exact absurd hc (by decide)
    · exact absurd hc (by decide)
  rw [read_of_class (p := Text.isDigit) (by decide) hc, hname, if_neg Bool.false_ne_true, if_pos hc]

/-! ### Strings -/

/-- Characters that are no quote and no backslash are pushed. -/
theorem stringBody_plain {quote c : Char} (hslash : c ≠ '\\') (hquote : c ≠ quote) (offset : Nat)
    (cs : List Char) : stringBody quote offset (c :: cs) =
      (stringBody quote (offset + c.utf8Size) cs).push [c] 1 [] := by
  rw [stringBody, if_neg hquote]
  exact hslash

/-- Backslashes and quotes are read behind a backslash. -/
theorem stringBody_escape {quote c decoded : Char} (h : escape? c = some decoded) (offset : Nat)
    (cs : List Char) : stringBody quote offset ('\\' :: c :: cs) =
      (stringBody quote (offset + 1 + c.utf8Size) cs).push [decoded] 2 [] := by
  rw [stringBody, h]

/-- **An escaped text is read up to the quote behind it.** -/
theorem stringBody_escaped {quote : Char} (hquote : quote = '"' ∨ quote = '\'')
    (text rest : List Char) (offset : Nat) :
    stringBody quote offset (Lexeme.escaped quote text ++ quote :: rest) =
      ⟨text, (Lexeme.escaped quote text).length + 1, true, []⟩ := by
  induction text generalizing offset with
  | nil => rcases hquote with rfl | rfl <;> rfl
  | cons c text ih =>
    by_cases hc : c = '\\' ∨ c = quote
    · have hescape : escape? c = some c := by
        rcases hc with rfl | rfl
        · rfl
        · rcases hquote with rfl | rfl <;> rfl
      have hcons : Lexeme.escaped quote (c :: text) = '\\' :: c :: Lexeme.escaped quote text := by
        rw [Lexeme.escaped, List.flatMap_cons, if_pos hc]
        rfl
      rw [hcons, List.cons_append, List.cons_append, stringBody_escape hescape, ih]
      simp [StringBody.push]
      omega
    · have hcons : Lexeme.escaped quote (c :: text) = c :: Lexeme.escaped quote text := by
        rw [Lexeme.escaped, List.flatMap_cons, if_neg hc]
        rfl
      obtain ⟨hslash, hne⟩ := not_or.mp hc
      rw [hcons, List.cons_append, stringBody_plain hslash hne, ih]
      simp [StringBody.push]
      omega

theorem read_quoted {quote : Char} (hquote : quote = '"' ∨ quote = '\'') (text rest : List Char)
    (offset : Nat) : read offset quote (Lexeme.escaped quote text ++ quote :: rest) =
      ⟨.string (String.ofList text), (Lexeme.escaped quote text).length + 1, []⟩ := by
  have hmark : quote ∉ marks := by rcases hquote with rfl | rfl <;> decide
  rw [read_of_not_mark hmark, if_pos (by simpa using hquote), readString,
    stringBody_escaped hquote]
  rfl

/-! ### Signs -/

/-- A symbol ends in front of a space. -/
theorem read_symbol (sign : Sign) {rest : List Char} (h : Spaced rest) (offset : Nat) :
    ∃ c cs, sign.symbol.toList = c :: cs ∧ Text.isBlank c = false ∧
      read offset c (cs ++ rest) = ⟨.sign sign, cs.length, []⟩ := by
  cases rest with
  | nil => cases sign <;> exact ⟨_, _, rfl, by decide, rfl⟩
  | cons c rest =>
    obtain rfl : c = ' ' := h
    cases sign <;> exact ⟨_, _, rfl, by decide, rfl⟩

end Lexer

/-! ## 3. Lexemes are read back -/

open Lexer

/-- A word is read as what it means, and begins with no blank. -/
theorem exists_read_word (text : String) (htext : isWord text.toList = true) {kind : TokenKind}
    (hkind : (TokenKind.keyword? text).getD (.identifier text) = kind) {rest : List Char}
    (h : Spaced rest) (offset : Nat) :
    ∃ c cs, text.toList = c :: cs ∧ Text.isBlank c = false ∧
      read offset c (cs ++ rest) = ⟨kind, cs.length, []⟩ := by
  cases hsplit : text.toList with
  | nil => simp [hsplit, isWord] at htext
  | cons c cs =>
    rw [hsplit] at htext
    have hstring : String.ofList (c :: cs) = text := by rw [← hsplit, String.ofList_toList]
    have hread := read_word htext h offset
    rw [hstring, hkind] at hread
    exact ⟨c, cs, rfl, isBlank_of_isNameStart (Bool.and_eq_true_iff.mp htext).1, hread⟩

/-- **A reading takes exactly the spelling of a lexeme**, if nothing or a space follows. -/
theorem Lexeme.read_spelling (w : Lexeme) {rest : List Char} (h : Spaced rest) (offset : Nat) :
    ∃ c cs, w.spelling = c :: cs ∧ Text.isBlank c = false ∧
      read offset c (cs ++ rest) = ⟨w.kind, cs.length, []⟩ := by
  cases w with
  | name text spelled free => exact exists_read_word text spelled (by rw [free]; rfl) h offset
  | integer zeros value fits =>
    have hdigits : ∀ c ∈ List.replicate zeros '0' ++ Nat.toDigits 10 value,
        Text.isDigit c = true := by
      intro c hc
      rcases List.mem_append.mp hc with hc | hc
      · rw [List.eq_of_mem_replicate hc]
        rfl
      · exact isDigit_of_mem_toDigits hc
    have hvalue : Numeral.value (List.replicate zeros '0' ++ Nat.toDigits 10 value) = value := by
      rw [value_zeros, Numeral.value_toDigits]
    have hne : List.replicate zeros '0' ++ Nat.toDigits 10 value ≠ [] :=
      List.append_ne_nil_of_right_ne_nil _ Nat.toDigits_ne_nil
    have hread := readNumber_digits hne hdigits (hvalue.symm ▸ fits) h offset
    rw [hvalue] at hread
    show ∃ c cs, List.replicate zeros '0' ++ Nat.toDigits 10 value = c :: cs ∧ _
    generalize List.replicate zeros '0' ++ Nat.toDigits 10 value = digits at hdigits hne hread
    cases digits with
    | nil => exact absurd rfl hne
    | cons c cs =>
      have hc := hdigits c List.mem_cons_self
      refine ⟨c, cs, rfl, Text.isBlank_of_isDigit hc, ?_⟩
      rw [read_of_isDigit hc]
      exact hread
  | string quote known text =>
    refine ⟨quote, _, rfl, by rcases known with rfl | rfl <;> decide, ?_⟩
    rw [List.append_assoc, List.length_append]
    exact read_quoted known text rest offset
  | boolean value =>
    cases value with
    | false => exact exists_read_word "false" (by decide) rfl h offset
    | true => exact exists_read_word "true" (by decide) rfl h offset
  | null => exact exists_read_word "null" (by decide) rfl h offset
  | symbol sign => exact read_symbol sign h offset
  | word sign text known =>
    have hword : isWord text.toList = true ∧ TokenKind.keyword? text = some (.sign sign) := by
      cases sign <;> cases known <;> decide
    exact exists_read_word text hword.1 (by rw [hword.2]; rfl) h offset

/-- The token of a lexeme is next, and reading goes on behind it. -/
theorem lexFrom_spelling (w : Lexeme) {rest : List Char} (h : Spaced rest) (offset : Nat) :
    lexFrom 0 offset (w.spelling ++ rest) =
      (lexFrom 0 (offset + byteLength w.spelling) rest).push
        ⟨w.kind, String.ofList w.spelling, ⟨offset, offset + byteLength w.spelling⟩⟩ [] := by
  obtain ⟨c, cs, hspelling, hblank, hread⟩ := w.read_spelling h offset
  rw [hspelling, List.cons_append, lexFrom, if_neg (by simp [hblank]), hread]
  dsimp only
  rw [lexFrom_skip, List.take_left, List.drop_left, Text.byteLength_cons, Nat.add_assoc]

/-- **Spelled tokens are read back.** The spellings of any lexemes with a space between two of
    them are read without an error, as the tokens of these lexemes with their values, in order, and
    the end token. -/
theorem lex_spellings (ws : List Lexeme) (offset : Nat) :
    let lexed := lex ([' '].intercalate (ws.map Lexeme.spelling)) offset
    lexed.tokens.map Token.kind = ws.map Lexeme.kind ++ [.eof] ∧ lexed.errors = [] := by
  show (lexFrom 0 offset _).tokens.map _ = _ ∧ (lexFrom 0 offset _).errors = _
  induction ws generalizing offset with
  | nil => exact ⟨rfl, rfl⟩
  | cons w ws ih =>
    cases ws with
    | nil =>
      have hspaced : Spaced [] := trivial
      have hw := lexFrom_spelling w hspaced offset
      rw [List.append_nil] at hw
      rw [List.map_singleton, List.intercalate_singleton, hw]
      exact ⟨rfl, rfl⟩
    | cons w' ws =>
      rw [List.map_cons, List.map_cons, List.intercalate_cons_cons, List.append_assoc,
        List.singleton_append, lexFrom_spelling w (spaced_space _)]
      obtain ⟨hkinds, herrors⟩ := ih (offset + byteLength w.spelling + 1)
      exact ⟨congrArg (w.kind :: ·) hkinds, herrors⟩

/-- Signs, digits and quotes that would go together without the spaces. -/
example :
    let ws : List Lexeme := [.symbol .minus, .symbol .gt, .integer 1 0 (by decide), .symbol .dot,
      .integer 0 5 (by decide), .name "e1" (by decide) (by decide), .symbol .not, .symbol .assign,
      .string '\'' (.inr rfl) ['"', '\'', '\\', 'n'], .word .notEq "ne" rfl]
    (lex ([' '].intercalate (ws.map Lexeme.spelling)) 0).tokens.map Token.kind =
      [.sign .minus, .sign .gt, .integer 0, .sign .dot, .integer 5, .identifier "e1", .sign .not,
        .sign .assign, .string "\"'\\n", .sign .notEq, .eof] := by decide

end FlowExpr
