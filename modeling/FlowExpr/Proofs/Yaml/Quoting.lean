import FlowExpr.Proofs.Yaml.Decoding
import FlowExpr.Proofs.Yaml.Entry
import Mathlib.Data.List.Forall2
import Mathlib.Tactic.Ring

/-!
# Quoting is undone

A text is written between quotes character by character, and in many ways: between double quotes
every character can be escaped, with its own letter or with its number. Whichever way is taken for
each character, what is written is read back, and every character comes from the place where its
own spelling begins:

* `Writing.DoubleSpelling`, `Writing.SingleSpelling`: how a character can be written;
* `Yaml.Undone quote spelling`: such spellings have no line break, do not close the scalar, and a
  step of decoding takes exactly one of them;
* `Yaml.undone_double`, `Yaml.undone_single`: both kinds of quotes are of this sort;
* `Yaml.Undone.walk`: so decoding gives the characters back, one for each spelling, and
  `Yaml.Undone.quotedLength?`: the scalar closes with the quote after the last spelling.
-/

namespace FlowExpr

open Text (byteLength byteLength_append byteLength_cons)
open Embedded (offsetOf)
open Yaml

/-! ## 1. Spellings -/

namespace Writing

/-- The characters that have an escape of one letter, and the letter. -/
def shortEscapes : List (Char × Char) :=
  [('\x00', '0'), ('\x07', 'a'), ('\x08', 'b'), ('\t', 't'), ('\t', '\t'), ('\n', 'n'),
   ('\x0b', 'v'), ('\x0c', 'f'), ('\r', 'r'), ('\x1b', 'e'), (' ', ' '), ('"', '"'), ('/', '/'),
   ('\\', '\\'), ('\u0085', 'N'), ('\u00a0', '_'), ('\u2028', 'L'), ('\u2029', 'P')]

/-- The letters of escapes by number, and how many digits the number has. -/
def codeMarks : List (Char × Nat) := [('x', 2), ('u', 4), ('U', 8)]

/-- The last digits of a number in base sixteen, the highest first. -/
def hexDigits : Nat → Nat → List Nat
  | 0, _ => []
  | width + 1, n => n / 16 ^ width % 16 :: hexDigits width n

/-- The two forms of a digit. -/
def hexForms (digit : Nat) : List Char :=
  ['0', '1', '2', '3', '4', '5', '6', '7', '8', '9', 'a', 'b', 'c', 'd', 'e', 'f'][digit]?.toList ++
    ['0', '1', '2', '3', '4', '5', '6', '7', '8', '9', 'A', 'B', 'C', 'D', 'E', 'F'][digit]?.toList

/-- How a character can be written between double quotes: as it is, unless it is a backslash, a
    quote or a line break; with the letter of its escape; or by its number, if that has enough
    digits. -/
inductive DoubleSpelling (c : Char) : List Char → Prop where
  | self (hslash : c ≠ '\\') (hquote : c ≠ '"') (hline : isLineEnd c = false) :
      DoubleSpelling c [c]
  | short {letter : Char} (h : (c, letter) ∈ shortEscapes) : DoubleSpelling c ['\\', letter]
  | code {mark : Char} {width : Nat} {digits : List Char} (hmark : (mark, width) ∈ codeMarks)
      (hwidth : c.toNat < 16 ^ width)
      (hdigits : List.Forall₂ (fun digit d => d ∈ hexForms digit) (hexDigits width c.toNat)
        digits) :
      DoubleSpelling c ('\\' :: mark :: digits)

/-- A character between single quotes: the quote is doubled. -/
def singleEscape (c : Char) : List Char := if c = '\'' then ['\'', '\''] else [c]

/-- How a character that is no line break is written between single quotes. -/
def SingleSpelling (c : Char) (spelling : List Char) : Prop :=
  isLineEnd c = false ∧ spelling = singleEscape c

end Writing

open Writing

namespace Yaml

/-! ## 2. Numbers of characters -/

theorem length_hexDigits (width n : Nat) : (hexDigits width n).length = width := by
  induction width with
  | zero => rfl
  | succ width ih => rw [hexDigits, List.length_cons, ih]

theorem hexValue?_of_mem_hexForms {digit : Nat} (hdigit : digit < 16) {d : Char}
    (h : d ∈ hexForms digit) : hexValue? d = some digit := by
  have hall : ∀ digit < 16, (hexForms digit).all (fun d => hexValue? d == some digit) = true := by
    decide
  exact beq_iff_eq.mp (List.all_eq_true.mp (hall digit hdigit) d h)

/-- Digits are read after the value that was read before them. -/
theorem foldlM_hexDigits {width n : Nat} {digits : List Char}
    (h : List.Forall₂ (fun digit d => d ∈ hexForms digit) (hexDigits width n) digits)
    (value : Nat) :
    digits.foldlM (fun value c => (hexValue? c).map (value * 16 + ·)) value =
      some (value * 16 ^ width + n % 16 ^ width) := by
  induction width generalizing digits value with
  | zero =>
    cases h
    simp [Nat.mod_one]
  | succ width ih =>
    cases h with
    | @cons digit d rest digits hd hrest =>
      have hdigit := hexValue?_of_mem_hexForms (Nat.mod_lt _ (by decide)) hd
      have hvalue : (value * 16 + n / 16 ^ width % 16) * 16 ^ width + n % 16 ^ width =
          value * 16 ^ (width + 1) + n % 16 ^ (width + 1) := by
        rw [Nat.mod_pow_succ, Nat.pow_succ]
        ring
      simp only [List.foldlM_cons, hdigit, Option.map_some, Option.bind_eq_bind,
        Option.bind_some, ih hrest, hvalue]

/-- **A number that is written with enough digits is read back.** -/
theorem hexNumber?_hexDigits {width n : Nat} (hn : n < 16 ^ width) {digits : List Char}
    (h : List.Forall₂ (fun digit d => d ∈ hexForms digit) (hexDigits width n) digits) :
    hexNumber? digits = some n := by
  rw [hexNumber?, foldlM_hexDigits h, Nat.zero_mul, Nat.zero_add, Nat.mod_eq_of_lt hn]

theorem charOf?_toNat (c : Char) : charOf? c.toNat = some c := by
  have hvalid : c.toNat.isValidChar := c.valid
  unfold charOf?
  rw [dif_pos hvalid]
  rfl

/-- The digits of a number are neither quotes nor backslashes nor line breaks. -/
theorem not_mem_of_hexForms {width n : Nat} {digits : List Char}
    (h : List.Forall₂ (fun digit d => d ∈ hexForms digit) (hexDigits width n) digits) :
    ∀ d ∈ digits, d ∉ ['"', '\\', '\n', '\r'] := by
  have hall : ∀ digit < 16,
      (hexForms digit).all (fun d => !(['"', '\\', '\n', '\r'].contains d)) = true := by decide
  have hforms : ∀ digit < 16, ∀ d ∈ hexForms digit, d ∉ ['"', '\\', '\n', '\r'] :=
    fun digit hdigit d hd => by simpa using List.all_eq_true.mp (hall digit hdigit) d hd
  induction width generalizing digits with
  | zero =>
    cases h
    exact fun d hd => absurd hd List.not_mem_nil
  | succ width ih =>
    cases h with
    | cons hd hrest =>
      exact List.forall_mem_cons.mpr ⟨hforms _ (Nat.mod_lt _ (by decide)) _ hd, ih hrest⟩

/-- A number is an escape of the character that has it. -/
theorem escape?_code {c mark : Char} {width : Nat} {digits : List Char}
    (hmark : (mark, width) ∈ codeMarks) (hwidth : c.toNat < 16 ^ width)
    (hdigits : List.Forall₂ (fun digit d => d ∈ hexForms digit) (hexDigits width c.toNat) digits)
    (rest : List Char) : escape? mark (digits ++ rest) = some (c, width + 1) := by
  have hlength : digits.length = width := by
    rw [← hdigits.length_eq, length_hexDigits]
  have hmarks : ∀ entry ∈ codeMarks,
      simpleEscapes.lookup entry.1 = none ∧ hexWidth? entry.1 = some entry.2 := by decide
  obtain ⟨hsimple, hcode⟩ := hmarks _ hmark
  have htake : (digits ++ rest).take width = digits := by rw [← hlength, List.take_left]
  simp only [escape?, hsimple, hcode, Option.bind_eq_bind, Option.bind_some, htake, hlength,
    if_true, hexNumber?_hexDigits hwidth hdigits, charOf?_toNat]
  rfl

/-! ## 3. One spelling -/

/-- A step that takes the rest of a spelling gives its one piece. -/
theorem walk_spelling {step : Nat → Char → List Char → List Piece × Nat} {offset : Nat} {c : Char}
    {front rest : List Char} {piece : Piece}
    (h : step offset c (front ++ rest) = ([piece], front.length)) :
    Text.walk step 0 offset (c :: (front ++ rest)) =
      piece :: Text.walk step 0 (offset + byteLength (c :: front)) rest := by
  rw [Text.walk, h, Text.walk_skip, List.take_left, List.drop_left, byteLength_cons,
    Nat.add_assoc]
  rfl

theorem gapBeforeBreak_eq_false {cs : List Char} (h : ∀ c ∈ cs, isLineEnd c = false) :
    gapBeforeBreak cs = false := by
  unfold gapBeforeBreak
  cases hd : cs.dropWhile isGap with
  | nil => rfl
  | cons c rest =>
    have hmem : c ∈ cs := by
      have hc : c ∈ cs.dropWhile isGap := by
        rw [hd]
        exact List.mem_cons_self
      exact (List.dropWhile_suffix isGap).subset hc
    show isLineEnd c = false
    exact h c hmem

/-- The spellings of characters between two such quotes have no line break, do not close the
    scalar, and each is taken by one step of decoding. -/
structure Undone (quote : Char) (spelling : Char → List Char → Prop) : Prop where
  line {c : Char} {sp : List Char} (h : spelling c sp) : ∀ d ∈ sp, isLineEnd d = false
  open_ {c : Char} {sp : List Char} (h : spelling c sp) (rest : List Char) :
    quotedLength? quote (sp ++ rest) = (quotedLength? quote rest).map (· + sp.length)
  step {c : Char} {sp : List Char} (h : spelling c sp) (offset : Nat) {rest : List Char}
    (hrest : ∀ d ∈ rest, isLineEnd d = false) :
    ∃ piece : Piece, piece.char = c ∧ piece.source = offset ∧
      Text.walk (styleOf quote).step 0 offset (sp ++ rest) =
        piece :: Text.walk (styleOf quote).step 0 (offset + byteLength sp) rest

/-! ### Double quotes -/

/-- The first quote that no backslash takes is the closing one. -/
theorem doubleQuotedLength?_plain {front : List Char} (h : ∀ c ∈ front, c ≠ '\\' ∧ c ≠ '"')
    (rest : List Char) : doubleQuotedLength? (front ++ rest) =
      (doubleQuotedLength? rest).map (· + front.length) := by
  induction front with
  | nil => simp
  | cons c front ih =>
    obtain ⟨⟨hslash, hquote⟩, hfront⟩ := List.forall_mem_cons.mp h
    rw [List.cons_append, doubleQuotedLength?, if_neg hquote, ih hfront, Option.map_map]
    · rfl
    · exact hslash

theorem doubleQuotedLength?_escape (c : Char) {front : List Char}
    (h : ∀ c ∈ front, c ≠ '\\' ∧ c ≠ '"') (rest : List Char) :
    doubleQuotedLength? ('\\' :: c :: front ++ rest) =
      (doubleQuotedLength? rest).map (· + ('\\' :: c :: front).length) := by
  rw [List.cons_append, List.cons_append, doubleQuotedLength?, doubleQuotedLength?_plain h,
    Option.map_map]
  rfl

/-- An escape is undone. -/
theorem doubleStep_escape {offset : Nat} {c decoded : Char} {cs : List Char} {length : Nat}
    (hc : isLineEnd c = false) (h : Yaml.escape? c cs = some (decoded, length)) :
    doubleStep offset '\\' (c :: cs) = ([⟨decoded, offset, false⟩], length) := by
  unfold doubleStep
  rw [if_pos rfl]
  dsimp only
  rw [hc, h]
  rfl

/-- **Whatever a character is written as between double quotes, it is read back.** -/
theorem undone_double : Undone '"' DoubleSpelling where
  line := by
    intro c sp h
    cases h with
    | self _ _ hline => simpa using hline
    | @short letter h =>
      have hall : ∀ entry ∈ shortEscapes, isLineEnd entry.2 = false := by decide
      simpa [isLineEnd] using hall _ h
    | @code mark width digits hmark _ hdigits =>
      have hmarks : ∀ entry ∈ codeMarks, isLineEnd entry.1 = false := by decide
      refine List.forall_mem_cons.mpr ⟨rfl, List.forall_mem_cons.mpr ⟨hmarks _ hmark, ?_⟩⟩
      intro d hd
      have hnot := not_mem_of_hexForms hdigits d hd
      simp only [List.mem_cons, not_or] at hnot
      simp [isLineEnd, hnot]
  open_ := by
    intro c sp h rest
    show doubleQuotedLength? (sp ++ rest) = (doubleQuotedLength? rest).map (· + sp.length)
    cases h with
    | self hslash hquote _ => exact doubleQuotedLength?_plain (by simp [hslash, hquote]) rest
    | short _ => exact doubleQuotedLength?_escape _ (by simp) rest
    | code _ _ hdigits =>
      refine doubleQuotedLength?_escape _ (fun d hd => ?_) rest
      have hnot := not_mem_of_hexForms hdigits d hd
      simp only [List.mem_cons, not_or] at hnot
      exact ⟨hnot.2.1, hnot.1⟩
  step := by
    intro c sp h offset rest hrest
    show ∃ piece : Piece, piece.char = c ∧ piece.source = offset ∧
      Text.walk doubleStep 0 offset (sp ++ rest) = _
    cases h with
    | self hslash _ hline =>
      have hstep : doubleStep offset c ([] ++ rest) = ([⟨c, offset, true⟩], 0) := by
        unfold doubleStep
        rw [if_neg hslash, hline, List.nil_append, gapBeforeBreak_eq_false hrest, Bool.and_false]
        rfl
      exact ⟨_, rfl, rfl, walk_spelling hstep⟩
    | @short letter h =>
      have hall : ∀ entry ∈ shortEscapes, isLineEnd entry.2 = false ∧
          simpleEscapes.lookup entry.2 = some entry.1 := by decide
      obtain ⟨hline, hlookup⟩ := hall _ h
      have hescape : Yaml.escape? letter rest = some (c, 1) := by
        unfold Yaml.escape?
        rw [hlookup]
      have hstep : doubleStep offset '\\' ([letter] ++ rest) = ([⟨c, offset, false⟩], 1) :=
        doubleStep_escape hline hescape
      exact ⟨_, rfl, rfl, walk_spelling hstep⟩
    | @code mark width digits hmark hwidth hdigits =>
      have hmarks : ∀ entry ∈ codeMarks, isLineEnd entry.1 = false := by decide
      have hstep : doubleStep offset '\\' (mark :: digits ++ rest) =
          ([⟨c, offset, false⟩], (mark :: digits).length) := by
        rw [List.length_cons, ← hdigits.length_eq, length_hexDigits]
        exact doubleStep_escape (hmarks _ hmark) (escape?_code hmark hwidth hdigits rest)
      exact ⟨_, rfl, rfl, walk_spelling hstep⟩

/-! ### Single quotes -/

/-- A quote that is not doubled closes the scalar. -/
theorem singleQuotedLength?_close {rest : List Char} (h : rest.head? ≠ some '\'') :
    singleQuotedLength? ('\'' :: rest) = some 0 := by
  rw [singleQuotedLength?, if_pos rfl]
  intro rest' _ hrest
  rw [hrest] at h
  exact h rfl

theorem singleQuotedLength?_escape (c : Char) (rest : List Char) :
    singleQuotedLength? (singleEscape c ++ rest) =
      (singleQuotedLength? rest).map (· + (singleEscape c).length) := by
  unfold singleEscape
  by_cases hq : c = '\''
  · rw [if_pos hq, List.cons_append, List.singleton_append, singleQuotedLength?]
    rfl
  · rw [if_neg hq, List.singleton_append, singleQuotedLength?, if_neg hq]
    · rfl
    · exact fun _ hc _ => hq hc

/-- **What a character is written as between single quotes is read back.** -/
theorem undone_single : Undone '\'' SingleSpelling where
  line := by
    intro c sp ⟨hline, hsp⟩
    subst hsp
    unfold singleEscape
    by_cases hq : c = '\''
    · rw [if_pos hq]
      simp [isLineEnd]
    · rw [if_neg hq]
      simpa using hline
  open_ := by
    intro c sp ⟨_, hsp⟩ rest
    subst hsp
    exact singleQuotedLength?_escape c rest
  step := by
    intro c sp ⟨hline, hsp⟩ offset rest hrest
    subst hsp
    show ∃ piece : Piece, piece.char = c ∧ piece.source = offset ∧
      Text.walk singleStep 0 offset (singleEscape c ++ rest) = _
    unfold singleEscape
    by_cases hq : c = '\''
    · rw [if_pos hq, hq]
      have hstep : singleStep offset '\'' (['\''] ++ rest) = ([⟨'\'', offset, false⟩], 1) := rfl
      exact ⟨_, rfl, rfl, walk_spelling hstep⟩
    · rw [if_neg hq]
      have hstep : singleStep offset c ([] ++ rest) = ([⟨c, offset, true⟩], 0) := by
        unfold singleStep
        rw [if_neg fun hand => hq hand.1, hline, List.nil_append, gapBeforeBreak_eq_false hrest,
          Bool.and_false]
        rfl
      exact ⟨_, rfl, rfl, walk_spelling hstep⟩

/-! ## 4. Texts -/

namespace Undone

variable {quote : Char} {spelling : Char → List Char → Prop} {cs : List Char}
  {spellings : List (List Char)}

/-- No line break is written. -/
theorem lines (hq : Undone quote spelling) (h : List.Forall₂ spelling cs spellings) :
    ∀ d ∈ spellings.flatten, isLineEnd d = false := by
  induction h with
  | nil => exact fun d hd => absurd hd List.not_mem_nil
  | @cons c sp cs spellings hsp _ ih =>
    intro d hd
    rw [List.flatten_cons, List.mem_append] at hd
    exact hd.elim (hq.line hsp d) (ih d)

/-- **The scalar closes with the quote after its spellings.** -/
theorem quotedLength? (hq : Undone quote spelling) (h : List.Forall₂ spelling cs spellings)
    {rest : List Char} (hclose : Yaml.quotedLength? quote rest = some 0) :
    Yaml.quotedLength? quote (spellings.flatten ++ rest) = some spellings.flatten.length := by
  induction h with
  | nil => exact hclose
  | @cons c sp cs spellings hsp _ ih =>
    rw [List.flatten_cons, List.append_assoc, hq.open_ hsp, ih, Option.map_some,
      List.length_append, Nat.add_comm]

/-- **Decoding gives the characters back**, and each comes from the place where its spelling
    begins. -/
theorem walk (hq : Undone quote spelling) (h : List.Forall₂ spelling cs spellings)
    (offset : Nat) :
    (Text.walk (styleOf quote).step 0 offset spellings.flatten).map Piece.char = cs ∧
      ∀ i, offsetOf (offset + byteLength spellings.flatten)
        ((Text.walk (styleOf quote).step 0 offset spellings.flatten).drop i) =
          offset + byteLength (spellings.take i).flatten := by
  induction h generalizing offset with
  | nil => exact ⟨rfl, fun i => by simp [Text.walk, offsetOf]⟩
  | @cons c sp cs spellings hsp h ih =>
    obtain ⟨piece, hchar, hsource, hwalk⟩ := hq.step hsp offset (hq.lines h)
    obtain ⟨hchars, hplaces⟩ := ih (offset + byteLength sp)
    rw [List.flatten_cons, hwalk, List.map_cons, hchar, hchars]
    refine ⟨rfl, fun i => ?_⟩
    cases i with
    | zero => exact hsource
    | succ i =>
      rw [byteLength_append, ← Nat.add_assoc, List.drop_succ_cons, hplaces i,
        List.take_succ_cons, List.flatten_cons, byteLength_append, Nat.add_assoc]

end Undone

/-! ## 5. Documents -/

/-- The document that has the spellings between two quotes as the value of a key has two scalars,
    the key and this one. It says the characters; each of them comes from the place in the
    document where its spelling begins, and the end of the text is at the closing quote. -/
def Unquotes (quote : Char) (key tail cs : List Char) (spellings : List (List Char)) : Prop :=
  ∃ scalar, scalars (entry key (quote :: (spellings.flatten ++ [quote] ++ tail))) =
      [⟨.plain, 0, key⟩, scalar] ∧ scalar.style = styleOf quote ∧ scalar.decode.chars = cs ∧
    scalar.decode.offsets.length = byteLength cs + 1 ∧
    ∀ i ≤ cs.length, scalar.decode.offsets[byteLength (cs.take i)]? =
      some (byteLength (entry key (quote :: (spellings.take i).flatten)))

theorem Undone.unquotes {quote : Char} {spelling : Char → List Char → Prop}
    (hq : Undone quote spelling) (hquote : quote = '"' ∨ quote = '\'') {key tail : List Char}
    (hclose : Yaml.quotedLength? quote (quote :: tail) = some 0) (hkey : IsKey key)
    (htail : EndsDocument tail) {cs : List Char} {spellings : List (List Char)}
    (h : List.Forall₂ spelling cs spellings) : Unquotes quote key tail cs spellings := by
  have hfeed : '\n' ∉ spellings.flatten := fun hmem => absurd (hq.lines h _ hmem) (by decide)
  have hscan : ∀ before line, scanFrom 0 ⟨0, true, before, line⟩ (byteLength key + 2)
      (quote :: (spellings.flatten ++ [quote] ++ tail)) =
        [⟨styleOf quote, byteLength key + 2 + 1, spellings.flatten⟩] :=
    fun _ _ => scanFrom_quoted hquote (hq.quotedLength? h hclose) hfeed htail
  obtain ⟨hchars, hplaces⟩ := hq.walk h (byteLength key + 2 + 1)
  refine ⟨⟨styleOf quote, byteLength key + 2 + 1, spellings.flatten⟩, ?_, rfl, ?_, ?_, ?_⟩
  · rw [scalars_entry hkey, hscan]
  · show (Scalar.pieces _).map Piece.char = cs
    rw [Scalar.pieces_eq_walk]
    exact hchars
  · show ((Scalar.pieces _).flatMap Piece.offsets ++ [_]).length = _
    rw [Scalar.pieces_eq_walk, List.length_append, length_flatMap_offsets, hchars]
    rfl
  · intro i _
    have hplace : byteLength (entry key (quote :: (spellings.take i).flatten)) =
        byteLength key + 2 + 1 + byteLength (spellings.take i).flatten := by
      have hsize : quote.utf8Size = 1 := by
        rcases hquote with rfl | rfl <;> rfl
      have hmarks : (':'.utf8Size, ' '.utf8Size) = (1, 1) := rfl
      obtain ⟨hcolon, hspace⟩ := Prod.mk.inj hmarks
      rw [entry, byteLength_append, byteLength_cons, byteLength_cons, byteLength_cons, hsize,
        hcolon, hspace]
      omega
    have hoffset := getElem?_offsets
      ((Text.walk (styleOf quote).step 0 (byteLength key + 2 + 1) spellings.flatten).take i)
      ((Text.walk (styleOf quote).step 0 (byteLength key + 2 + 1) spellings.flatten).drop i)
      (byteLength key + 2 + 1 + byteLength spellings.flatten)
    rw [List.take_append_drop, List.map_take, hchars, hplaces i] at hoffset
    show ((Scalar.pieces _).flatMap Piece.offsets ++ [_])[_]? = _
    rw [Scalar.pieces_eq_walk, hplace]
    exact hoffset

/-- **Quoting is undone.** A text whose characters are each written in any way that double quotes
    allow, or one without line breaks whose single quotes are doubled, is the value of its key
    again: the document has the key and one quoted scalar, which says the text, each character
    from where it is written. -/
theorem scalars_unquote {key tail cs : List Char} (hkey : IsKey key) (htail : EndsDocument tail) :
    (∀ spellings, List.Forall₂ DoubleSpelling cs spellings →
      Unquotes '"' key tail cs spellings) ∧
    ((∀ c ∈ cs, isLineEnd c = false) →
      Unquotes '\'' key tail cs (cs.map singleEscape)) := by
  constructor
  · exact fun spellings h => undone_double.unquotes (.inl rfl) rfl hkey htail h
  · intro hline
    have hend : tail.head? ≠ some '\'' := by
      rcases htail with rfl | rfl <;> decide
    exact undone_single.unquotes (.inr rfl) (singleQuotedLength?_close hend) hkey htail
      (List.forall₂_map_right_iff.mpr (List.forall₂_same.mpr fun c hc => ⟨hline c hc, rfl⟩))

/-- An accent by its number with a large digit, a blank as it is, a line feed by its letter, a
    quote by its number and a smiley by the longest one; and a doubled quote: the blank before the
    escaped line feed stays. -/
theorem scalars_unquote_mixed :
    let cs := ['é', ' ', '\n', '"', '😀']
    let spellings := [['\\', 'x', 'E', '9'], [' '], ['\\', 'n'], ['\\', 'u', '0', '0', '2', '2'],
      ['\\', 'U', '0', '0', '0', '1', 'f', '6', '0', '0']]
    IsKey ['k'] ∧ EndsDocument ['\n'] ∧ List.Forall₂ DoubleSpelling cs spellings ∧
      Unquotes '"' ['k'] ['\n'] cs spellings ∧
      (∀ c ∈ ['i', 't', '\'', 's'], isLineEnd c = false) ∧
      Unquotes '\'' ['k'] ['\n'] ['i', 't', '\'', 's'] [['i'], ['t'], ['\'', '\''], ['s']] := by
  intro cs spellings
  have hkey : IsKey ['k'] := ⟨by decide, by simp [Text.isAsciiLetter]⟩
  have htail : EndsDocument ['\n'] := .inr rfl
  have hspelled : List.Forall₂ DoubleSpelling cs spellings := by
    refine .cons (.code (by decide : ('x', 2) ∈ codeMarks) (by decide) ?_)
      (.cons (.self (by decide) (by decide) rfl) (.cons (.short (by decide))
        (.cons (.code (by decide : ('u', 4) ∈ codeMarks) (by decide) ?_)
          (.cons (.code (by decide : ('U', 8) ∈ codeMarks) (by decide) ?_) .nil))))
    · simp [hexDigits, hexForms]
    · simp [hexDigits, hexForms]
    · simp [hexDigits, hexForms]
  have hline : ∀ c ∈ ['i', 't', '\'', 's'], isLineEnd c = false := by
    simp [isLineEnd]
  exact ⟨hkey, htail, hspelled, (scalars_unquote hkey htail).1 _ hspelled, hline,
    (scalars_unquote hkey htail).2 hline⟩

end Yaml

end FlowExpr
