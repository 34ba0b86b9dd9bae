import FlowExpr.Proofs.Expr.Relocation
import FlowExpr.Proofs.Span
import Mathlib.Data.List.TakeWhile

/-!
# What the tokens of a text are like

Facts about reading tokens that whoever reads on relies on:

* `Lexer.read_cases`: the one case split over what a token can begin with;
* `lexFrom_tokens`: the tokens end with the one end token, and input that is no token does
  not pass without an error;
* `lexFrom_move`: a text read from a later offset has the same tokens and errors, moved;
* `lexFrom_blames`: every error lies in the range of a token, and a token that cannot be read is
  an error of exactly its range;
* `lexFrom_within`: so no token and no error reaches past the end of the text.
-/

namespace FlowExpr

namespace Lexer

/-! ## 1. What a token begins with -/

/-- A token is a sign of one character, of one or two, or of one doubled, a string, a word, a
    number, or no token at all. -/
theorem read_cases {P : Reading → Prop} (offset : Nat) (c : Char) (cs : List Char)
    (hsingle : ∀ sign, single? c = some sign → P ⟨.sign sign, 0, []⟩)
    (hpaired : ∀ second double single, paired? c = some (second, double, single) →
      P (oneOrTwo second double single cs))
    (hdoubled : ∀ sign, doubled? c = some sign → cs.head? = some c → P ⟨.sign sign, 1, []⟩)
    (hstring : c = '"' ∨ c = '\'' → P (readString offset c cs))
    (hword : isNameStart c = true → P (readWord c cs))
    (hnumber : Text.isDigit c = true ∨ c = '.' ∧ cs.head?.any Text.isDigit = true →
      P (readNumber offset (c :: cs)))
    (hinvalid : P (readInvalid offset c)) : P (read offset c cs) := by
  unfold read
  split
  · rename_i h
    rw [Bool.and_eq_true, decide_eq_true_iff] at h
    exact hnumber (.inr h)
  · split
    · exact hsingle _ ‹_›
    · split
      · exact hpaired _ _ _ ‹_›
      · split
        · split
          · exact hdoubled _ ‹_› ‹_›
          · exact hinvalid
        · split
          · rename_i h
            exact hstring (by simpa using h)
          · split
            · exact hword ‹_›
            · split
              · exact hnumber (.inl ‹_›)
              · exact hinvalid

/-! ## 2. Kinds -/

/-- The reading is no end, and no unreadable input without an error. -/
def Reading.Honest (r : Reading) : Prop :=
  r.kind ≠ .eof ∧ (r.errors = [] → r.kind ≠ .invalid)

theorem Reading.honest_of_kind {r : Reading} (h : r.kind ≠ .eof) (h' : r.kind ≠ .invalid) :
    r.Honest :=
  ⟨h, fun _ => h'⟩

/-- What a table says of all its entries it says of what is looked up. -/
theorem of_lookup {α β : Type} [BEq α] [LawfulBEq α] {table : List (α × β)}
    {P : α → β → Prop} {a : α} {b : β} (h : table.lookup a = some b)
    (hall : ∀ entry ∈ table, P entry.1 entry.2) : P a b := by
  obtain ⟨front, rest, ht, -⟩ := List.lookup_eq_some_iff.mp h
  exact hall (a, b) (by rw [ht]; exact List.mem_append_right _ List.mem_cons_self)

/-- A word is a keyword or a name. -/
theorem of_word {P : TokenKind → Prop} (hkeyword : ∀ entry ∈ TokenKind.keywords, P entry.2)
    (hname : ∀ name, P (.identifier name)) (word : String) :
    P ((TokenKind.keyword? word).getD (.identifier word)) := by
  cases h : TokenKind.keyword? word with
  | none => exact hname word
  | some kind => exact of_lookup (P := fun _ kind => P kind) h hkeyword

theorem honest_readWord (c : Char) (cs : List Char) : (readWord c cs).Honest := by
  have hword := of_word (P := fun kind => kind ≠ .eof ∧ kind ≠ .invalid) (by decide) (by simp)
    (String.ofList (c :: cs.takeWhile isNamePart))
  exact Reading.honest_of_kind hword.1 hword.2

/-- A number is an integer or a decimal. -/
theorem NumberText.kind?_number {n : NumberText} {kind : TokenKind} (h : n.kind? = some kind) :
    (∃ value, kind = .integer value) ∨ ∃ value, kind = .decimal value := by
  have hmap : ∀ value : Option Decimal, value.map TokenKind.decimal = some kind →
      ∃ d, kind = .decimal d := by
    intro value hv
    obtain ⟨d, -, rfl⟩ := Option.map_eq_some_iff.mp hv
    exact ⟨d, rfl⟩
  unfold NumberText.kind? at h
  generalize (if n.whole.isEmpty then ['0'] else n.whole) = whole at h
  dsimp only at h
  split at h
  · exact .inr (hmap _ h)
  · split at h
    · split at h
      · exact .inl ⟨_, (Option.some.inj h).symm⟩
      · exact .inr (hmap _ h)
    · exact .inr (hmap _ h)

theorem honest_readNumber (offset : Nat) (cs : List Char) : (readNumber offset cs).Honest := by
  unfold readNumber
  generalize numberText cs = number
  dsimp only
  split
  · rename_i kind h
    obtain ⟨value, rfl⟩ | ⟨value, rfl⟩ := NumberText.kind?_number h
    · exact Reading.honest_of_kind (by simp) (by simp)
    · exact Reading.honest_of_kind (by simp) (by simp)
  · exact ⟨by simp, by simp⟩

theorem honest_read (offset : Nat) (c : Char) (cs : List Char) :
    (read offset c cs).Honest := by
  refine read_cases offset c cs ?_ ?_ ?_ ?_ ?_ ?_ ?_
  · exact fun sign _ => Reading.honest_of_kind (by simp) (by simp)
  · intro second double single _
    unfold oneOrTwo
    split <;> exact Reading.honest_of_kind (by simp) (by simp)
  · exact fun sign _ _ => Reading.honest_of_kind (by simp) (by simp)
  · exact fun _ => Reading.honest_of_kind (by simp [readString]) (by simp [readString])
  · exact fun _ => honest_readWord c cs
  · exact fun _ => honest_readNumber offset (c :: cs)
  · exact ⟨by simp [readInvalid], by simp [readInvalid]⟩

end Lexer

/-- **The tokens of a text are some tokens and the end token**, and if there is no error, none
    of them is unreadable. -/
theorem lexFrom_tokens (n offset : Nat) (cs : List Char) :
    ∃ ts, (lexFrom n offset cs).tokens = ts ++ [Token.eofAt (offset + Text.byteLength cs)] ∧
      (∀ t ∈ ts, t.kind ≠ .eof) ∧
      ((lexFrom n offset cs).errors = [] → ∀ t ∈ ts, t.kind ≠ .invalid) := by
  fun_induction lexFrom n offset cs with
  | case1 n offset => exact ⟨[], by simp, by simp, by simp⟩
  | case2 offset c cs n ih =>
    rw [Text.byteLength_cons, ← Nat.add_assoc]
    exact ih
  | case3 offset c cs hb ih =>
    rw [Text.byteLength_cons, ← Nat.add_assoc]
    exact ih
  | case4 offset c cs hb reading text ih =>
    obtain ⟨ts, hts, heof, hinvalid⟩ := ih
    obtain ⟨he, hi⟩ := Lexer.honest_read offset c cs
    have hend : offset + Text.byteLength (c :: cs) =
        offset + c.utf8Size + Text.byteLength cs := (Nat.add_assoc ..).symm
    rw [hend]
    refine ⟨⟨reading.kind, String.ofList text, ⟨offset, offset + Text.byteLength text⟩⟩ :: ts,
      ?_, ?_, fun herr => ?_⟩
    · show _ :: (lexFrom _ _ cs).tokens = _
      rw [hts]
      rfl
    · exact List.forall_mem_cons.mpr ⟨he, heof⟩
    · obtain ⟨h₁, h₂⟩ := List.append_eq_nil_iff.mp herr
      exact List.forall_mem_cons.mpr ⟨hi h₁, hinvalid h₂⟩

/-! ## 3. Reading from another offset -/

/-- The errors at places further on. -/
def LexError.moveAll (d : Nat) (errors : List LexError) : List LexError :=
  errors.map (LexError.relocate (· + d))

theorem LexError.moveAll_append (d : Nat) (es fs : List LexError) :
    moveAll d (es ++ fs) = moveAll d es ++ moveAll d fs := List.map_append

theorem LexError.moveAll_singleton (d : Nat) (fault : LexFault) (a b : Nat) :
    moveAll d [⟨fault, ⟨a, b⟩⟩] = [⟨fault, ⟨a + d, b + d⟩⟩] := rfl

namespace Lexer

theorem stringBody_move (quote : Char) (d offset : Nat) (cs : List Char) :
    stringBody quote (offset + d) cs =
      { stringBody quote offset cs with
        errors := LexError.moveAll d (stringBody quote offset cs).errors } := by
  fun_induction stringBody quote offset cs with
  | case1 => rfl
  | case2 => rfl
  | case3 offset c rest next decoded h ih =>
    have hn : offset + d + 1 + c.utf8Size = next + d := by omega
    simp only [stringBody, h, hn, ih]
    rfl
  | case4 offset c rest next h ih =>
    have hn : offset + d + 1 + c.utf8Size = next + d := by omega
    simp only [stringBody, h, hn, ih]
    rfl
  | case5 offset cs hne =>
    rw [stringBody, if_pos rfl]
    · rfl
    · exact hne
  | case6 offset c cs hne hq ih =>
    have hn : offset + d + c.utf8Size = offset + c.utf8Size + d := by omega
    rw [stringBody, if_neg hq, hn, ih]
    · rfl
    · exact hne

/-- Only the places of its errors depend on where a token is read. -/
theorem read_move (d offset : Nat) (c : Char) (cs : List Char) :
    read (offset + d) c cs =
      { read offset c cs with errors := LexError.moveAll d (read offset c cs).errors } := by
  have hnumber : readNumber (offset + d) (c :: cs) = { readNumber offset (c :: cs) with
      errors := LexError.moveAll d (readNumber offset (c :: cs)).errors } := by
    unfold readNumber
    dsimp only
    split
    · rfl
    · simp only [LexError.moveAll_singleton, Nat.add_right_comm]
  have hinvalid : readInvalid (offset + d) c = { readInvalid offset c with
      errors := LexError.moveAll d (readInvalid offset c).errors } := by
    simp only [readInvalid, LexError.moveAll_singleton, Nat.add_right_comm]
  have hstring : readString (offset + d) c cs = { readString offset c cs with
      errors := LexError.moveAll d (readString offset c cs).errors } := by
    have hn : offset + d + c.utf8Size = offset + c.utf8Size + d := Nat.add_right_comm ..
    simp only [readString, hn, stringBody_move]
    split
    · rfl
    · simp only [LexError.moveAll_append, LexError.moveAll_singleton, Nat.add_right_comm]
  -- the branch is chosen by the characters alone
  unfold read
  split
  · exact hnumber
  · split
    · rfl
    · split
      · unfold oneOrTwo
        split <;> rfl
      · split
        · split
          · rfl
          · exact hinvalid
        · split
          · exact hstring
          · split
            · rfl
            · split
              · exact hnumber
              · exact hinvalid

end Lexer

/-- Tokens and errors at other places. -/
def Lexed.relocate (f : Nat → Nat) (l : Lexed) : Lexed :=
  ⟨l.tokens.map (Token.relocate f), l.errors.map (LexError.relocate f)⟩

/-- **A text further on has the same tokens and errors, further on.** -/
theorem lexFrom_move (d n offset : Nat) (cs : List Char) :
    lexFrom n (offset + d) cs = (lexFrom n offset cs).relocate (· + d) := by
  fun_induction lexFrom n offset cs with
  | case1 n offset =>
    cases n <;> rfl
  | case2 offset c cs n ih =>
    rw [lexFrom, Nat.add_right_comm]
    exact ih
  | case3 offset c cs hb ih =>
    rw [lexFrom, if_pos hb, Nat.add_right_comm]
    exact ih
  | case4 offset c cs hb reading text ih =>
    rw [lexFrom, if_neg hb, Lexer.read_move]
    dsimp only
    rw [Nat.add_right_comm offset d c.utf8Size, ih, Nat.add_right_comm offset d]
    simp only [Lexed.push, Lexed.relocate, List.map_cons, List.map_append]
    rfl

/-- A whole text at an offset has its own tokens and errors, moved. -/
theorem lex_move (source : List Char) (n : Nat) :
    lex source n = (lex source 0).relocate (· + n) := by
  have h := lexFrom_move n 0 0 source
  rwa [Nat.zero_add] at h

/-! ## 4. Spellings of numbers -/

namespace Lexer

/-- The characters that numbers are written with. -/
def isNumberPart (c : Char) : Bool := Text.isDigit c || c ∈ ['.', 'e', 'E', '+', '-']

theorem isNumberPart_of_isDigit {c : Char} (h : Text.isDigit c = true) :
    isNumberPart c = true := by
  simp [isNumberPart, h]

theorem isNumberPart_of_mem_digits {c : Char} {cs : List Char}
    (h : c ∈ cs.takeWhile Text.isDigit) : isNumberPart c = true :=
  isNumberPart_of_isDigit (List.mem_takeWhile_imp h)

/-- The first characters of a text are written with the characters of numbers, and a spelling
    takes as many characters and bytes. -/
def Spells (spelling cs : List Char) : Prop :=
  ∃ front rest, cs = front ++ rest ∧ front.length = spelling.length ∧
    Text.byteLength front = Text.byteLength spelling ∧ ∀ c ∈ front, isNumberPart c = true

theorem Spells.append {xs ys cs : List Char} (hx : Spells xs cs)
    (hy : Spells ys (cs.drop xs.length)) : Spells (xs ++ ys) cs := by
  obtain ⟨front₁, rest₁, rfl, hl₁, hb₁, hp₁⟩ := hx
  rw [← hl₁, List.drop_left] at hy
  obtain ⟨front₂, rest₂, rfl, hl₂, hb₂, hp₂⟩ := hy
  refine ⟨front₁ ++ front₂, rest₂, (List.append_assoc ..).symm, by simp [hl₁, hl₂],
    by simp [hb₁, hb₂], fun c hc => ?_⟩
  rcases List.mem_append.mp hc with h | h
  · exact hp₁ c h
  · exact hp₂ c h

theorem spells_digits (cs : List Char) : Spells (cs.takeWhile Text.isDigit) cs :=
  ⟨_, _, List.takeWhile_append_dropWhile.symm, rfl, rfl, fun _ => isNumberPart_of_mem_digits⟩

theorem spells_nil (cs : List Char) : Spells [] cs := ⟨[], cs, rfl, rfl, rfl, by simp⟩

theorem spells_cons {c : Char} {xs cs : List Char} (hc : isNumberPart c = true)
    (h : Spells xs cs) : Spells (c :: xs) (c :: cs) := by
  obtain ⟨front, rest, rfl, hl, hb, hp⟩ := h
  exact ⟨c :: front, rest, rfl, by simp [hl], by simp [hb],
    List.forall_mem_cons.mpr ⟨hc, hp⟩⟩

theorem spells_fractionOf (cs : List Char) : Spells (fractionOf cs) cs := by
  unfold fractionOf
  split
  · split
    · exact spells_cons (by decide)
        (spells_cons (isNumberPart_of_isDigit ‹_›) (spells_digits _))
    · exact spells_nil _
  · exact spells_nil _

/-- The mark may be written large, but it takes one byte all the same. -/
theorem spells_exponentOf (cs : List Char) : Spells (exponentOf cs) cs := by
  have hmark : ∀ (mark : Char) (xs cs : List Char), ¬(mark ≠ 'e' ∧ mark ≠ 'E') →
      Spells xs cs → Spells ('e' :: xs) (mark :: cs) := by
    rintro mark xs _ hm ⟨front, rest, rfl, hl, hb, hp⟩
    have hm' : mark = 'e' ∨ mark = 'E' := by
      by_cases h : mark = 'e'
      · exact .inl h
      · exact .inr (Classical.byContradiction fun h' => hm ⟨h, h'⟩)
    refine ⟨mark :: front, rest, rfl, by simp [hl], ?_, List.forall_mem_cons.mpr ⟨?_, hp⟩⟩
    · rcases hm' with rfl | rfl
      · rw [Text.byteLength_cons, hb, Text.byteLength_cons]
      · rw [Text.byteLength_cons, hb, Text.byteLength_cons]
        rfl
    · rcases hm' with rfl | rfl <;> decide
  unfold exponentOf
  split
  · split
    · exact spells_nil _
    · rename_i mark c cs hm
      split
      · exact hmark _ _ _ hm (spells_cons (isNumberPart_of_isDigit ‹_›) (spells_digits _))
      · split
        · rename_i hc
          split
          · exact spells_nil _
          · refine hmark _ _ _ hm (spells_cons ?_ (spells_digits _))
            rcases hc with rfl | rfl <;> decide
        · exact spells_nil _
  · exact spells_nil _

theorem spells_numberText (cs : List Char) : Spells (numberText cs).chars cs := by
  refine Spells.append (Spells.append (spells_digits cs) (spells_fractionOf _)) ?_
  rw [List.length_append, ← List.drop_drop]
  exact spells_exponentOf _

theorem numberText_ne_nil {c : Char} {cs : List Char}
    (h : Text.isDigit c = true ∨ c = '.' ∧ cs.head?.any Text.isDigit = true) :
    (numberText (c :: cs)).chars ≠ [] := by
  unfold numberText NumberText.chars
  dsimp only
  rcases h with h | ⟨rfl, h⟩
  · simp [h]
  · -- the point is no digit, so the spelling begins with the fraction
    have hwhole : ('.' :: cs).takeWhile Text.isDigit = [] := by simp [Text.isDigit]
    cases cs with
    | nil => simp at h
    | cons d cs =>
      have hd : Text.isDigit d = true := by simpa using h
      simp [hwhole, fractionOf, hd]

/-- A number takes as many bytes of the text as its spelling. -/
theorem byteLength_numberText {c : Char} {cs : List Char}
    (h : Text.isDigit c = true ∨ c = '.' ∧ cs.head?.any Text.isDigit = true) :
    Text.byteLength (c :: cs.take ((numberText (c :: cs)).chars.length - 1)) =
      Text.byteLength (numberText (c :: cs)).chars := by
  have hne := numberText_ne_nil h
  obtain ⟨front, rest, hsplit, hlength, hbytes, -⟩ := spells_numberText (c :: cs)
  rw [← hbytes, ← hlength]
  cases front with
  | nil => exact absurd (List.length_eq_zero_iff.mp hlength.symm) hne
  | cons d front =>
    rw [List.cons_append] at hsplit
    obtain ⟨rfl, rfl⟩ := List.cons.inj hsplit
    rw [List.length_cons, Nat.add_sub_cancel, List.take_left]

end Lexer

/-! ## 5. Errors lie in tokens -/

namespace Lexer

/-- Range of the token that a reading takes, from its first character on. -/
def Reading.span (r : Reading) (offset : Nat) (c : Char) (cs : List Char) : Span :=
  ⟨offset, offset + Text.byteLength (c :: cs.take r.extra)⟩

/-- Bad escapes lie in the characters that their string takes. -/
theorem stringBody_errors (quote : Char) (offset : Nat) (cs : List Char) :
    ∀ e ∈ (stringBody quote offset cs).errors, e.span.Inside
      ⟨offset, offset + Text.byteLength (cs.take (stringBody quote offset cs).taken)⟩ := by
  have hslash : '\\'.utf8Size = 1 := rfl
  fun_induction stringBody quote offset cs with
  | case1 => simp
  | case2 => simp
  | case3 offset c rest next decoded h ih =>
    intro e he
    obtain ⟨h₁, h₂, h₃⟩ := ih e he
    dsimp only at h₁ h₃
    refine ⟨by dsimp only; omega, h₂, ?_⟩
    show _ ≤ offset + Text.byteLength ((['\\', c] ++ rest).take (['\\', c].length + _))
    rw [List.take_length_add_append]
    simp only [Text.byteLength_append, Text.byteLength_cons, Text.byteLength_nil]
    omega
  | case4 offset c rest next h ih =>
    intro e he
    show Span.Inside _ ⟨offset, offset +
      Text.byteLength ((['\\', c] ++ rest).take (['\\', c].length + _))⟩
    rw [List.take_length_add_append]
    simp only [Span.Inside, Text.byteLength_append, Text.byteLength_cons, Text.byteLength_nil]
    rcases List.mem_append.mp he with he | he
    · obtain rfl := List.mem_singleton.mp he
      dsimp only
      omega
    · obtain ⟨h₁, h₂, h₃⟩ := ih e he
      dsimp only at h₁ h₃
      omega
  | case5 offset cs hne => simp
  | case6 offset c cs hne hq ih =>
    intro e he
    obtain ⟨h₁, h₂, h₃⟩ := ih e he
    dsimp only at h₁ h₃
    refine ⟨by dsimp only; omega, h₂, ?_⟩
    show _ ≤ offset + Text.byteLength (([c] ++ cs).take ([c].length + _))
    rw [List.take_length_add_append]
    simp only [Text.byteLength_append, Text.byteLength_cons, Text.byteLength_nil]
    omega

/-- The errors of a reading lie in the range that it takes, and unreadable input is an error of
    exactly that range. -/
def Reading.Blames (r : Reading) (whole : Span) : Prop :=
  (∀ e ∈ r.errors, e.span.Inside whole) ∧ (r.kind = .invalid → ∃ e ∈ r.errors, e.span = whole)

theorem Reading.blames_of_none {r : Reading} (h : r.errors = []) (hk : r.kind ≠ .invalid)
    (whole : Span) : r.Blames whole :=
  ⟨by simp [h], fun hi => absurd hi hk⟩

theorem blames_readString (offset : Nat) (c : Char) (cs : List Char) :
    (readString offset c cs).Blames ((readString offset c cs).span offset c cs) := by
  have hwhole : (readString offset c cs).span offset c cs = ⟨offset, offset + c.utf8Size +
      Text.byteLength (cs.take (stringBody c (offset + c.utf8Size) cs).taken)⟩ := by
    rw [Nat.add_assoc]
    rfl
  have hbody : ∀ e ∈ (stringBody c (offset + c.utf8Size) cs).errors,
      e.span.Inside ((readString offset c cs).span offset c cs) := by
    intro e he
    obtain ⟨h₁, h₂, h₃⟩ := stringBody_errors c (offset + c.utf8Size) cs e he
    rw [hwhole]
    exact ⟨by dsimp only at h₁ ⊢; omega, h₂, h₃⟩
  refine ⟨fun e he => ?_, fun h => by simp [readString] at h⟩
  unfold readString at he
  dsimp only at he
  split at he
  · exact hbody e he
  · rcases List.mem_append.mp he with he | he
    · exact hbody e he
    · obtain rfl := List.mem_singleton.mp he
      rw [hwhole]
      exact ⟨Nat.le_refl _, by dsimp only; omega, Nat.le_refl _⟩

theorem blames_readNumber {c : Char} {cs : List Char}
    (h : Text.isDigit c = true ∨ c = '.' ∧ cs.head?.any Text.isDigit = true) (offset : Nat) :
    (readNumber offset (c :: cs)).Blames
      ((readNumber offset (c :: cs)).span offset c cs) := by
  have hbytes := byteLength_numberText h
  unfold readNumber
  generalize numberText (c :: cs) = number at hbytes
  dsimp only
  cases hkind : number.kind? with
  | some kind =>
    refine Reading.blames_of_none rfl ?_ _
    obtain ⟨value, rfl⟩ | ⟨value, rfl⟩ := NumberText.kind?_number hkind <;> simp
  | none =>
    dsimp only [Reading.span]
    rw [hbytes]
    refine ⟨fun e he => ?_, fun _ => ⟨_, List.mem_singleton_self _, rfl⟩⟩
    rw [List.mem_singleton.mp he]
    exact ⟨Nat.le_refl _, Nat.le_add_right _ _, Nat.le_refl _⟩

theorem blames_readInvalid (offset : Nat) (c : Char) (cs : List Char) :
    (readInvalid offset c).Blames ((readInvalid offset c).span offset c cs) := by
  refine ⟨fun e he => ?_, fun _ => ⟨_, List.mem_singleton_self _, rfl⟩⟩
  rw [List.mem_singleton.mp he]
  exact ⟨Nat.le_refl _, Nat.le_add_right _ _, Nat.le_refl _⟩

theorem blames_read (offset : Nat) (c : Char) (cs : List Char) :
    (read offset c cs).Blames ((read offset c cs).span offset c cs) := by
  refine read_cases (P := fun r => r.Blames (r.span offset c cs)) offset c cs ?_ ?_ ?_ ?_ ?_ ?_ ?_
  · exact fun sign _ => Reading.blames_of_none rfl (by simp) _
  · intro second double single _
    unfold oneOrTwo
    split <;> exact Reading.blames_of_none rfl (by simp) _
  · exact fun sign _ _ => Reading.blames_of_none rfl (by simp) _
  · exact fun _ => blames_readString offset c cs
  · refine fun _ => Reading.blames_of_none rfl ?_ _
    exact (honest_readWord c cs).2 rfl
  · exact fun h => blames_readNumber h offset
  · exact blames_readInvalid offset c cs

end Lexer

/-- **Every error lies in the range of a token, and every unreadable token is an error of exactly
    its range.** -/
theorem lexFrom_blames (n offset : Nat) (cs : List Char) :
    (∀ e ∈ (lexFrom n offset cs).errors,
      ∃ t ∈ (lexFrom n offset cs).tokens, t.kind ≠ .eof ∧ e.span.Inside t.span) ∧
    ∀ t ∈ (lexFrom n offset cs).tokens, t.kind = .invalid →
      ∃ e ∈ (lexFrom n offset cs).errors, e.span = t.span := by
  fun_induction lexFrom n offset cs with
  | case1 n offset => simp [Token.eofAt]
  | case2 offset c cs n ih => exact ih
  | case3 offset c cs hb ih => exact ih
  | case4 offset c cs hb reading text ih =>
    obtain ⟨herrors, hinvalid⟩ := Lexer.blames_read offset c cs
    refine ⟨fun e he => ?_, fun t ht hk => ?_⟩
    · rcases List.mem_append.mp he with he | he
      · exact ⟨_, List.mem_cons_self, (Lexer.honest_read offset c cs).1, herrors e he⟩
      · obtain ⟨t, ht, h⟩ := ih.1 e he
        exact ⟨t, List.mem_cons_of_mem _ ht, h⟩
    · rcases List.mem_cons.mp ht with rfl | ht
      · obtain ⟨e, he, h⟩ := hinvalid hk
        exact ⟨e, List.mem_append_left _ he, h⟩
      · obtain ⟨e, he, h⟩ := ih.2 t ht hk
        exact ⟨e, List.mem_append_right _ he, h⟩

/-! ## 6. Nothing past the end -/

/-- Neither end of the range is past an offset. -/
def Span.Within (bound : Nat) (s : Span) : Prop := s.start ≤ bound ∧ s.stop ≤ bound

theorem Text.byteLength_take_le (n : Nat) (cs : List Char) :
    byteLength (cs.take n) ≤ byteLength cs := by
  have h := byteLength_append (cs.take n) (cs.drop n)
  rw [List.take_append_drop] at h
  omega

/-- **No token and no error reaches past the end of the text.** -/
theorem lexFrom_within (n offset : Nat) (cs : List Char) :
    (∀ t ∈ (lexFrom n offset cs).tokens, t.span.Within (offset + Text.byteLength cs)) ∧
      ∀ e ∈ (lexFrom n offset cs).errors, e.span.Within (offset + Text.byteLength cs) := by
  have htokens : ∀ t ∈ (lexFrom n offset cs).tokens,
      t.span.Within (offset + Text.byteLength cs) := by
    fun_induction lexFrom n offset cs with
    | case1 n offset => simp [Span.Within, Token.eofAt, Span.empty]
    | case2 offset c cs n ih =>
      rw [Text.byteLength_cons, ← Nat.add_assoc]
      exact ih
    | case3 offset c cs hb ih =>
      rw [Text.byteLength_cons, ← Nat.add_assoc]
      exact ih
    | case4 offset c cs hb reading text ih =>
      have hend : offset + Text.byteLength (c :: cs) =
          offset + c.utf8Size + Text.byteLength cs := (Nat.add_assoc ..).symm
      have htext : Text.byteLength text ≤ Text.byteLength (c :: cs) :=
        Nat.add_le_add_left (Text.byteLength_take_le reading.extra cs) _
      rw [hend] at ⊢
      refine List.forall_mem_cons.mpr ⟨?_, ih⟩
      constructor <;> dsimp only <;> omega
  refine ⟨htokens, fun e he => ?_⟩
  obtain ⟨t, ht, -, h₁, h₂, h₃⟩ := (lexFrom_blames n offset cs).1 e he
  have hstop := (htokens t ht).2
  exact ⟨by omega, by omega⟩

/-- The range of an error has its ends in order. -/
theorem lexFrom_forward (n offset : Nat) (cs : List Char) :
    ∀ e ∈ (lexFrom n offset cs).errors, e.span.start ≤ e.span.stop := by
  intro e he
  obtain ⟨t, -, -, hinside⟩ := (lexFrom_blames n offset cs).1 e he
  exact hinside.2.1

end FlowExpr
