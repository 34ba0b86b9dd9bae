import FlowExpr.Proofs.Span
import FlowExpr.Proofs.Text
import FlowExpr.Proofs.Token.Lexer

/-!
# The order of tokens

The tokens of a text follow one another, and every one but the end token begins with a
character that is no blank, so it is not empty. This stays true when the text is moved into a
document along a map that keeps the order of offsets, as long as the map goes on at characters
that are no blanks:

* `lexFrom_row`: the ranges of the tokens of a text are a row;
* `lexFrom_begins`: what the tokens begin with;
* `TokenRow lo ts hi`: tokens that follow one another, none of which is empty or an end token;
* `exists_tokenRow`: the moved tokens of a text are such a row and the end token.
-/

namespace FlowExpr

open Text (byteLength byteLength_cons)

/-! ## 1. Tokens of a text -/

/-- **The ranges of tokens are a row**, after the characters that still belong to the token
    before. -/
theorem lexFrom_row (n offset : Nat) (cs : List Char) :
    Span.Row (offset + byteLength (cs.take n)) ((lexFrom n offset cs).tokens.map Token.span)
      (offset + byteLength cs) := by
  fun_induction lexFrom n offset cs with
  | case1 n offset =>
    rw [List.take_nil]
    exact ⟨Nat.le_refl _, Nat.le_refl _, Nat.le_refl _⟩
  | case2 n offset c cs ih =>
    rw [List.take_succ_cons, byteLength_cons, byteLength_cons, ← Nat.add_assoc, ← Nat.add_assoc]
    exact ih
  | case3 offset c cs hb ih =>
    rw [byteLength_cons, ← Nat.add_assoc]
    exact ih.mono (Nat.le_add_right _ _) (Nat.le_refl _)
  | case4 offset c cs hb reading text ih =>
    refine ⟨Nat.le_refl _, Nat.le_add_right _ _, ?_⟩
    show Span.Row (offset + byteLength text) _ _
    rw [show byteLength text = c.utf8Size + byteLength (cs.take reading.extra) from rfl,
      byteLength_cons, ← Nat.add_assoc, ← Nat.add_assoc]
    exact ih

/-- The token begins with a character of the text that is no blank. -/
def Token.Begins (offset : Nat) (text : List Char) (t : Token) : Prop :=
  ∃ c, Text.PartAt offset text t.span.start [c] ∧ Text.isBlank c = false ∧
    t.span.start + c.utf8Size ≤ t.span.stop

theorem Token.Begins.cons {offset : Nat} {text : List Char} {t : Token} (c : Char)
    (h : t.Begins (offset + c.utf8Size) text) : t.Begins offset (c :: text) := by
  obtain ⟨d, hpart, hd, hle⟩ := h
  exact ⟨d, hpart.cons c, hd, hle⟩

/-- **Every token but the end begins with a character that is no blank.** -/
theorem lexFrom_begins (n offset : Nat) (cs : List Char) :
    ∀ t ∈ (lexFrom n offset cs).tokens, t.kind ≠ .eof → t.Begins offset cs := by
  fun_induction lexFrom n offset cs with
  | case1 n offset =>
    intro t ht hk
    rw [List.mem_singleton.mp ht] at hk
    exact absurd rfl hk
  | case2 n offset c cs ih => exact fun t ht hk => (ih t ht hk).cons c
  | case3 offset c cs hb ih => exact fun t ht hk => (ih t ht hk).cons c
  | case4 offset c cs hb reading text ih =>
    intro t ht hk
    rcases List.mem_cons.mp ht with rfl | ht
    · refine ⟨c, ⟨[], cs, rfl, rfl⟩, Bool.eq_false_iff.mpr hb, ?_⟩
      show offset + c.utf8Size ≤ offset + (c.utf8Size + _)
      omega
    · exact (ih t ht hk).cons c

/-! ## 2. Moved tokens -/

/-- Tokens that follow one another between two offsets, none empty and none an end. -/
structure TokenRow (lo : Nat) (ts : List Token) (hi : Nat) : Prop where
  row : Span.Row lo (ts.map Token.span) hi
  nonempty : ∀ t ∈ ts, t.span.start < t.span.stop
  noEnd : ∀ t ∈ ts, t.kind ≠ .eof

theorem TokenRow.tail {lo hi : Nat} {t : Token} {ts : List Token} (h : TokenRow lo (t :: ts) hi) :
    TokenRow t.span.stop ts hi :=
  ⟨h.row.2.2, fun u hu => h.nonempty u (List.mem_cons_of_mem _ hu),
    fun u hu => h.noEnd u (List.mem_cons_of_mem _ hu)⟩

/-- Moving along a map that keeps the order keeps rows. -/
theorem Span.Row.relocate {f : Nat → Nat} (hf : Monotone f) {lo hi : Nat} {spans : List Span}
    (h : Row lo spans hi) : Row (f lo) (spans.map (Span.relocate f)) (f hi) := by
  induction spans generalizing lo with
  | nil => exact hf h
  | cons s rest ih => exact ⟨hf h.1, hf h.2.1, ih h.2.2⟩

/-- The map goes on at every character of the text that is no blank. -/
def GoesOn (f : Nat → Nat) (text : List Char) : Prop :=
  ∀ x c, Text.PartAt 0 text x [c] → Text.isBlank c = false → f x < f (x + c.utf8Size)

/-- **The moved tokens of a text** are a row of tokens that are not empty, and the end token. -/
theorem exists_tokenRow {f : Nat → Nat} (hf : Monotone f) {source : List Char}
    (hon : GoesOn f source) :
    ∃ ts, (lex source 0).tokens.map (Token.relocate f) =
        ts ++ [Token.eofAt (f (byteLength source))] ∧
      TokenRow (f 0) ts (f (byteLength source)) := by
  obtain ⟨ts, hts, heof, -⟩ := lexFrom_tokens 0 0 source
  have hbegins := lexFrom_begins 0 0 source
  have hrow := (lexFrom_row 0 0 source).relocate hf
  rw [hts] at hbegins
  rw [hts, List.map_append, List.map_append, List.take_zero, Nat.zero_add] at hrow
  obtain ⟨mid, hfront, hlast⟩ := hrow.of_append
  -- a moved token is not empty since the map goes on at its first character
  refine ⟨ts.map (Token.relocate f), ?_, ?_, ?_, ?_⟩
  · show (lexFrom 0 0 source).tokens.map _ = _
    rw [hts, List.map_append, Nat.zero_add]
    rfl
  · have hmid : mid ≤ f (byteLength source) := by
      have hle := hlast.le
      rwa [Nat.zero_add] at hle
    have hmoved : (ts.map (Token.relocate f)).map Token.span =
        (ts.map Token.span).map (Span.relocate f) := by
      rw [List.map_map, List.map_map]
      rfl
    rw [hmoved]
    exact hfront.mono (Nat.le_refl _) hmid
  · intro t ht
    obtain ⟨u, hu, rfl⟩ := List.mem_map.mp ht
    obtain ⟨c, hpart, hc, hle⟩ := hbegins u (List.mem_append_left _ hu) (heof u hu)
    exact Nat.lt_of_lt_of_le (hon _ c hpart hc) (hf hle)
  · intro t ht
    obtain ⟨u, hu, rfl⟩ := List.mem_map.mp ht
    exact heof u hu

/-- Moving a whole text goes on at every character. -/
theorem goesOn_add (n : Nat) (source : List Char) : GoesOn (· + n) source := by
  intro x c _ _
  have hc := c.utf8Size_pos
  show x + n < x + c.utf8Size + n
  omega

theorem monotone_add (n : Nat) : Monotone (· + n) := fun _ _ h => Nat.add_le_add_right h n

/-- The tokens of a text at an offset are a row between its ends, and the end token. -/
theorem exists_tokenRow_lex (source : List Char) (n : Nat) :
    ∃ ts, (lex source n).tokens = ts ++ [Token.eofAt (n + byteLength source)] ∧
      TokenRow n ts (n + byteLength source) := by
  obtain ⟨ts, htokens, hrow⟩ := exists_tokenRow (monotone_add n) (goesOn_add n source)
  rw [Nat.zero_add, Nat.add_comm (byteLength source)] at hrow
  rw [Nat.add_comm (byteLength source)] at htokens
  rw [lex_move]
  exact ⟨ts, htokens, hrow⟩

end FlowExpr
