import FlowExpr.Proofs.Token.Order

/-!
# Tokens tile their text

A text is nothing but its tokens and the blanks between them. No character belongs to two tokens,
none is left out, and what a token says it was written as is what stands at its place:

* `Tiles offset cs ts`: from an offset on, the characters `cs` are blanks and the texts of the
  tokens `ts` in their order, up to the end token;
* `lexFrom_tiles`: what reading gives tiles what it reads;
* `Tiles.part`, `Tiles.covers`: where the tokens of a tiling stand, and that they leave out
  blanks only.
-/

namespace FlowExpr

open Text (byteLength byteLength_append byteLength_cons)

/-! ## 1. Tilings -/

/-- The characters from an offset on are blanks and the texts of tokens, in their order. -/
inductive Tiles : Nat → List Char → List Token → Prop where
  | stop (offset : Nat) : Tiles offset [] [Token.eofAt offset]
  | blank {offset : Nat} {c : Char} {cs : List Char} {ts : List Token}
      (hblank : Text.isBlank c = true) (rest : Tiles (offset + c.utf8Size) cs ts) :
      Tiles offset (c :: cs) ts
  | token {offset : Nat} {kind : TokenKind} {c : Char} {part cs : List Char} {ts : List Token}
      (hkind : kind ≠ .eof) (rest : Tiles (offset + byteLength (c :: part)) cs ts) :
      Tiles offset (c :: part ++ cs)
        (⟨kind, String.ofList (c :: part), ⟨offset, offset + byteLength (c :: part)⟩⟩ :: ts)

/-- **Reading tiles the text**, after the characters that belong to the token before. -/
theorem lexFrom_tiles (n offset : Nat) (cs : List Char) :
    Tiles (offset + byteLength (cs.take n)) (cs.drop n) (lexFrom n offset cs).tokens := by
  fun_induction lexFrom n offset cs with
  | case1 n offset =>
    rw [List.take_nil, List.drop_nil]
    exact .stop offset
  | case2 offset c cs n ih =>
    rw [List.take_succ_cons, List.drop_succ_cons, byteLength_cons, ← Nat.add_assoc]
    exact ih
  | case3 offset c cs hb ih => exact .blank hb ih
  | case4 offset c cs hb reading text ih =>
    have hsplit : c :: cs = c :: cs.take reading.extra ++ cs.drop reading.extra := by
      rw [List.cons_append, List.take_append_drop]
    show Tiles offset (c :: cs) _
    rw [hsplit]
    refine .token (Lexer.honest_read offset c cs).1 ?_
    rw [byteLength_cons, ← Nat.add_assoc]
    exact ih

namespace Tiles

variable {offset : Nat} {cs : List Char} {ts : List Token}

/-- The text of a token is not empty and stands at its place. -/
theorem part (h : Tiles offset cs ts) : ∀ t ∈ ts, t.kind ≠ .eof →
    t.text.toList ≠ [] ∧ Text.PartAt offset cs t.span.start t.text.toList ∧
      t.span.stop = t.span.start + byteLength t.text.toList := by
  induction h with
  | stop offset =>
    intro t ht hk
    rw [List.mem_singleton.mp ht] at hk
    exact absurd rfl hk
  | @blank offset c cs ts hblank _ ih =>
    intro t ht hk
    obtain ⟨hne, hpart, hstop⟩ := ih t ht hk
    exact ⟨hne, hpart.cons c, hstop⟩
  | @token offset kind c part cs ts hkind _ ih =>
    intro t ht hk
    rcases List.mem_cons.mp ht with rfl | ht
    · rw [String.toList_ofList]
      exact ⟨List.cons_ne_nil _ _, ⟨[], cs, rfl, rfl⟩, rfl⟩
    · obtain ⟨hne, ⟨front, rest, hcs, hplace⟩, hstop⟩ := ih t ht hk
      refine ⟨hne, ⟨c :: part ++ front, rest, ?_, ?_⟩, hstop⟩
      · rw [hcs]
        simp
      · rw [hplace, byteLength_append, Nat.add_assoc]

/-- A character outside of all tokens is a blank. -/
theorem covers (h : Tiles offset cs ts) (front rest : List Char) (c : Char)
    (hcs : cs = front ++ c :: rest) : Text.isBlank c = true ∨
      ∃ t ∈ ts, t.kind ≠ .eof ∧ t.span.start ≤ offset + byteLength front ∧
        offset + byteLength front + c.utf8Size ≤ t.span.stop := by
  induction h generalizing front with
  | stop offset => simp at hcs
  | @blank offset d cs ts hblank _ ih =>
    cases front with
    | nil =>
      obtain ⟨rfl, -⟩ := List.cons.inj hcs
      exact .inl hblank
    | cons d' front =>
      obtain ⟨rfl, hrest⟩ := List.cons.inj hcs
      rw [byteLength_cons, ← Nat.add_assoc]
      exact ih front hrest
  | @token offset kind d part cs ts hkind _ ih =>
    -- after the first token the rest of the tiling decides
    have hlater : ∀ more, front = d :: part ++ more → cs = more ++ c :: rest →
        Text.isBlank c = true ∨ ∃ t ∈ ts, t.kind ≠ .eof ∧
          t.span.start ≤ offset + byteLength front ∧
          offset + byteLength front + c.utf8Size ≤ t.span.stop := by
      intro more hfront hrest
      rw [hfront, byteLength_append, ← Nat.add_assoc]
      exact ih more hrest
    rcases List.append_eq_append_iff.mp hcs with ⟨more, hfront, hrest⟩ | ⟨more, hpart, hrest⟩
    · refine (hlater more hfront hrest).imp_right fun ⟨t, ht, h⟩ => ?_
      exact ⟨t, List.mem_cons_of_mem _ ht, h⟩
    · cases more with
      | nil =>
        refine (hlater [] (by rw [hpart]; simp) hrest.symm).imp_right fun ⟨t, ht, h⟩ => ?_
        exact ⟨t, List.mem_cons_of_mem _ ht, h⟩
      | cons c' more =>
        obtain ⟨rfl, -⟩ := List.cons.inj hrest
        refine .inr ⟨_, List.mem_cons_self, hkind, Nat.le_add_right _ _, ?_⟩
        show offset + byteLength front + c.utf8Size ≤ offset + byteLength (d :: part)
        rw [hpart, byteLength_append, byteLength_cons]
        omega

end Tiles

/-! ## 2. Tokens and errors of a text -/

/-- **Tokens tile their text.** They are some tokens and the end token, which is empty at the end
    of the text. The others are not empty, lie in the text between characters, say what stands
    at their place and do not overlap; whatever is in none of them is a blank. Errors lie in
    tokens, and a token that cannot be read is an error of exactly its range. -/
theorem lex_tiling (source : List Char) (n : Nat) :
    ∃ ts, (lex source n).tokens = ts ++ [Token.eofAt (n + byteLength source)] ∧
      (∀ t ∈ ts, t.kind ≠ .eof ∧ t.span.start < t.span.stop ∧
        t.span.Inside ⟨n, n + byteLength source⟩ ∧
        Text.sliceBytes? (t.span.start - n) (t.span.stop - n) source = some t.text.toList) ∧
      ts.Pairwise (fun t u => t.span.stop ≤ u.span.start) ∧
      (∀ front c rest, source = front ++ c :: rest → Text.isBlank c = true ∨
        ∃ t ∈ ts, t.span.start ≤ n + byteLength front ∧
          n + byteLength front + c.utf8Size ≤ t.span.stop) ∧
      (∀ e ∈ (lex source n).errors, ∃ t ∈ ts, e.span.Inside t.span) ∧
      ∀ t ∈ ts, t.kind = .invalid → ∃ e ∈ (lex source n).errors, e.span = t.span := by
  obtain ⟨ts, hts, heof, -⟩ := lexFrom_tokens 0 n source
  have htiles : Tiles n source (lex source n).tokens := lexFrom_tiles 0 n source
  have hrow : Span.Row n ((lex source n).tokens.map Token.span) (n + byteLength source) :=
    lexFrom_row 0 n source
  obtain ⟨herrors, hinvalid⟩ := lexFrom_blames 0 n source
  have htokens : (lex source n).tokens = ts ++ [Token.eofAt (n + byteLength source)] := hts
  have hmem : ∀ t ∈ ts, t ∈ (lex source n).tokens := by
    intro t ht
    rw [htokens]
    exact List.mem_append_left _ ht
  -- what is no end token is one of the tokens before it
  have hback : ∀ t ∈ (lex source n).tokens, t.kind ≠ .eof → t ∈ ts := by
    intro t ht hk
    rw [htokens] at ht
    rcases List.mem_append.mp ht with ht | ht
    · exact ht
    · rw [List.mem_singleton.mp ht] at hk
      exact absurd rfl hk
  refine ⟨ts, htokens, fun t ht => ?_, ?_, fun front c rest hsource => ?_, fun e he => ?_,
    fun t ht hk => hinvalid t (hmem t ht) hk⟩
  · obtain ⟨hne, hpart, hstop⟩ := htiles.part t (hmem t ht) (heof t ht)
    have hinside := hrow.inside (List.mem_map_of_mem (hmem t ht))
    have hpos : 0 < byteLength t.text.toList := Text.byteLength_pos hne
    have hshift : t.span.stop - n = t.span.start - n + byteLength t.text.toList := by
      have hlo := hinside.1
      dsimp only at hlo
      omega
    refine ⟨heof t ht, by omega, hinside, ?_⟩
    rw [hshift]
    exact hpart.from_zero.sliceBytes?
  · rw [htokens, List.map_append] at hrow
    exact List.pairwise_map.mp (List.pairwise_append.mp hrow.pairwise).1
  · rcases htiles.covers front rest c hsource with hc | ⟨t, ht, hk, h⟩
    · exact .inl hc
    · exact .inr ⟨t, hback t ht hk, h⟩
  · obtain ⟨t, ht, hk, h⟩ := herrors e he
    exact ⟨t, hback t ht hk, h⟩

/-- A letter of two bytes, a character that begins no token, and a string that ends in a backslash
    and is not closed: its bad escape lies in it, and the string itself is an error too. -/
theorem lex_tiling_open_string :
    let lexed := lex ['é', ' ', '#', '.', '5', '\'', '\\', 'q', '\\'] 3
    lexed.tokens.map Token.span = [⟨3, 5⟩, ⟨6, 7⟩, ⟨7, 9⟩, ⟨9, 13⟩, ⟨13, 13⟩] ∧
      lexed.errors.map LexError.span = [⟨6, 7⟩, ⟨10, 12⟩, ⟨9, 13⟩] ∧
      ∃ ts, lexed.tokens = ts ++ [Token.eofAt 13] ∧
        ∀ e ∈ lexed.errors, ∃ t ∈ ts, e.span.Inside t.span := by
  intro lexed
  obtain ⟨ts, htokens, -, -, -, herrors, -⟩ :=
    lex_tiling ['é', ' ', '#', '.', '5', '\'', '\\', 'q', '\\'] 3
  exact ⟨by decide, by decide, ts, htokens, herrors⟩

end FlowExpr
