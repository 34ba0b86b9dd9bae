import FlowExpr.Proofs.Expr.Containment

/-!
# Reports behind placeholders

Where something cannot be read, the tree has an error node in its place, or a property without a
name. Some of them are reported by the parser: at the next token, or at the dot before a name. The
token that could not be read is left to the report of the lexer. Once the input ran out of levels,
nothing is reported any more, so this is about texts that do not.

* `Expr.Explained`: a report says what is wrong with a node;
* `ParserState.Heard`: nothing was given up, and every token that could not be read is reported;
* `ParserState.Reads.explained`: what is read is explained;
* `parseExpression_explained`: so is every node of a text.
-/

namespace FlowExpr

open Text (byteLength)

/-! ## 1. Explanations -/

/-- An error node lies in the range of a report, and a property without a name has an empty range
    in its place, right after what the report of the missing name points at. -/
def Expr.Explained (ds : List Diagnostic) : Expr → Prop
  | error span => ∃ d ∈ ds, span.Inside d.span
  | property _ none nameSpan _ => nameSpan.start = nameSpan.stop ∧
      ∃ d ∈ ds, d.problem = .missingPropertyName ∧ d.span.stop = nameSpan.stop
  | _ => True

/-- What a token is by itself is explained if the token is readable or reported. -/
theorem Token.explained_atom {ds : List Diagnostic} {t : Token} {e : Expr}
    (he : t.atom? = some e) (horder : t.span.start ≤ t.span.stop)
    (hreported : t.kind = .invalid → ∃ d ∈ ds, d.span = t.span) : e.Explained ds := by
  by_cases hk : t.kind = .invalid
  · obtain ⟨d, hd, hspan⟩ := hreported hk
    have herror : e = .error t.span := by simpa [atom?, hk] using he.symm
    rw [herror]
    refine ⟨d, hd, ?_⟩
    rw [hspan]
    exact ⟨Nat.le_refl _, horder, Nat.le_refl _⟩
  · unfold atom? at he
    split at he <;> first | exact absurd ‹_› hk | (cases he; done) | (cases he; trivial)

/-! ## 2. States -/

namespace ParserState

/-- The state keeps its tokens, none of the reports `ds` is that levels ran out, and the tokens
    that could not be read are in them. -/
structure Heard (w : Span) (ts : List Token) (ds : List Diagnostic) (s : ParserState) : Prop where
  kept : s.Kept w ts
  shallow : ∀ d ∈ ds, d.problem ≠ .tooDeeplyNested
  unreadable : ∀ t ∈ s.ahead, t.kind = .invalid → ∃ d ∈ ds, d.span = t.span

variable {w : Span} {ts : List Token} {ds : List Diagnostic} {s s' : ParserState}
  {es : List Expr}

theorem Moves.heard (h : s.Moves s') (hs : s.Heard w ts ds) : s'.Heard w ts ds :=
  ⟨h.kept hs.kept, hs.shallow, fun t ht => hs.unreadable t (h.tokens.1 ht)⟩

/-- What is reported is among the reports, since only a lack of levels would suppress it. -/
theorem Heard.mem_report (hs : s.Heard w ts ds) {span : Span} {problem : Problem}
    (hds : (s.report span problem).diagnostics ⊆ ds) : ⟨span, problem⟩ ∈ ds := by
  rcases s.diagnostics_report span problem with hadd | ⟨htruncated, hsame⟩
  · exact hds (hadd ▸ List.mem_append_right _ (List.mem_singleton_self _))
  · obtain ⟨d, hd, hdeep⟩ := hs.kept.explained htruncated
    exact absurd hdeep (hs.shallow d (hds (hsame ▸ hd)))

/-- No construct is given up. -/
theorem Heard.not_giveUp (hs : s.Heard w ts ds) : ¬s.giveUp.diagnostics ⊆ ds :=
  fun hds => hs.shallow _ (hs.mem_report hds) rfl

/-- What is missing in front of the next token is explained by a report of this token. -/
theorem Heard.explained_missing (hs : s.Heard w ts ds) {expected : Expected}
    (hds : (s.unexpected expected).diagnostics ⊆ ds) :
    (Expr.error (Span.empty s.here)).Explained ds :=
  ⟨_, hs.mem_report hds, Nat.le_refl _, Nat.le_refl _, hs.kept.placed.current.2.1⟩

/-! ## 3. What is read -/

/-- **What is read is explained.** -/
theorem Reads.explained (h : s.Reads es s') (hs : s.Heard w ts ds) (hds : s'.diagnostics ⊆ ds) :
    ∀ e ∈ es, e.All (Expr.Explained ds) := by
  -- what was reported before is among the reports
  have hbefore : ∀ {s₁ s₂ : ParserState}, s₁.Moves s₂ → s₂.diagnostics ⊆ ds →
      s₁.diagnostics ⊆ ds := fun h hds => List.Subset.trans h.diagnostics.subset hds
  have hleaf : ∀ {e : Expr}, e.children = [] → e.Explained ds → ∀ x ∈ [e], x.All _ :=
    fun hc he => Expr.all_singleton he fun y hy => absurd (hc ▸ hy) List.not_mem_nil
  induction h with
  | none s => exact fun _ h => absurd h List.not_mem_nil
  | @next s₀ s s' es es' sign h hk h' ih ih' =>
    have hahead := s.moves_advance.trans h'.moves
    intro e he
    rcases List.mem_append.mp he with he | he
    · exact ih hs (hbefore hahead hds) e he
    · exact ih' (s.moves_advance.heard (h.moves.heard hs)) hds e he
  | @lacking s₀ s es h ih =>
    intro e he
    rcases List.mem_append.mp he with he | he
    · exact ih hs (hbefore (s.moves_report _) hds) e he
    · exact hleaf rfl ((h.moves.heard hs).explained_missing hds) e he
  | @atom s e he =>
    obtain ⟨hk, -, -, hchildren⟩ := Token.atom?_eq_some he
    refine hleaf hchildren (Token.explained_atom he hs.kept.placed.current.2.1 ?_)
    exact hs.unreadable _ (s.current_mem.resolve_right fun h => hk (h ▸ hs.kept.placed.eofKind))
  | missing s => exact hleaf rfl (hs.explained_missing hds)
  | @useless s hk =>
    have hreport := hs.mem_report (hbefore (moves_advance _) hds)
    exact hleaf rfl ⟨_, hreport, Nat.le_refl _, hs.kept.placed.current.2.1, Nat.le_refl _⟩
  | deep s => exact absurd hds hs.not_giveUp
  | @parens s s₁ s₂ e stop hk h hc ih =>
    exact ih (s.moves_advance.heard hs) (hbefore hc.moves hds)
  | @list s s₁ s₂ items stop hk h hc ih | @set s s₁ s₂ items stop hk h hc ih
  | @map s s₁ s₂ items stop hk h hc ih =>
    exact Expr.all_singleton trivial (ih (s.moves_advance.heard hs) (hbefore hc.moves hds))
  | @property s₀ s target name h hk hn ih =>
    have hahead := s.moves_advance.trans (moves_advance _)
    exact Expr.all_singleton trivial (ih hs (hbefore hahead hds))
  | @nameless s₀ s target h hk ih =>
    have hnext := s.moves_advance.heard (h.moves.heard hs)
    have hahead : s.Moves (s.advance.report s.current.span .missingPropertyName) :=
      s.moves_advance.report s.current_mem (.inl rfl)
    exact Expr.all_singleton ⟨rfl, _, hnext.mem_report hds, rfl, rfl⟩ (ih hs (hbefore hahead hds))
  | @index s₀ s s₁ s₂ target i stop h hk hi hc ih ih'
  | @call s₀ s s₁ s₂ target i stop h hk hi hc ih ih' =>
    have hahead := s.moves_advance.trans (hi.moves.trans hc.moves)
    refine Expr.all_singleton trivial fun x hx => ?_
    rcases List.mem_cons.mp hx with rfl | hx
    · exact ih hs (hbefore hahead hds) x (List.mem_singleton_self _)
    · exact ih' (s.moves_advance.heard (h.moves.heard hs)) (hbefore hc.moves hds) x hx
  | skipped h _ => exact absurd hds (h.moves.heard hs).not_giveUp
  | @unary s s' sign op operand hk h ih =>
    exact Expr.all_singleton trivial (ih (s.moves_advance.heard hs) hds)
  | @binary s₀ s s' sign op left right h hk h' ih ih'
  | @ternary s₀ s s' left yes no h hk h' ih ih' =>
    have hahead := s.moves_advance.trans h'.moves
    refine Expr.all_singleton trivial fun x hx => ?_
    rcases List.mem_cons.mp hx with rfl | hx
    · exact ih hs (hbefore hahead hds) x (List.mem_singleton_self _)
    · exact ih' (s.moves_advance.heard (h.moves.heard hs)) hds x hx
  | @lambda s s' body hl h ih =>
    exact Expr.all_singleton trivial (ih ((moves_lambdaHead hl).heard hs) hds)

/-- The state before anything was read, if no report is of a lack of levels. -/
theorem heard_ofTokens {lo hi : Nat} (h : TokenRow lo ts hi)
    (hshallow : ∀ d ∈ ds, d.problem ≠ .tooDeeplyNested)
    (hunreadable : ∀ t ∈ ts, t.kind = .invalid → ∃ d ∈ ds, d.span = t.span) :
    (ofTokens (ts ++ [Token.eofAt hi])).Heard ⟨lo, hi⟩ ts ds := by
  refine ⟨kept_ofTokens h, hshallow, fun t ht hk => ?_⟩
  have hmem : t ∈ ts ++ [Token.eofAt hi] := (List.takeWhile_sublist _).subset ht
  rcases List.mem_append.mp hmem with hmem | hmem
  · exact hunreadable t hmem hk
  · rw [List.mem_singleton.mp hmem] at hk
    cases hk

end ParserState

/-! ## 4. Texts -/

/-- The tree of a row of tokens is explained by the reports of its tokens and its own. -/
theorem parseTokens_explained {lo hi : Nat} {ts : List Token} {ds : List Diagnostic}
    (h : TokenRow lo ts hi) (hds : (parseTokens (ts ++ [Token.eofAt hi])).diagnostics ⊆ ds)
    (hshallow : ∀ d ∈ ds, d.problem ≠ .tooDeeplyNested)
    (hunreadable : ∀ t ∈ ts, t.kind = .invalid → ∃ d ∈ ds, d.span = t.span) :
    (parseTokens (ts ++ [Token.eofAt hi])).root.All (Expr.Explained ds) := by
  have hs := ParserState.heard_ofTokens h hshallow hunreadable
  obtain ⟨s', hd, ⟨hroot, rfl⟩ | ⟨s₁, hread, hend⟩⟩ :=
    parseTokens_reads (ts ++ [Token.eofAt hi])
  · rw [hd] at hds
    rw [hroot]
    refine .node ⟨_, hs.mem_report hds, Nat.le_refl _, Nat.le_refl _, Nat.le_refl _⟩ ?_
    exact fun _ h => absurd h List.not_mem_nil
  · rw [hd] at hds
    exact hread.explained hs (List.Subset.trans hend.diagnostics.subset hds) _
      (List.mem_singleton_self _)

/-- **Every placeholder of a text is explained**, unless levels ran out: an error node lies in the
    range of a report, and a property without a name has a report of the missing name that ends
    where its name would begin. -/
theorem parseExpression_explained (source : List Char) (n : Nat)
    (hshallow : ∀ d ∈ (parseExpression source n).diagnostics, d.problem ≠ .tooDeeplyNested) :
    (parseExpression source n).root.All
      (Expr.Explained (parseExpression source n).diagnostics) := by
  obtain ⟨ts, htokens, hrow⟩ := exists_tokenRow_lex source n
  have hmem : ∀ d, d ∈ (lex source n).errors.map Diagnostic.ofLexError ∨
      d ∈ (parseTokens (lex source n).tokens).diagnostics →
        d ∈ (parseExpression source n).diagnostics := by
    intro d hd
    rw [parseExpression_eq]
    exact (List.mergeSort_perm _ _).mem_iff.mpr (List.mem_append.mpr hd)
  have hroot : (parseExpression source n).root = (parseTokens (lex source n).tokens).root := by
    rw [parseExpression_eq]
  rw [hroot, htokens]
  refine parseTokens_explained hrow (fun d hd => hmem d (.inr (htokens ▸ hd))) hshallow ?_
  intro t ht hk
  have hlexed : t ∈ (lex source n).tokens := htokens ▸ List.mem_append_left _ ht
  obtain ⟨error, herror, hspan⟩ := (lexFrom_blames 0 n source).2 t hlexed hk
  exact ⟨_, hmem _ (.inl (List.mem_map_of_mem herror)), hspan⟩

/-- In `# ? a.:` a character cannot be read, and a name and a branch are missing. -/
theorem parseExpression_explained_all :
    let parsed := parseExpression ['#', '?', 'a', '.', ':'] 3
    parsed.root = .ternary (.error ⟨3, 4⟩)
        (.property (.identifier "a" ⟨5, 6⟩) none ⟨7, 7⟩ ⟨5, 7⟩) (.error ⟨8, 8⟩) ⟨3, 8⟩ ∧
      parsed.root.All (Expr.Explained parsed.diagnostics) := by
  intro parsed
  have hunsorted : ∀ d ∈ (lex ['#', '?', 'a', '.', ':'] 3).errors.map Diagnostic.ofLexError ++
      (parseTokens (lex ['#', '?', 'a', '.', ':'] 3).tokens).diagnostics,
        d.problem ≠ .tooDeeplyNested := by decide
  have hshallow : ∀ d ∈ parsed.diagnostics, d.problem ≠ .tooDeeplyNested :=
    fun d hd => hunsorted d ((List.mergeSort_perm _ _).mem_iff.mp hd)
  exact ⟨rfl, parseExpression_explained _ _ hshallow⟩

end FlowExpr
