import FlowExpr.Proofs.Expr.Layout
import FlowExpr.Proofs.Expr.Reading
import FlowExpr.Proofs.Token.Order

/-!
# Where the parser puts things

Whatever the tokens are, as long as they follow one another and are not empty, the parser lays
out its tree between their ends. This is what it keeps while it reads:

* `ParserState.Placed w s`: the tokens that are left follow the ones that were taken, and all
  that was reported lies in the range `w`;
* `ParserState.Moves.placed`: whatever is read, the state stays placed and goes on;
* `ParserState.Reads.laid`: what is read is laid out between the token where it begins and the one
  where it stops. Names end where the last taken token ended, which an unclosed construct takes
  for its own end.
-/

namespace FlowExpr

/-! ## 1. Placed states -/

namespace ParserState

/-- The tokens that are left follow one another after the last one that was taken, up to the end
    token; all of it, and all that was reported, lies in a range. -/
structure Placed (w : Span) (s : ParserState) : Prop where
  tokens : TokenRow s.lastEnd s.ahead s.eof.span.start
  eofKind : s.eof.kind = .eof
  eof : s.eof.span.Inside w
  begun : w.start ≤ s.lastEnd
  diagnostics : ∀ d ∈ s.diagnostics, d.span.Inside w

/-- The second state is not before the first. -/
structure Onward (s s' : ParserState) : Prop where
  lastEnd : s.lastEnd ≤ s'.lastEnd
  here : s.here ≤ s'.here

theorem Onward.refl (s : ParserState) : s.Onward s := ⟨Nat.le_refl _, Nat.le_refl _⟩

theorem Onward.trans {s s' s'' : ParserState} (h : s.Onward s') (h' : s'.Onward s'') :
    s.Onward s'' :=
  ⟨Nat.le_trans h.lastEnd h'.lastEnd, Nat.le_trans h.here h'.here⟩

variable {w : Span} {s s' : ParserState}

theorem Placed.lastEnd_le_here (hs : s.Placed w) : s.lastEnd ≤ s.here := by
  have hrow := hs.tokens.row
  unfold here current
  cases hahead : s.ahead with
  | nil =>
    rw [hahead] at hrow
    exact hrow
  | cons t rest =>
    rw [hahead] at hrow
    exact hrow.1

/-- The tokens that are left begin where the next one does. -/
theorem Placed.tokens_here (hs : s.Placed w) : TokenRow s.here s.ahead s.eof.span.start := by
  refine ⟨?_, hs.tokens.nonempty, hs.tokens.noEnd⟩
  have hrow := hs.tokens.row
  unfold here ParserState.current
  cases hahead : s.ahead with
  | nil => exact Nat.le_refl _
  | cons t rest =>
    rw [hahead] at hrow
    exact ⟨Nat.le_refl _, hrow.2⟩

theorem Placed.current (hs : s.Placed w) : s.current.span.Inside w := by
  have hrow := hs.tokens.row
  have hbegun := hs.begun
  obtain ⟨h₁, h₂, h₃⟩ := hs.eof
  unfold ParserState.current
  cases hahead : s.ahead with
  | nil => exact hs.eof
  | cons t rest =>
    rw [hahead] at hrow
    have hrest := hrow.2.2.le
    exact ⟨Nat.le_trans hbegun hrow.1, hrow.2.1, by show t.span.stop ≤ w.stop; omega⟩

/-- A token that is not the end is not empty. -/
theorem Placed.here_lt (hs : s.Placed w) (hk : s.current.kind ≠ .eof) :
    s.here < s.current.span.stop := by
  unfold here ParserState.current at *
  cases hahead : s.ahead with
  | nil =>
    rw [hahead] at hk
    exact absurd hs.eofKind hk
  | cons t rest => exact hs.tokens.nonempty t (hahead ▸ List.mem_cons_self)

/-- A sign is not the end. -/
theorem ne_eof_of_sign {sign : Sign} (hk : s.current.kind = .sign sign) :
    s.current.kind ≠ .eof := by
  rw [hk]
  exact TokenKind.noConfusion

/-- Taking tokens from the front: the last of them is the last one that was taken. -/
theorem Placed.take (hs : s.Placed w) {taken : List Token} (hahead : s.ahead = taken ++ s'.ahead)
    (heof : s'.eof = s.eof)
    (hlast : s'.lastEnd = (taken.getLast?.map fun t => t.span.stop).getD s.lastEnd)
    (hd : s'.diagnostics = s.diagnostics) : s'.Placed w ∧ s.Onward s' := by
  have hrow := hs.tokens.row
  rw [hahead, List.map_append] at hrow
  obtain ⟨htaken, hrest⟩ := hrow.from_last
  have hstop : ((taken.map Token.span).getLast?.map Span.stop).getD s.lastEnd = s'.lastEnd := by
    rw [hlast, List.getLast?_map, Option.map_map]
    rfl
  rw [hstop] at htaken hrest
  have hs' : s'.Placed w := by
    refine ⟨⟨?_, fun t ht => ?_, fun t ht => ?_⟩, heof ▸ hs.eofKind, heof ▸ hs.eof, ?_,
      hd ▸ hs.diagnostics⟩
    · rw [heof]
      exact hrest
    · exact hs.tokens.nonempty t (hahead ▸ List.mem_append_right _ ht)
    · exact hs.tokens.noEnd t (hahead ▸ List.mem_append_right _ ht)
    · exact Nat.le_trans hs.begun htaken.le
  refine ⟨hs', htaken.le, ?_⟩
  cases taken with
  | nil =>
    have hcurrent : s.current = s'.current := by
      unfold ParserState.current
      rw [hahead, heof]
      rfl
    exact Nat.le_of_eq (congrArg (fun t : Token => t.span.start) hcurrent)
  | cons t taken =>
    have hfirst : s.here = t.span.start := by
      unfold here ParserState.current
      rw [hahead]
      rfl
    have hmember := htaken.inside (s := t.span) List.mem_cons_self
    have hle := hs'.lastEnd_le_here
    have hin := hmember.2.1
    have hin' : t.span.stop ≤ s'.lastEnd := hmember.2.2
    omega

theorem Placed.token_inside (hs : s.Placed w) {t : Token} (ht : t ∈ s.ahead ∨ t = s.eof) :
    t.span.Inside w := by
  rcases ht with ht | rfl
  · obtain ⟨h₁, h₂, h₃⟩ := hs.tokens.row.inside (List.mem_map_of_mem ht)
    have heof := hs.eof
    exact ⟨Nat.le_trans hs.begun h₁, h₂, Nat.le_trans h₃ (Nat.le_trans heof.2.1 heof.2.2)⟩
  · exact hs.eof

theorem Placed.report (hs : s.Placed w) {span : Span} (hspan : span.Inside w) (problem : Problem) :
    (s.report span problem).Placed w := by
  unfold ParserState.report
  split
  · exact hs
  · refine ⟨hs.tokens, hs.eofKind, hs.eof, hs.begun, fun d hd => ?_⟩
    rcases List.mem_append.mp hd with hd | hd
    · exact hs.diagnostics d hd
    · rw [List.mem_singleton.mp hd]
      exact hspan

theorem Onward.report (s : ParserState) (span : Span) (problem : Problem) :
    s.Onward (s.report span problem) :=
  ⟨Nat.le_of_eq (s.lastEnd_report span problem).symm,
    Nat.le_of_eq (s.here_report span problem).symm⟩

theorem Placed.giveUp (hs : s.Placed w) : s.giveUp.Placed w ∧ s.Onward s.giveUp := by
  have hreport := hs.report (hs.token_inside s.current_mem) .tooDeeplyNested
  obtain ⟨hskip, hon⟩ := hreport.take (skipped_append_skip _).symm rfl rfl rfl
  exact ⟨hskip, (Onward.report s s.current.span .tooDeeplyNested).trans hon⟩

/-- **Whatever is read, the state stays placed and goes on.** -/
theorem Moves.placed (h : s.Moves s') (hs : s.Placed w) : s'.Placed w ∧ s.Onward s' := by
  induction h with
  | refl => exact ⟨hs, .refl s⟩
  | take _ hahead heof hlast _ hd ih =>
    obtain ⟨hs₁, hon₁⟩ := ih
    obtain ⟨hs₂, hon₂⟩ := hs₁.take hahead heof hlast hd
    exact ⟨hs₂, hon₁.trans hon₂⟩
  | @report s₁ t span problem _ ht hspan ih =>
    obtain ⟨hs₁, hon₁⟩ := ih
    have hin := hs.token_inside ht
    refine ⟨hs₁.report ?_ problem, hon₁.trans (.report s₁ span problem)⟩
    rcases hspan with rfl | rfl
    · exact hin
    · exact hin.empty_start
  | giveUp _ ih =>
    obtain ⟨hs₁, hon₁⟩ := ih
    obtain ⟨hs₂, hon₂⟩ := hs₁.giveUp
    exact ⟨hs₂, hon₁.trans hon₂⟩

/-- A token that is not the end is left behind. -/
theorem Placed.advance (hs : s.Placed w) (hk : s.current.kind ≠ .eof) :
    s.advance.Placed w ∧ s.Onward s.advance ∧ s.here < s.advance.lastEnd ∧
      s.here < s.advance.here ∧ s.advance.lastEnd = s.current.span.stop := by
  obtain ⟨hs₁, hon⟩ := s.moves_advance.placed hs
  have hlast : s.advance.lastEnd = s.current.span.stop := by
    unfold ParserState.advance ParserState.current at *
    cases hahead : s.ahead with
    | nil =>
      rw [hahead] at hk
      exact absurd hs.eofKind hk
    | cons t rest => rfl
  have hlt := hs.here_lt hk
  have hle := hs₁.lastEnd_le_here
  exact ⟨hs₁, hon, by omega, by omega, hlast⟩

/-- Where a construct ends is where the last taken token ends. -/
theorem Closes.stop_eq {sign : Sign} {delimiter : Char} {stop : Nat}
    (h : s.Closes sign delimiter stop s') (hs : s.Placed w) : stop = s'.lastEnd := by
  cases h with
  | closed hk => exact (hs.advance (ne_eof_of_sign hk)).2.2.2.2.symm
  | unclosed => exact (s.lastEnd_report _ _).symm

end ParserState

/-! ## 2. Lambda heads -/

/-- Between any two names in a row there is a comma. -/
theorem NameRow.spaced {ts : List Token} {names : List String} (h : NameRow ts names)
    {right : Token} (hr : right.kind = .sign .rParen) {lo hi : Nat}
    (hts : TokenRow lo (ts ++ [right]) hi) :
    Param.Spaced lo hi (Parser.headParams (ts ++ [right])) := by
  induction h generalizing lo with
  | @last t name h =>
    have hparams : Parser.headParams [t, right] = [⟨name, t.span⟩] := by
      simp only [Parser.headParams, h, hr]
    have hin := hts.row.inside List.mem_cons_self
    rw [List.singleton_append, hparams]
    exact (Param.spaced_nil _ hi).cons hin (Nat.lt_succ_self _)
  | @cons t comma ts name names h hc _ ih =>
    have hparams : Parser.headParams (t :: comma :: (ts ++ [right])) =
        ⟨name, t.span⟩ :: Parser.headParams (ts ++ [right]) := by
      simp only [Parser.headParams, h, hc]
    have hin := hts.row.inside List.mem_cons_self
    have hcomma := hts.nonempty comma (by simp)
    have hnext := hts.tail.row.1
    rw [List.cons_append, List.cons_append, hparams]
    exact (ih hts.tail.tail).cons hin (by dsimp only; omega)

/-- **The parameters of a lambda** stand before its arrow, with gaps between them. -/
theorem LambdaHead.spaced {front : List Token} {arrow : Token} {names : List String}
    (h : LambdaHead (front ++ [arrow]) names) {lo hi : Nat} (hts : TokenRow lo front hi) :
    Param.Spaced lo hi (Parser.headParams front) := by
  generalize hhead : front ++ [arrow] = head at h
  cases h with
  | @bare t arrow' name h ha =>
    have hsplit : front ++ [arrow] = [t] ++ [arrow'] := hhead
    obtain ⟨rfl, -⟩ := List.append_inj' hsplit rfl
    have hparams : Parser.headParams [t] = [⟨name, t.span⟩] := by
      simp only [Parser.headParams, h]
    rw [hparams]
    exact (Param.spaced_nil _ hi).cons (hts.row.inside List.mem_cons_self) (Nat.lt_succ_self _)
  | @empty left right arrow' hl hr ha =>
    have hsplit : front ++ [arrow] = [left, right] ++ [arrow'] := hhead
    obtain ⟨rfl, -⟩ := List.append_inj' hsplit rfl
    have hparams : Parser.headParams [left, right] = [] := by
      simp only [Parser.headParams, hl, hr]
    rw [hparams]
    exact Param.spaced_nil lo hi
  | @row left right arrow' ts _ hl h hr ha =>
    have hsplit : front ++ [arrow] = (left :: (ts ++ [right])) ++ [arrow'] := by
      rw [hhead]
      simp
    obtain ⟨rfl, -⟩ := List.append_inj' hsplit rfl
    have hparams : Parser.headParams (left :: (ts ++ [right])) =
        Parser.headParams (ts ++ [right]) := by
      simp only [Parser.headParams, hl]
    rw [hparams]
    have hle := hts.row.1
    have hle' := hts.row.2.1
    exact (h.spaced hr hts.tail).mono (Nat.le_trans hle hle')

/-- The parameters stand before what follows the head. -/
theorem ParserState.Placed.lambdaHead {w : Span} {s : ParserState} (hs : s.Placed w)
    (h : Parser.lambdaAhead s.ahead = true) :
    ∃ stop, s.here ≤ stop ∧ stop < (Parser.lambdaHead.run s).2.here ∧
      Param.Spaced s.here stop (Parser.lambdaHead.run s).1 := by
  obtain ⟨hs', -⟩ := (moves_lambdaHead h).placed hs
  obtain ⟨head, names, rest, hahead, hh⟩ := exists_lambdaHead h
  obtain ⟨front, arrow, rfl, ha, hf, -⟩ := hh.exists_arrow
  have hsplit : s.ahead = front ++ arrow :: rest := by
    rw [hahead, List.append_assoc]
    rfl
  have hrun := run_lambdaHead hsplit ha hf
  have hrow := hs.tokens_here.row
  rw [hsplit, List.map_append] at hrow
  obtain ⟨mid, hfront, hback⟩ := hrow.of_append
  have hmember : ∀ t ∈ front, t ∈ s.ahead := fun t ht => hsplit ▸ List.mem_append_left _ ht
  have htokens : TokenRow s.here front arrow.span.start :=
    ⟨hfront.mono (Nat.le_refl _) hback.1, fun t ht => hs.tokens.nonempty t (hmember t ht),
      fun t ht => hs.tokens.noEnd t (hmember t ht)⟩
  have harrow := hs.tokens.nonempty arrow (by rw [hsplit]; simp)
  have hlast : (Parser.lambdaHead.run s).2.lastEnd = arrow.span.stop := by rw [hrun]
  have hle := hs'.lastEnd_le_here
  refine ⟨arrow.span.start, htokens.row.le, by omega, ?_⟩
  rw [hrun]
  exact hh.spaced htokens

/-! ## 3. What is read -/

namespace ParserState

variable {w : Span} {s s' : ParserState} {es : List Expr}

/-- **What is read is laid out** between the token where it begins and the one where it stops. -/
theorem Reads.laid (h : s.Reads es s') (hs : s.Placed w) :
    Expr.Laid s.here s'.lastEnd s'.here es := by
  induction h with
  | none s => exact .nil
  | @next s₀ s s' es es' sign h hk h' ih ih' =>
    obtain ⟨hs₁, hon₁⟩ := h.moves.placed hs
    obtain ⟨hs₂, hon₂, -, hgap, -⟩ := hs₁.advance (ne_eof_of_sign hk)
    obtain ⟨-, hon₃⟩ := h'.moves.placed hs₂
    exact (ih hs).append (ih' hs₂) hon₁.here hgap hon₃.here (hon₂.trans hon₃).lastEnd
  | @lacking s₀ s es h ih =>
    obtain ⟨-, hon⟩ := h.moves.placed hs
    unfold unexpected
    rw [lastEnd_report, here_report]
    exact (ih hs).append_missing hon.here
  | @atom s e he =>
    obtain ⟨hk, hspan, hleaves, hchildren⟩ := Token.atom?_eq_some he
    have hne := hs.here_lt hk
    obtain ⟨hs₁, -, -, -, hlast⟩ := hs.advance hk
    have hle := hs₁.lastEnd_le_here
    refine .leaf hleaves hchildren ?_ fun t ht => ?_
    · rw [hspan]
      exact ⟨Nat.le_refl _, Nat.le_of_lt hne, by show s.current.span.stop ≤ s.advance.here; omega⟩
    · have hname := e.names_subset_leaves ht
      rw [hleaves, List.mem_singleton] at hname
      rw [hname, hspan]
      exact ⟨rfl, hne, Nat.le_of_eq hlast.symm⟩
  | missing s =>
    unfold unexpected
    rw [lastEnd_report, here_report]
    exact .missing (Nat.le_refl _) (Nat.le_refl _)
  | @useless s hk =>
    have hne := hs.here_lt hk
    have hs' := hs.report (hs.token_inside s.current_mem)
      (.unexpectedToken .expression s.current.kind)
    rw [← s.current_unexpected .expression] at hk
    obtain ⟨hs₁, -, -, -, hlast⟩ := hs'.advance hk
    have hle := hs₁.lastEnd_le_here
    have hcurrent := s.current_unexpected .expression
    refine .leaf rfl rfl ⟨Nat.le_refl _, Nat.le_of_lt hne, ?_⟩
      fun _ h => absurd h List.not_mem_nil
    show s.current.span.stop ≤ (s.unexpected .expression).advance.here
    rw [← hcurrent]
    exact hlast ▸ hle
  | deep s =>
    obtain ⟨hs₁, hon⟩ := hs.giveUp
    refine .leaf rfl rfl ⟨Nat.le_refl _, Nat.le_max_right _ _, ?_⟩
      fun _ h => absurd h List.not_mem_nil
    exact Nat.max_le.mpr ⟨hs₁.lastEnd_le_here, hon.here⟩
  | @parens s s₁ s₂ e stop hk h hc ih =>
    obtain ⟨hs₁, hon₁, -, -, -⟩ := hs.advance (ne_eof_of_sign hk)
    obtain ⟨hs₂, -⟩ := h.moves.placed hs₁
    obtain ⟨-, hon₃⟩ := hc.moves.placed hs₂
    exact (ih hs₁).mono hon₁.here hon₃.lastEnd hon₃.here
  | @list s s₁ s₂ items stop hk h hc ih | @set s s₁ s₂ items stop hk h hc ih
  | @map s s₁ s₂ items stop hk h hc ih =>
    obtain ⟨hs₁, hon₁, hlt, -, -⟩ := hs.advance (ne_eof_of_sign hk)
    obtain ⟨hs₂, hon₂⟩ := h.moves.placed hs₁
    obtain ⟨hs₃, hon₃⟩ := hc.moves.placed hs₂
    obtain rfl := hc.stop_eq hs₂
    have hlast := (hon₂.trans hon₃).lastEnd
    exact Expr.Laid.bracketed ((ih hs₁).mono (Nat.le_refl _) hon₃.lastEnd hon₃.here) rfl rfl
      hon₁.here (by omega) hs₃.lastEnd_le_here
  | @property s₀ s target name h hk hn ih =>
    obtain ⟨hs₁, -⟩ := h.moves.placed hs
    obtain ⟨hs₂, hon₂, -, hgap, -⟩ := hs₁.advance (ne_eof_of_sign hk)
    have hname := (Token.readable_of_memberName hn).1
    have hne := hs₂.here_lt hname
    obtain ⟨hs₃, hon₃, -, -, hlast⟩ := hs₂.advance hname
    have hle := hs₃.lastEnd_le_here
    exact (ih hs).property hgap (Nat.le_of_lt hne) (by omega) (hon₂.trans hon₃).lastEnd
      fun _ => ⟨hne, by omega⟩
  | @nameless s₀ s target h hk ih =>
    obtain ⟨hs₁, -⟩ := h.moves.placed hs
    have hgap := hs₁.here_lt (ne_eof_of_sign hk)
    obtain ⟨hs₂, hon₂, -, -, hlast⟩ := hs₁.advance (ne_eof_of_sign hk)
    have hle := hs₂.lastEnd_le_here
    rw [lastEnd_report, here_report]
    exact (ih hs).property hgap (Nat.le_refl _) (hlast ▸ hle) hon₂.lastEnd nofun
  | @index s₀ s s₁ s₂ target i stop h hk hi hc ih ih'
  | @call s₀ s s₁ s₂ target i stop h hk hi hc ih ih' =>
    obtain ⟨hs₁, -⟩ := h.moves.placed hs
    obtain ⟨hs₂, hon₂, hlt, hgap, -⟩ := hs₁.advance (ne_eof_of_sign hk)
    obtain ⟨hs₃, hon₃⟩ := hi.moves.placed hs₂
    obtain ⟨hs₄, hon₄⟩ := hc.moves.placed hs₃
    obtain rfl := hc.stop_eq hs₃
    have hlast := (hon₃.trans hon₄).lastEnd
    exact (ih hs).extended ((ih' hs₂).mono (Nat.le_refl _) hon₄.lastEnd hon₄.here) rfl rfl rfl
      hgap (hon₂.trans (hon₃.trans hon₄)).lastEnd (by omega) hs₄.lastEnd_le_here
      (hon₃.trans hon₄).here
  | skipped h ih =>
    obtain ⟨-, hon⟩ := (h.moves.placed hs).1.giveUp
    exact (ih hs).mono (Nat.le_refl _) hon.lastEnd hon.here
  | @unary s s' sign op operand hk h ih =>
    obtain ⟨hs₁, hon₁, -, -, -⟩ := hs.advance (ne_eof_of_sign hk)
    exact (ih hs₁).unary hon₁.here op
  | @binary s₀ s s' sign op left right h hk h' ih ih' =>
    obtain ⟨hs₁, -⟩ := h.moves.placed hs
    obtain ⟨hs₂, hon₂, -, hgap, -⟩ := hs₁.advance (ne_eof_of_sign hk)
    obtain ⟨-, hon₃⟩ := h'.moves.placed hs₂
    exact (ih hs).joined (ih' hs₂) hgap (hon₂.trans hon₃).lastEnd op
  | @ternary s₀ s s' condition yes no h hk h' ih ih' =>
    obtain ⟨hs₁, -⟩ := h.moves.placed hs
    obtain ⟨hs₂, hon₂, -, hgap, -⟩ := hs₁.advance (ne_eof_of_sign hk)
    obtain ⟨-, hon₃⟩ := h'.moves.placed hs₂
    exact (ih hs).ternary (ih' hs₂) hgap (hon₂.trans hon₃).lastEnd
  | @lambda s s' body hl h ih =>
    obtain ⟨stop, hlo, hgap, hspaced⟩ := hs.lambdaHead hl
    exact (ih ((moves_lambdaHead hl).placed hs).1).lambda hspaced hlo hgap

end ParserState

/-! ## 4. Whole inputs -/

namespace Parser

/-- What follows an expression is reported and skipped. -/
theorem ends_trailing {s : ParserState} : Ends s trailing fun s' _ => s.Moves s' := by
  have hfinish : ∀ s₁ : ParserState, s.Moves s₁ → s.Moves s₁.finish := fun s₁ h =>
    h.take (List.append_nil s₁.ahead).symm rfl rfl rfl rfl
  refine ends_current ?_
  split
  · exact hfinish s .refl
  · exact hfinish s .refl
  · exact hfinish _ (s.moves_report _)
  · exact hfinish _ (s.moves_report _)

end Parser

/-- **A whole input** is empty, or one expression is read. -/
theorem parseTokens_reads (tokens : List Token) :
    let s := ParserState.ofTokens tokens
    ∃ s', (parseTokens tokens).diagnostics = s'.diagnostics ∧
      ((parseTokens tokens).root = .error (Span.empty s.here) ∧
          s' = s.report (Span.empty s.here) .emptyExpression ∨
        ∃ s₁, s.Reads [(parseTokens tokens).root] s₁ ∧ s₁.Moves s') := by
  intro s
  have hends : Parser.Ends s Parser.whole fun s' e =>
      e = .error (Span.empty s.here) ∧ s' = s.report (Span.empty s.here) .emptyExpression ∨
        ∃ s₁, s.Reads [e] s₁ ∧ s₁.Moves s' := by
    refine Parser.ends_current ?_
    split
    · exact .inl ⟨rfl, rfl⟩
    · refine Parser.Ends.bind ((Rules.follows_withBudget maxDepth).body s) fun e s₁ he => ?_
      exact Parser.Ends.bind Parser.ends_trailing fun _ _ h => .inr ⟨s₁, he, h⟩
  exact ⟨_, rfl, hends⟩

/-- The state before anything was read. -/
theorem ParserState.placed_ofTokens {lo hi : Nat} {ts : List Token} (h : TokenRow lo ts hi) :
    (ofTokens (ts ++ [Token.eofAt hi])).Placed ⟨lo, hi⟩ := by
  have hat := at_ofTokens_append h.noEnd [Token.eofAt hi] rfl
  have hahead := hat.ahead
  have heof : (ofTokens (ts ++ [Token.eofAt hi])).eof = Token.eofAt hi := by
    have hnone : ts.find? Token.isEof = none :=
      List.find?_eq_none.mpr fun t ht => by simp [Token.isEof, h.noEnd t ht]
    simp [ofTokens, List.find?_append, hnone, Token.eofAt, Token.isEof]
  have hlast : (ofTokens (ts ++ [Token.eofAt hi])).lastEnd =
      (((ofTokens (ts ++ [Token.eofAt hi])).ahead).headD
        (ofTokens (ts ++ [Token.eofAt hi])).eof).span.start := rfl
  rw [hahead, heof] at hlast
  have hrow := h.row
  have hfirst : lo ≤ (ts.headD (Token.eofAt hi)).span.start ∧
      Span.Row (ts.headD (Token.eofAt hi)).span.start (ts.map Token.span) hi := by
    cases ts with
    | nil => exact ⟨hrow, Nat.le_refl hi⟩
    | cons t ts => exact ⟨hrow.1, Nat.le_refl _, hrow.2⟩
  refine ⟨⟨?_, ?_, ?_⟩, ?_, ?_, ?_, fun d hd => absurd hd List.not_mem_nil⟩
  · rw [hahead, heof, hlast]
    exact hfirst.2
  · rw [hahead]
    exact h.nonempty
  · rw [hahead]
    exact h.noEnd
  · exact hat.eof
  · rw [heof]
    exact ⟨h.row.le, Nat.le_refl _, Nat.le_refl _⟩
  · rw [hlast]
    exact hfirst.1

/-- **The parser lays out its tree between the ends of its tokens**, and reports nothing outside
    of them. -/
theorem parseTokens_laid {lo hi : Nat} {ts : List Token} (h : TokenRow lo ts hi) :
    (∃ last, Expr.Laid lo last hi [(parseTokens (ts ++ [Token.eofAt hi])).root]) ∧
      ∀ d ∈ (parseTokens (ts ++ [Token.eofAt hi])).diagnostics, d.span.Inside ⟨lo, hi⟩ := by
  have hs := ParserState.placed_ofTokens h
  have hempty := hs.current.empty_start
  obtain ⟨s', hd, ⟨hroot, rfl⟩ | ⟨s₁, hread, hend⟩⟩ :=
    parseTokens_reads (ts ++ [Token.eofAt hi])
  · rw [hroot, hd]
    exact ⟨⟨0, .missing hempty.1 hempty.2.2⟩, (hs.report hempty _).diagnostics⟩
  · have hs₁ := (hread.moves.placed hs).1
    rw [hd]
    exact ⟨⟨_, (hread.laid hs).mono hempty.1 (Nat.le_refl _) hs₁.current.empty_start.2.2⟩,
      (hend.placed hs₁).1.diagnostics⟩

end FlowExpr
