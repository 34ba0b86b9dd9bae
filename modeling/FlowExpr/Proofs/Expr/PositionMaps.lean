import FlowExpr.Proofs.Expr.Grammar
import FlowExpr.Proofs.Token.Lexer
import Mathlib

/-!
# Parsing commutes with position maps

Places can be moved before parsing or after it. A run of the parser on moved tokens is, step
for step, the run on the tokens themselves with every place moved:

* `ParserState.relocate`: the state of the second run, given that of the first;
* `Parser.Moved f g p q`: the parser `q` does in every moved state what `p` does in the state
  itself, and its value is that of `p` moved by `g`;
* `Rules.Moved`: all rules of a budget do so. The map has to keep the order of offsets, since
  ranges are joined with least and greatest ends.

From this `parseMapped` is `parseExpression` with its places moved, and a text further on in
its document is the moved text.
-/

namespace FlowExpr

/-! ## 1. Moved states -/

theorem Token.eq_of_relocate {f : Nat → Nat} {t : Token} {kind : TokenKind} {text : String}
    {span : Span} (h : t.relocate f = ⟨kind, text, span⟩) : t = ⟨kind, text, t.span⟩ := by
  obtain ⟨k, x, s⟩ := t
  cases h
  rfl

/-- The state with every place moved. -/
def ParserState.relocate (f : Nat → Nat) (s : ParserState) : ParserState where
  ahead := s.ahead.map (Token.relocate f)
  eof := s.eof.relocate f
  lastEnd := f s.lastEnd
  truncated := s.truncated
  diagnostics := s.diagnostics.map (Diagnostic.relocate f)

namespace ParserState

variable (f : Nat → Nat) (s : ParserState)

theorem current_relocate : (s.relocate f).current = s.current.relocate f := by
  unfold current relocate
  cases s.ahead with
  | nil => rfl
  | cons t rest => rfl

theorem advance_relocate : (s.relocate f).advance = s.advance.relocate f := by
  unfold advance relocate
  cases h : s.ahead with
  | nil => simp [h]
  | cons t rest => simp

theorem report_relocate (span : Span) (problem : Problem) :
    (s.relocate f).report (span.relocate f) (problem.relocate f) =
      (s.report span problem).relocate f := by
  have ht : (s.relocate f).truncated = s.truncated := rfl
  unfold report
  rw [ht]
  by_cases h : s.truncated = true
  · rw [if_pos h, if_pos h]
  · rw [if_neg h, if_neg h]
    simp [relocate, Diagnostic.relocate]

/-- Where a row of tokens ends, or else where the token before it did. -/
theorem lastEnd_relocate (ts : List Token) (lastEnd : Nat) :
    ((ts.map (Token.relocate f)).getLast?.map fun t => t.span.stop).getD (f lastEnd) =
      f ((ts.getLast?.map fun t => t.span.stop).getD lastEnd) := by
  rw [List.getLast?_map]
  cases ts.getLast? with
  | none => rfl
  | some t => rfl

theorem skipped_relocate : ∀ (depth : Nat) (ts : List Token),
    skipped depth (ts.map (Token.relocate f)) = (skipped depth ts).map (Token.relocate f)
  | _, [] => rfl
  | depth, t :: rest => by
      rw [List.map_cons]
      unfold skipped
      rw [Token.relocate_kind]
      split
      · rename_i sign hk
        by_cases ho : sign.isOpening = true
        · rw [if_pos ho, if_pos ho, skipped_relocate (depth + 1) rest]
          rfl
        · rw [if_neg ho, if_neg ho]
          by_cases hc : sign.isClosing = true
          · rw [if_pos hc, if_pos hc]
            cases depth with
            | zero => rfl
            | succ depth =>
              dsimp only
              rw [skipped_relocate depth rest]
              rfl
          · rw [if_neg hc, if_neg hc, skipped_relocate depth rest]
            rfl
      · rw [skipped_relocate depth rest]
        rfl

theorem skip_relocate : (s.relocate f).skip = s.skip.relocate f := by
  unfold skip
  simp only [relocate, skipped_relocate, List.length_map, List.map_drop, lastEnd_relocate]
  rw [← List.map_drop, List.isEmpty_map]

theorem finish_relocate : (s.relocate f).finish = s.finish.relocate f := by
  simp only [finish, relocate, lastEnd_relocate, List.map_nil]

end ParserState

namespace Parser

/-! ## 2. Moved runs -/

variable {α β γ δ : Type} {f : Nat → Nat}

/-- Run in a moved state, `q` does what `p` does in the state itself. -/
def Moved (f : Nat → Nat) (g : α → β) (p : Parser α) (q : Parser β) : Prop :=
  ∀ s, q.run (s.relocate f) = (g (p.run s).1, (p.run s).2.relocate f)

theorem moved_pure {g : α → β} {a : α} {b : β} (h : b = g a) :
    Moved f g (pure a) (pure b) := by
  rw [h]
  exact fun _ => rfl

theorem Moved.bind {g : α → β} {g' : γ → δ} {p : Parser α} {q : Parser β}
    {k : α → Parser γ} {k' : β → Parser δ} (h : Moved f g p q)
    (hk : ∀ a, Moved f g' (k a) (k' (g a))) : Moved f g' (p >>= k) (q >>= k') := by
  intro s
  show (k' (q.run (s.relocate f)).1).run (q.run (s.relocate f)).2 = _
  rw [h s]
  exact hk (p.run s).1 (p.run s).2

theorem moved_current : Moved f (Token.relocate f) current current := by
  intro s
  show ((s.relocate f).current, s.relocate f) = _
  rw [ParserState.current_relocate]
  rfl

theorem moved_get : Moved f (ParserState.relocate f) get get := fun _ => rfl

theorem moved_set {s s' : ParserState} (h : s' = s.relocate f) :
    Moved f id (set s : Parser Unit) (set s') := by
  rw [h]
  exact fun _ => rfl

theorem moved_modify {u : ParserState → ParserState}
    (h : ∀ s : ParserState, u (s.relocate f) = (u s).relocate f) :
    Moved f id (modify u : Parser Unit) (modify u) := by
  intro s
  show ((), u (s.relocate f)) = _
  rw [h s]
  rfl

theorem moved_advance : Moved f id advance advance :=
  moved_modify fun s => s.advance_relocate f

theorem moved_report (span : Span) (problem : Problem) :
    Moved f id (report span problem) (report (span.relocate f) (problem.relocate f)) := by
  intro s
  show ((), (s.relocate f).report _ _) = _
  rw [ParserState.report_relocate]
  rfl

theorem moved_unexpected (expected : Expected) :
    Moved f id (unexpected expected) (unexpected expected) := by
  refine moved_modify fun s => ?_
  rw [ParserState.current_relocate]
  exact s.report_relocate f _ (.unexpectedToken expected s.current.kind)

theorem moved_eat (sign : Sign) : Moved f id (eat sign) (eat sign) := by
  refine Moved.bind moved_current fun token => ?_
  rw [Token.relocate_kind]
  split
  · exact Moved.bind moved_advance fun _ => moved_pure rfl
  · exact moved_pure rfl

/-- The answer is an offset, so it moves too. -/
theorem moved_closing (sign : Sign) (delimiter : Char) :
    Moved f f (closing sign delimiter) (closing sign delimiter) := by
  refine Moved.bind moved_current fun token => Moved.bind (moved_eat sign) fun taken => ?_
  cases taken with
  | true => exact moved_pure rfl
  | false =>
    refine Moved.bind (moved_report (Span.empty token.span.start) (.unclosed delimiter)) fun _ => ?_
    exact Moved.bind moved_get fun s => moved_pure rfl

theorem moved_tooDeep (hf : Monotone f) : Moved f (Expr.relocate f) tooDeep tooDeep := by
  refine Moved.bind moved_current fun token => ?_
  refine Moved.bind (moved_report token.span .tooDeeplyNested) fun _ => ?_
  refine Moved.bind (moved_modify fun s => s.skip_relocate f) fun _ => ?_
  refine Moved.bind moved_get fun s => moved_pure ?_
  show Expr.error ⟨f token.span.start, max (f s.lastEnd) (f token.span.start)⟩ = _
  rw [← hf.map_max]
  rfl

theorem moved_afterCommasUpTo {g : α → α} {item : Parser α} (h : Moved f g item item) :
    ∀ n, Moved f (List.map g) (afterCommasUpTo item n) (afterCommasUpTo item n)
  | 0 => moved_pure rfl
  | n + 1 => by
      refine Moved.bind (moved_eat .comma) fun taken => ?_
      cases taken with
      | true =>
        refine Moved.bind h fun first => ?_
        exact Moved.bind (moved_afterCommasUpTo h n) fun others => moved_pure rfl
      | false => exact moved_pure rfl

theorem moved_afterCommas {g : α → α} {item : Parser α} (h : Moved f g item item) :
    Moved f (List.map g) (afterCommas item) (afterCommas item) := by
  refine Moved.bind moved_get fun s => ?_
  show Moved f _ _ (afterCommasUpTo item (s.ahead.map (Token.relocate f)).length)
  rw [List.length_map]
  exact moved_afterCommasUpTo h _

theorem moved_commaSeparated {g : α → α} {item : Parser α} (h : Moved f g item item)
    (close : Sign) : Moved f (List.map g) (commaSeparated item close)
      (commaSeparated item close) := by
  refine Moved.bind moved_current fun token => ?_
  rw [Token.relocate_kind]
  split
  · exact moved_pure rfl
  · refine Moved.bind h fun first => ?_
    exact Moved.bind (moved_afterCommas h) fun others => moved_pure rfl

/-! ## 3. Lambda heads -/

/-- A head is recognised by its kinds alone. -/
theorem namesThenArrow_relocate (ts : List Token) :
    namesThenArrow (ts.map (Token.relocate f)) = namesThenArrow ts := by
  fun_induction namesThenArrow ts with
  | case1 _ _ _ _ _ rest ih => exact ih
  | case2 => rfl
  | case3 ts h₁ h₂ =>
    -- a pattern that the moved tokens match is one that the tokens match
    unfold namesThenArrow
    split
    · rename_i heq
      obtain ⟨t, us, rfl, ht, hus⟩ := List.map_eq_cons_iff.mp heq
      obtain ⟨u, vs, rfl, hu, -⟩ := List.map_eq_cons_iff.mp hus
      rw [Token.eq_of_relocate ht, Token.eq_of_relocate hu] at h₁
      exact absurd rfl (h₁ _ _ _ _ _ _)
    · rename_i heq
      obtain ⟨t, us, rfl, ht, hus⟩ := List.map_eq_cons_iff.mp heq
      obtain ⟨u, vs, rfl, hu, hvs⟩ := List.map_eq_cons_iff.mp hus
      obtain ⟨v, ws, rfl, hv, -⟩ := List.map_eq_cons_iff.mp hvs
      rw [Token.eq_of_relocate ht, Token.eq_of_relocate hu, Token.eq_of_relocate hv] at h₂
      exact absurd rfl (h₂ _ _ _ _ _ _ _ _)
    · rfl

theorem lambdaAhead_relocate (ts : List Token) :
    lambdaAhead (ts.map (Token.relocate f)) = lambdaAhead ts := by
  fun_cases lambdaAhead ts with
  | case1 => rfl
  | case2 => rfl
  | case3 text span rest h =>
    unfold lambdaAhead
    split
    · rename_i heq
      cases heq
    · rename_i heq
      obtain ⟨t, us, hts, ht, hus⟩ := List.map_eq_cons_iff.mp heq
      obtain ⟨-, rfl⟩ := List.cons.inj hts
      obtain ⟨u, vs, rfl, hu, hvs⟩ := List.map_eq_cons_iff.mp hus
      obtain ⟨v, ws, rfl, hv, -⟩ := List.map_eq_cons_iff.mp hvs
      rw [Token.eq_of_relocate hu, Token.eq_of_relocate hv] at h
      exact absurd rfl (h _ _ _ _ _)
    · rename_i heq
      obtain ⟨-, hrest⟩ := List.cons.inj heq
      rw [← hrest]
      exact namesThenArrow_relocate rest
    · rename_i hne
      exact absurd rfl (hne _ _ _)
  | case4 ts h₁ h₂ h₃ =>
    unfold lambdaAhead
    split
    · rename_i heq
      obtain ⟨t, us, rfl, ht, hus⟩ := List.map_eq_cons_iff.mp heq
      obtain ⟨u, vs, rfl, hu, -⟩ := List.map_eq_cons_iff.mp hus
      rw [Token.eq_of_relocate ht, Token.eq_of_relocate hu] at h₁
      exact absurd rfl (h₁ _ _ _ _ _ _)
    · rename_i heq
      obtain ⟨t, us, rfl, ht, -⟩ := List.map_eq_cons_iff.mp heq
      rw [Token.eq_of_relocate ht] at h₃
      exact absurd rfl (h₃ _ _ _)
    · rename_i heq
      obtain ⟨t, us, rfl, ht, -⟩ := List.map_eq_cons_iff.mp heq
      rw [Token.eq_of_relocate ht] at h₃
      exact absurd rfl (h₃ _ _ _)
    · rfl

theorem headParams_relocate : ∀ ts : List Token,
    headParams (ts.map (Token.relocate f)) = (headParams ts).map (Param.relocate f)
  | [] => rfl
  | t :: rest => by
      rw [List.map_cons]
      unfold headParams
      rw [Token.relocate_kind]
      split
      · rfl
      · rw [headParams_relocate rest]
        rfl
      · exact headParams_relocate rest

theorem moved_lambdaHead : Moved f (List.map (Param.relocate f)) lambdaHead lambdaHead := by
  refine Moved.bind moved_get fun s => ?_
  have htake : (s.ahead.map (Token.relocate f)).takeWhile (fun t => t.kind ≠ .sign .arrow) =
      (s.ahead.takeWhile fun t => t.kind ≠ .sign .arrow).map (Token.relocate f) := by
    rw [List.takeWhile_map]
    rfl
  have hahead : (s.relocate f).ahead = s.ahead.map (Token.relocate f) := rfl
  dsimp only
  rw [hahead, htake]
  generalize s.ahead.takeWhile (fun t => t.kind ≠ .sign .arrow) = head
  refine Moved.bind (moved_set ?_) fun _ => moved_pure (headParams_relocate head)
  rw [List.length_map, List.getElem?_map, ← List.map_drop]
  unfold ParserState.relocate
  cases s.ahead[head.length]? with
  | none => rfl
  | some t => rfl

end Parser

/-! ## 4. Moved rules -/

open FlowExpr.Parser FlowExpr.Rules

/-- All rules do in a moved state what they do in the state itself. -/
structure Rules.Moved (f : Nat → Nat) (r : Rules) : Prop where
  body : Parser.Moved f (Expr.relocate f) r.body r.body
  unary : Parser.Moved f (Expr.relocate f) r.unary r.unary
  access : ∀ e, Parser.Moved f (Expr.relocate f) (r.access e) (r.access (e.relocate f))
  chain : ∀ l op left,
    Parser.Moved f (Expr.relocate f) (r.chain l op left) (r.chain l op (left.relocate f))

section Level

variable {f : Nat → Nat} {r : Rules}

theorem Rules.moved_exhausted (hf : Monotone f) : Rules.Moved f exhausted where
  body := moved_tooDeep hf
  unary := moved_tooDeep hf
  access _ := Moved.bind (moved_tooDeep hf) fun _ => moved_pure rfl
  chain _ op left := Moved.bind (moved_tooDeep hf) fun e =>
    moved_pure (Expr.relocate_joined hf op left e).symm

theorem moved_postfixes (hr : Rules.Moved f r) (e : Expr) :
    Parser.Moved f (Expr.relocate f) (r.postfixes e) (r.postfixes (e.relocate f)) := by
  refine Moved.bind moved_current fun token => ?_
  rw [Token.relocate_kind]
  split
  · exact hr.access e
  · exact hr.access e
  · exact hr.access e
  · exact moved_pure rfl

theorem moved_member (target : Expr) :
    Parser.Moved f (Expr.relocate f) (member target) (member (target.relocate f)) := by
  refine Moved.bind moved_current fun dot => Moved.bind moved_advance fun _ => ?_
  refine Moved.bind moved_current fun token => ?_
  rw [Token.relocate_memberName?]
  split
  · refine Moved.bind moved_advance fun _ => moved_pure ?_
    rw [Expr.span_relocate]
    rfl
  · refine Moved.bind (moved_report dot.span .missingPropertyName) fun _ => moved_pure ?_
    rw [Expr.span_relocate]
    rfl

theorem moved_onePostfix (hr : Rules.Moved f r) (e : Expr) :
    Parser.Moved f (Expr.relocate f) (r.onePostfix e) (r.onePostfix (e.relocate f)) := by
  refine Moved.bind moved_current fun token => ?_
  rw [Token.relocate_kind]
  split
  · exact Moved.bind (moved_member e) fun e => moved_postfixes hr e
  · refine Moved.bind moved_advance fun _ => Moved.bind hr.body fun i => ?_
    refine Moved.bind (moved_closing .rBracket ']') fun stop => ?_
    rw [Expr.span_relocate]
    exact moved_postfixes hr (.index e i ⟨e.span.start, stop⟩)
  · refine Moved.bind moved_advance fun _ => ?_
    refine Moved.bind (moved_commaSeparated hr.body .rParen) fun args => ?_
    refine Moved.bind (moved_closing .rParen ')') fun stop => ?_
    have h := moved_postfixes hr (.call e args ⟨e.span.start, stop⟩)
    rw [Expr.relocate, Expr.relocateList_eq_map] at h
    rw [Expr.span_relocate]
    exact h
  · exact moved_pure rfl

theorem moved_entry (hr : Rules.Moved f r) :
    Parser.Moved f (Prod.map (Expr.relocate f) (Expr.relocate f)) r.entry r.entry := by
  refine Moved.bind hr.body fun key => Moved.bind (moved_eat .colon) fun taken => ?_
  cases taken with
  | true => exact Moved.bind hr.body fun value => moved_pure rfl
  | false =>
    refine Moved.bind (moved_unexpected .colon) fun _ => ?_
    exact Moved.bind moved_current fun token => moved_pure rfl

theorem moved_braces (hr : Rules.Moved f r) (start : Nat) :
    Parser.Moved f (Expr.relocate f) (r.braces start) (r.braces (f start)) := by
  refine Moved.bind moved_current fun token => Moved.bind (moved_eat .rBrace) fun taken => ?_
  cases taken with
  | true => exact moved_pure rfl
  | false =>
    refine Moved.bind hr.body fun first => Moved.bind (moved_eat .colon) fun colon => ?_
    cases colon with
    | true =>
      refine Moved.bind hr.body fun value => ?_
      refine Moved.bind (moved_afterCommas (moved_entry hr)) fun others => ?_
      refine Moved.bind (moved_closing .rBrace '}') fun stop => moved_pure ?_
      rw [Expr.relocate, Expr.relocateEntries_eq_map]
      rfl
    | false =>
      refine Moved.bind (moved_afterCommas hr.body) fun others => ?_
      refine Moved.bind (moved_closing .rBrace '}') fun stop => moved_pure ?_
      rw [Expr.relocate, Expr.relocateList_eq_map]
      rfl

theorem moved_primary (hr : Rules.Moved f r) :
    Parser.Moved f (Expr.relocate f) r.primary r.primary := by
  refine Moved.bind moved_current fun token => ?_
  have hleaf : ∀ e : Expr, Parser.Moved f (Expr.relocate f) (advance >>= fun _ => pure e)
      (advance >>= fun _ => pure (e.relocate f)) :=
    fun e => Moved.bind moved_advance fun _ => moved_pure rfl
  dsimp only
  rw [Token.relocate_kind]
  split
  · exact hleaf (.literal _ token.span)
  · exact hleaf (.literal _ token.span)
  · exact hleaf (.literal _ token.span)
  · exact hleaf (.literal _ token.span)
  · exact hleaf (.literal _ token.span)
  · exact hleaf (.identifier _ token.span)
  · exact hleaf (.error token.span)
  · refine Moved.bind moved_advance fun _ => Moved.bind hr.body fun e => ?_
    exact Moved.bind (moved_closing .rParen ')') fun _ => moved_pure rfl
  · refine Moved.bind moved_advance fun _ => ?_
    refine Moved.bind (moved_commaSeparated hr.body .rBracket) fun items => ?_
    refine Moved.bind (moved_closing .rBracket ']') fun stop => moved_pure ?_
    rw [Expr.relocate, Expr.relocateList_eq_map]
    rfl
  · exact Moved.bind moved_advance fun _ => moved_braces hr token.span.start
  all_goals refine Moved.bind (moved_unexpected .expression) fun _ => ?_
  all_goals first
    | exact moved_pure rfl
    | exact hleaf (.error token.span)

theorem moved_prefixed (hr : Rules.Moved f r) :
    Parser.Moved f (Expr.relocate f) r.prefixed r.prefixed := by
  have hplain : Parser.Moved f (Expr.relocate f) (r.primary >>= r.postfixes)
      (r.primary >>= r.postfixes) :=
    Moved.bind (moved_primary hr) fun e => moved_postfixes hr e
  refine Moved.bind moved_current fun token => ?_
  rw [Token.relocate_kind]
  split
  · split
    · refine Moved.bind moved_advance fun _ => Moved.bind hr.unary fun operand => moved_pure ?_
      rw [Expr.span_relocate]
      rfl
    · exact hplain
  · exact hplain

theorem moved_chainRest (hr : Rules.Moved f r) (l : Nat) (left : Expr) :
    Parser.Moved f (Expr.relocate f) (r.chainRest l left) (r.chainRest l (left.relocate f)) := by
  refine Moved.bind moved_current fun token => ?_
  rw [Token.relocate_kind]
  split
  · exact Moved.bind moved_advance fun _ => hr.chain l _ left
  · exact moved_pure rfl

theorem moved_climb (hr : Rules.Moved f r) :
    ∀ l, Parser.Moved f (Expr.relocate f) (r.climb l) (r.climb l)
  | 0 => moved_prefixed hr
  | l + 1 => Moved.bind (moved_climb hr l) fun e => moved_chainRest hr l e

theorem moved_rightOperand (hf : Monotone f) (hr : Rules.Moved f r) (l : Nat) (op : BinaryOp)
    (left : Expr) : Parser.Moved f (Expr.relocate f) (r.rightOperand l op left)
      (r.rightOperand l op (left.relocate f)) := by
  refine Moved.bind (moved_climb hr l) fun right => ?_
  rw [← Expr.relocate_joined hf]
  exact moved_chainRest hr l _

theorem moved_conditional (hf : Monotone f) (hr : Rules.Moved f r) :
    Parser.Moved f (Expr.relocate f) r.conditional r.conditional := by
  refine Moved.bind (moved_climb hr _) fun condition => ?_
  refine Moved.bind (moved_eat .question) fun taken => ?_
  cases taken with
  | true =>
    have hwhole : ∀ yes no : Expr, Expr.ternary (condition.relocate f) (yes.relocate f)
        (no.relocate f) ⟨(condition.relocate f).span.start,
          max (no.relocate f).span.stop (yes.relocate f).span.stop⟩ =
        (Expr.ternary condition yes no
          ⟨condition.span.start, max no.span.stop yes.span.stop⟩).relocate f := by
      intro yes no
      simp only [Expr.relocate, Expr.span_relocate, Span.relocate, hf.map_max]
    refine Moved.bind hr.body fun yes => Moved.bind (moved_eat .colon) fun colon => ?_
    cases colon with
    | true => exact Moved.bind hr.body fun no => moved_pure (hwhole yes no)
    | false =>
      refine Moved.bind (moved_unexpected .colon) fun _ => ?_
      refine Moved.bind moved_current fun token => ?_
      exact moved_pure (hwhole yes (.error (Span.empty token.span.start)))
  | false => exact moved_pure rfl

theorem moved_lambda (hr : Rules.Moved f r) :
    Parser.Moved f (Expr.relocate f) r.lambda r.lambda := by
  refine Moved.bind moved_current fun token => ?_
  refine Moved.bind moved_lambdaHead fun params => Moved.bind hr.body fun body => moved_pure ?_
  rw [Expr.span_relocate]
  rfl

theorem moved_expression (hf : Monotone f) (hr : Rules.Moved f r) :
    Parser.Moved f (Expr.relocate f) r.expression r.expression := by
  refine Moved.bind moved_get fun s => ?_
  have hahead : (s.relocate f).ahead = s.ahead.map (Token.relocate f) := rfl
  rw [hahead, lambdaAhead_relocate]
  split
  · exact moved_lambda hr
  · exact moved_conditional hf hr

/-- One more level. -/
theorem Rules.Moved.within (hf : Monotone f) (hr : Rules.Moved f r) : Rules.Moved f r.within where
  body := moved_expression hf hr
  unary := moved_prefixed hr
  access := moved_onePostfix hr
  chain := moved_rightOperand hf hr

end Level

/-- **The rules of every budget commute with maps that keep the order.** -/
theorem Rules.moved_withBudget {f : Nat → Nat} (hf : Monotone f) :
    ∀ n, Rules.Moved f (withBudget n)
  | 0 => moved_exhausted hf
  | n + 1 => (moved_withBudget hf n).within hf

/-! ## 5. Whole inputs -/

section Whole

variable {f : Nat → Nat}

theorem moved_trailing : Parser.Moved f id trailing trailing := by
  have hfinish : Parser.Moved f id (modify ParserState.finish) (modify ParserState.finish) :=
    moved_modify fun s => s.finish_relocate f
  refine Moved.bind moved_current fun token => ?_
  rw [Token.relocate_kind]
  split
  · exact hfinish
  · exact hfinish
  · exact Moved.bind (moved_report token.span .assignment) fun _ => hfinish
  · exact Moved.bind (moved_unexpected .endOfExpression) fun _ => hfinish

theorem moved_whole (hf : Monotone f) : Parser.Moved f (Expr.relocate f) whole whole := by
  refine Moved.bind moved_current fun token => ?_
  rw [Token.relocate_isEof]
  split
  · refine Moved.bind (moved_report (Span.empty token.span.start) .emptyExpression) fun _ => ?_
    exact moved_pure rfl
  · refine Moved.bind (Rules.moved_withBudget hf maxDepth).body fun e => ?_
    exact Moved.bind moved_trailing fun _ => moved_pure rfl

/-- Without an end token the parser makes one up at a place of its own, so there has to be one. -/
theorem ParserState.ofTokens_relocate {ts : List Token} {eof : Token} (h : eof ∈ ts)
    (he : eof.isEof = true) :
    ofTokens (ts.map (Token.relocate f)) = (ofTokens ts).relocate f := by
  have hfind : (ts.map (Token.relocate f)).find? Token.isEof =
      (ts.find? Token.isEof).map (Token.relocate f) := by
    rw [List.find?_map]
    rfl
  have htake : (ts.map (Token.relocate f)).takeWhile (fun t => !t.isEof) =
      (ts.takeWhile fun t => !t.isEof).map (Token.relocate f) := by
    rw [List.takeWhile_map]
    rfl
  obtain ⟨t, ht⟩ := Option.isSome_iff_exists.mp (List.find?_isSome.mpr ⟨eof, h, he⟩)
  unfold ofTokens
  rw [hfind, htake, ht]
  cases ts.takeWhile fun t => !t.isEof with
  | nil => rfl
  | cons t rest => rfl

/-- **The tree and the diagnostics of moved tokens are moved ones.** -/
theorem parseTokens_relocate (hf : Monotone f) {ts : List Token} {eof : Token} (h : eof ∈ ts)
    (he : eof.isEof = true) :
    parseTokens (ts.map (Token.relocate f)) = ⟨(parseTokens ts).root.relocate f,
      (parseTokens ts).diagnostics.map (Diagnostic.relocate f)⟩ := by
  unfold parseTokens
  rw [ParserState.ofTokens_relocate h he, moved_whole hf]
  rfl

end Whole

/-! ## 6. Whole texts -/

/-- Giving tokens and errors their places is reading moved ones. -/
theorem parseLexed_relocate (lexed : Lexed) (f : Nat → Nat) :
    parseLexed lexed (Span.relocate f) = parseLexed (lexed.relocate f) id := by
  unfold parseLexed Lexed.relocate
  rw [List.map_map, List.map_map]
  rfl

/-- The diagnostics of a text at the start of its document, before they are sorted. -/
def unsortedDiagnostics (source : List Char) : List Diagnostic :=
  (lex source 0).errors.map Diagnostic.ofLexError ++
    (parseTokens (lex source 0).tokens).diagnostics

theorem parseExpression_zero (source : List Char) :
    parseExpression source 0 = ⟨(parseTokens (lex source 0).tokens).root,
      Diagnostic.sort (unsortedDiagnostics source)⟩ :=
  parseExpression_eq source 0

/-- The tree and the diagnostics of a text's tokens, moved before parsing or after it. -/
theorem parseTokens_lex_relocate {f : Nat → Nat} (hf : Monotone f) (source : List Char) :
    parseTokens ((lex source 0).tokens.map (Token.relocate f)) =
      ⟨(parseTokens (lex source 0).tokens).root.relocate f,
        (parseTokens (lex source 0).tokens).diagnostics.map (Diagnostic.relocate f)⟩ := by
  obtain ⟨ts, hts, -, -⟩ := lexFrom_tokens 0 0 source
  have heof : Token.eofAt (0 + Text.byteLength source) ∈ (lex source 0).tokens := by
    show _ ∈ (lexFrom 0 0 source).tokens
    rw [hts]
    exact List.mem_append_right _ (List.mem_singleton_self _)
  exact parseTokens_relocate hf heof rfl

theorem parseLexed_moved {f : Nat → Nat} (hf : Monotone f) (source : List Char) :
    parseLexed (lex source 0) (Span.relocate f) =
      ⟨(parseTokens (lex source 0).tokens).root.relocate f,
        Diagnostic.sort ((unsortedDiagnostics source).map (Diagnostic.relocate f))⟩ := by
  have h := parseTokens_lex_relocate hf source
  unfold parseLexed unsortedDiagnostics
  rw [List.map_append, List.map_map]
  show (⟨(parseTokens ((lex source 0).tokens.map (Token.relocate f))).root, Diagnostic.sort
    (_ ++ (parseTokens ((lex source 0).tokens.map (Token.relocate f))).diagnostics)⟩ : Parsed) = _
  rw [h]
  rfl

/-! ### Offsets past the end do not matter -/

/-- Only the offsets up to the end of the text matter to its tokens and errors. -/
theorem lex_relocate_congr {f g : Nat → Nat} {source : List Char}
    (h : ∀ x ≤ Text.byteLength source, f x = g x) :
    (lex source 0).relocate f = (lex source 0).relocate g := by
  have hspan : ∀ s : Span, s.Within (0 + Text.byteLength source) →
      s.relocate f = s.relocate g := by
    rintro s ⟨h₁, h₂⟩
    rw [Nat.zero_add] at h₁ h₂
    rw [Span.relocate, Span.relocate, h _ h₁, h _ h₂]
  obtain ⟨htokens, herrors⟩ := lexFrom_within 0 0 source
  unfold Lexed.relocate
  congr 1
  · refine List.map_congr_left fun t ht => ?_
    rw [Token.relocate, Token.relocate, hspan _ (htokens t ht)]
  · refine List.map_congr_left fun e he => ?_
    rw [LexError.relocate, LexError.relocate, hspan _ (herrors e he)]

/-- Offsets past the end drawn back to it: nothing moves, since there are none. -/
theorem relocate_clamp (source : List Char) :
    (parseTokens (lex source 0).tokens).root.relocate (min (Text.byteLength source)) =
        (parseTokens (lex source 0).tokens).root ∧
      (unsortedDiagnostics source).map (Diagnostic.relocate (min (Text.byteLength source))) =
        unsortedDiagnostics source := by
  have hmono : Monotone (min (Text.byteLength source)) := fun _ _ h => min_le_min_left _ h
  have hlex : (lex source 0).relocate (min (Text.byteLength source)) = lex source 0 := by
    have hid : (lex source 0).relocate id = lex source 0 := by
      show (⟨_, _⟩ : Lexed) = _
      rw [show Token.relocate id = id from rfl, show LexError.relocate id = id from rfl,
        List.map_id, List.map_id]
    have hcongr : (lex source 0).relocate (min (Text.byteLength source)) =
        (lex source 0).relocate id := lex_relocate_congr fun x hx => Nat.min_eq_right hx
    rw [hcongr, hid]
  -- what leaves the tokens where they are leaves the tree and its diagnostics there too
  have htokens := congrArg Lexed.tokens hlex
  have herrors := congrArg Lexed.errors hlex
  have hparsed := parseTokens_lex_relocate hmono source
  dsimp only [Lexed.relocate] at htokens herrors
  rw [htokens] at hparsed
  refine ⟨(congrArg Parsed.root hparsed).symm, ?_⟩
  unfold unsortedDiagnostics
  rw [List.map_append, List.map_map]
  congr 1
  · conv_rhs => rw [← herrors, List.map_map]
    rfl
  · exact (congrArg Parsed.diagnostics hparsed).symm

theorem relocate_congr {f g : Nat → Nat} {source : List Char}
    (h : ∀ x ≤ Text.byteLength source, f x = g x) :
    (parseTokens (lex source 0).tokens).root.relocate f =
        (parseTokens (lex source 0).tokens).root.relocate g ∧
      (unsortedDiagnostics source).map (Diagnostic.relocate f) =
        (unsortedDiagnostics source).map (Diagnostic.relocate g) := by
  obtain ⟨hroot, hdiagnostics⟩ := relocate_clamp source
  have hcomp : f ∘ min (Text.byteLength source) = g ∘ min (Text.byteLength source) :=
    funext fun x => h _ (Nat.min_le_left _ _)
  constructor
  · rw [← hroot, Expr.relocate_relocate, Expr.relocate_relocate, hcomp]
  · have hmove : ∀ k : Nat → Nat, (unsortedDiagnostics source).map (Diagnostic.relocate k) =
        (unsortedDiagnostics source).map
          (Diagnostic.relocate (k ∘ min (Text.byteLength source))) := by
      intro k
      conv_lhs => rw [← hdiagnostics, List.map_map]
      exact List.map_congr_left fun d _ => Diagnostic.relocate_relocate k _ d
    rw [hmove f, hmove g, hcomp]

/-! ### Offsets of a document -/

/-- The offset of a byte is one of the list, the last one for bytes past the end. -/
theorem getElem?_mappedOffset {offsets : List Nat} (h : 0 < offsets.length) (x : Nat) :
    offsets[min x (offsets.length - 1)]? = some (mappedOffset offsets x) := by
  unfold mappedOffset
  rw [List.getLast?_eq_getElem?]
  by_cases hx : x < offsets.length
  · rw [Nat.min_eq_left (by omega), List.getElem?_eq_getElem hx]
    rfl
  · have hlast : offsets.length - 1 < offsets.length := by omega
    rw [Nat.min_eq_right (by omega), List.getElem?_eq_none (Nat.le_of_not_lt hx),
      List.getElem?_eq_getElem hlast]
    rfl

theorem monotone_mappedOffset {offsets : List Nat} (h : 0 < offsets.length)
    (hsorted : offsets.Pairwise (· ≤ ·)) : Monotone (mappedOffset offsets) := by
  intro a b hab
  obtain ⟨ha, hva⟩ := List.getElem?_eq_some_iff.mp (getElem?_mappedOffset h a)
  obtain ⟨hb, hvb⟩ := List.getElem?_eq_some_iff.mp (getElem?_mappedOffset h b)
  rw [← hva, ← hvb]
  rcases Nat.lt_or_ge (min a (offsets.length - 1)) (min b (offsets.length - 1)) with hlt | hge
  · exact List.pairwise_iff_getElem.mp hsorted _ _ ha hb hlt
  · have heq : min a (offsets.length - 1) = min b (offsets.length - 1) := by omega
    simp only [heq, Nat.le_refl]

/-- **Position maps commute with parsing.** The tree of a text whose bytes lie scattered is the
    tree of the text with every end of a range replaced by its offset, and so are the
    diagnostics, up to their order. For consecutive offsets it is the text further on. -/
theorem parseMapped_eq_relocate (source : List Char) :
    (∀ offsets : List Nat, offsets.length = Text.byteLength source + 1 →
      offsets.Pairwise (· ≤ ·) →
      ∀ place : Nat → Nat, (∀ x (h : x < offsets.length), place x = offsets[x]) →
        (parseMapped source offsets).root = (parseExpression source 0).root.relocate place ∧
        (parseMapped source offsets).diagnostics.Perm
          ((parseExpression source 0).diagnostics.map (Diagnostic.relocate place))) ∧
    ∀ n, parseMapped source (List.range' n (Text.byteLength source + 1)) =
      parseExpression source n := by
  constructor
  · intro offsets hlength hsorted place hplace
    have hpos : 0 < offsets.length := by omega
    have hagree : ∀ x ≤ Text.byteLength source, mappedOffset offsets x = place x := by
      intro x hx
      have hlt : x < offsets.length := by omega
      rw [hplace x hlt, mappedOffset, List.getElem?_eq_getElem hlt]
      rfl
    obtain ⟨hroot, hdiagnostics⟩ := relocate_congr hagree
    have hmoved : parseMapped source offsets = _ :=
      parseLexed_moved (monotone_mappedOffset hpos hsorted) source
    rw [hmoved, parseExpression_zero]
    refine ⟨hroot, ?_⟩
    show (Diagnostic.sort _).Perm _
    rw [hdiagnostics]
    exact (List.mergeSort_perm _ _).trans ((List.mergeSort_perm _ _).symm.map _)
  · intro n
    -- here even the unsorted diagnostics agree, so their order is no question
    have hagree : ∀ x ≤ Text.byteLength source,
        mappedOffset (List.range' n (Text.byteLength source + 1)) x = x + n := by
      intro x hx
      rw [mappedOffset, List.getElem?_range' (by omega)]
      show n + 1 * x = x + n
      omega
    have hmapped : parseMapped source (List.range' n (Text.byteLength source + 1)) =
        parseLexed ((lex source 0).relocate (· + n)) id := by
      rw [← lex_relocate_congr hagree, ← parseLexed_relocate]
      rfl
    have hmove : lex source n = (lex source 0).relocate (· + n) := by
      have h := lexFrom_move n 0 0 source
      rw [Nat.zero_add] at h
      exact h
    rw [hmapped, ← hmove]
    rfl

/-- A string with a bad escape and a delimiter too many, with two bytes at one offset. -/
theorem parseMapped_scattered_string :
    let source := ['"', '\\', 'q', '"', ')']
    let offsets := [3, 4, 7, 7, 9, 12]
    let place := fun x => offsets.getD x 0
    offsets.length = Text.byteLength source + 1 ∧ offsets.Pairwise (· ≤ ·) ∧
      (parseExpression source 0).diagnostics.length = 2 ∧
      (parseMapped source offsets).root = (parseExpression source 0).root.relocate place ∧
      (parseMapped source offsets).diagnostics.Perm
        ((parseExpression source 0).diagnostics.map (Diagnostic.relocate place)) := by
  intro source offsets place
  have hlength : offsets.length = Text.byteLength source + 1 := by decide
  have hsorted : offsets.Pairwise (· ≤ ·) := by decide
  have hplace : ∀ x (h : x < offsets.length), place x = offsets[x] := by decide
  exact ⟨hlength, hsorted, by cbv,
    (parseMapped_eq_relocate source).1 offsets hlength hsorted place hplace⟩

end FlowExpr
